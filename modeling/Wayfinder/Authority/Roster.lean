import Wayfinder.Authority.Invites

/-!
# Accounts stay administrable

What a request can do to the accounts and the invitations is said once, by kind. From it: a
name is taken by one account or one invitation, the invitations on file are bounded, and a
mesh with an administrator who can sign in never loses the last one.
-/

namespace Wayfinder

set_option autoImplicit false

open Table Fallible

/-! ### What a request does to the roster -/

def UserRecord.EnabledAdmin (u : UserRecord) : Prop := u.role = .admin ∧ u.disabled = false

/-- The account of this name is not the last of the administrators who can sign in. -/
def Spared (users : List UserRecord) (username : String) : Prop :=
  (∀ u ∈ users, u.EnabledAdmin → u.username ≠ username) ∨
    ∃ u ∈ users, u.EnabledAdmin ∧ u.username ≠ username

/-- Apply a change to the account of a name. -/
def changeUser (username : String) (f : UserRecord → UserRecord) (users : List UserRecord) :
    List UserRecord :=
  users.lookmap fun u => if u.username = username then some (f u) else none

/-- Everything a request can do to the accounts and the invitations on file, some of which
may have been dropped on the way. -/
inductive RosterChange (users : List UserRecord) (invites : List UserInvite) :
    List UserRecord → List UserInvite → Prop where
  | sift {invites' : List UserInvite} (hsub : invites'.Sublist invites) :
      RosterChange users invites users invites'
  | join {invites' : List UserInvite} {user : UserRecord} (hsub : invites'.Sublist invites)
      (hfree : ∀ u ∈ users, u.username ≠ user.username)
      (huninvited : ∀ i ∈ invites', i.username ≠ user.username) :
      RosterChange users invites (users ++ [user]) invites'
  | invite {invites' : List UserInvite} {i : UserInvite} (hsub : invites'.Sublist invites)
      (hfree : ∀ u ∈ users, u.username ≠ i.username)
      (huninvited : ∀ i' ∈ invites', i'.username ≠ i.username)
      (hroom : invites'.length < maxPendingInvites) :
      RosterChange users invites users (invites' ++ [i])
  | start {invites' : List UserInvite} {f : UserInvite → Option UserInvite}
      (hsub : invites'.Sublist invites) (hname : ∀ i i', f i = some i' → i'.username = i.username) :
      RosterChange users invites users (invites'.lookmap f)
  | change {username : String} {f : UserRecord → UserRecord}
      (hname : ∀ u, (f u).username = u.username)
      (hadmin : (∀ u : UserRecord, u.EnabledAdmin → (f u).EnabledAdmin) ∨ Spared users username) :
      RosterChange users invites (changeUser username f users) invites
  | remove {username : String} (hspared : Spared users username) :
      RosterChange users invites (users.filter fun u => u.username ≠ username) invites

/-- A name is an account's or an invitation's, of one of them, and the invitations fit. -/
structure WellNamed (users : List UserRecord) (invites : List UserInvite) : Prop where
  accounts : (users.map UserRecord.username).Nodup
  invited : (invites.map UserInvite.username).Nodup
  apart : ∀ u ∈ users, ∀ i ∈ invites, u.username ≠ i.username
  bounded : invites.length ≤ maxPendingInvites

def HasAdmin (users : List UserRecord) : Prop := ∃ u ∈ users, u.EnabledAdmin

section Changes
variable {users users' : List UserRecord} {invites invites' : List UserInvite}

theorem map_username_changeUser {username : String} {f : UserRecord → UserRecord}
    (hname : ∀ u, (f u).username = u.username) :
    (changeUser username f users).map UserRecord.username = users.map UserRecord.username := by
  apply List.lookmap_map_eq
  intro u u' hu'
  rw [Option.mem_def] at hu'
  split at hu'
  · rw [← Option.some.inj hu', hname]
  · cases hu'

/-- Only the account a lookup finds is changed. -/
theorem changeUser_congr {username : String} {f g : UserRecord → UserRecord}
    (h : ∀ u, (users.find? fun u => u.username = username) = some u → f u = g u) :
    changeUser username f users = changeUser username g users := by
  unfold changeUser
  induction users with
  | nil => rfl
  | cons u users ih =>
    by_cases hname : u.username = username
    · simp only [List.lookmap_cons, if_pos hname]
      rw [h u (List.find?_cons_of_pos (decide_eq_true hname))]
    · simp only [List.lookmap_cons, if_neg hname]
      rw [ih]
      intro u' hu'
      apply h
      rw [List.find?_cons_of_neg (by simpa using hname)]
      exact hu'

theorem nodup_map_append_singleton {α : Type} {key : α → String} {l : List α} {x : α}
    (h : (l.map key).Nodup) (hx : ∀ y ∈ l, key y ≠ key x) : ((l ++ [x]).map key).Nodup := by
  rw [List.map_append, List.map_singleton, List.nodup_append]
  refine ⟨h, List.nodup_singleton _, ?_⟩
  intro name hname name' hname'
  obtain ⟨y, hy, rfl⟩ := List.mem_map.mp hname
  rw [List.mem_singleton.mp hname']
  exact hx y hy

/-- Dropping invitations keeps every name where it is. -/
theorem WellNamed.sift (h : WellNamed users invites) (hsub : invites'.Sublist invites) :
    WellNamed users invites' where
  accounts := h.accounts
  invited := h.invited.sublist (hsub.map _)
  apart u hu i hi := h.apart u hu i (hsub.subset hi)
  bounded := hsub.length_le.trans h.bounded

theorem WellNamed.step (h : WellNamed users invites)
    (hchange : RosterChange users invites users' invites') : WellNamed users' invites' := by
  cases hchange with
  | sift hsub => exact h.sift hsub
  | join hsub hfree huninvited =>
    have hkept := h.sift hsub
    refine ⟨nodup_map_append_singleton h.accounts hfree, hkept.invited, ?_, hkept.bounded⟩
    intro u hu i hi
    rcases List.mem_append.mp hu with hu | hu
    · exact hkept.apart u hu i hi
    · rw [List.mem_singleton.mp hu]
      exact (huninvited i hi).symm
  | invite hsub hfree huninvited hroom =>
    have hkept := h.sift hsub
    refine ⟨h.accounts, nodup_map_append_singleton hkept.invited huninvited, ?_, ?_⟩
    · intro u hu i' hi'
      rcases List.mem_append.mp hi' with hi' | hi'
      · exact hkept.apart u hu i' hi'
      · rw [List.mem_singleton.mp hi']
        exact hfree u hu
    · rw [List.length_append]
      exact hroom
  | @start kept f hsub hname =>
    have hkept := h.sift hsub
    have hnames : (kept.lookmap f).map UserInvite.username = kept.map UserInvite.username := by
      apply List.lookmap_map_eq
      intro i i' hi'
      exact (hname i i' hi').symm
    refine ⟨h.accounts, ?_, ?_, ?_⟩
    · rw [hnames]
      exact hkept.invited
    · intro u hu i hi
      have hi : i.username ∈ (kept.lookmap f).map UserInvite.username := List.mem_map_of_mem hi
      rw [hnames] at hi
      obtain ⟨i', hi', heq⟩ := List.mem_map.mp hi
      rw [← heq]
      exact hkept.apart u hu i' hi'
    · rw [List.length_lookmap]
      exact hkept.bounded
  | @change username f hname _ =>
    refine ⟨?_, h.invited, ?_, h.bounded⟩
    · rw [map_username_changeUser hname]
      exact h.accounts
    · intro u hu i hi
      have hu : u.username ∈ (changeUser username f users).map UserRecord.username :=
        List.mem_map_of_mem hu
      rw [map_username_changeUser hname] at hu
      obtain ⟨u', hu', heq⟩ := List.mem_map.mp hu
      rw [← heq]
      exact h.apart u' hu' i hi
  | remove =>
    exact ⟨h.accounts.sublist (List.filter_sublist.map _), h.invited,
      fun u hu i hi => h.apart u (List.mem_filter.mp hu).1 i hi, h.bounded⟩

/-- The one account that an act may take from the administrators is not the last of them. -/
theorem HasAdmin.step (h : HasAdmin users) (hchange : RosterChange users invites users' invites') :
    HasAdmin users' := by
  have hother : ∀ username, Spared users username →
      ∃ u ∈ users, u.EnabledAdmin ∧ u.username ≠ username := by
    intro username hspared
    rcases hspared with hnone | hspared
    · obtain ⟨u, hu, hadmin⟩ := h
      exact ⟨u, hu, hadmin, hnone u hu hadmin⟩
    · exact hspared
  cases hchange with
  | sift => exact h
  | join =>
    obtain ⟨u, hu, hadmin⟩ := h
    exact ⟨u, List.mem_append_left _ hu, hadmin⟩
  | invite => exact h
  | start => exact h
  | @change username f _ hadmin =>
    rcases hadmin with hkeeps | hspared
    · apply exists_mem_lookmap ?_ h
      intro u u' hu' hu
      split at hu'
      · rw [← Option.some.inj hu']
        exact hkeeps u hu
      · cases hu'
    · have hkept : ∃ u ∈ changeUser username f users, u.EnabledAdmin ∧ u.username ≠ username := by
        apply exists_mem_lookmap ?_ (hother username hspared)
        intro u u' hu' hu
        rw [if_neg hu.2] at hu'
        cases hu'
      obtain ⟨u, hu, hadmin, _⟩ := hkept
      exact ⟨u, hu, hadmin⟩
  | @remove username hspared =>
    obtain ⟨u, hu, hadmin, hname⟩ := hother username hspared
    exact ⟨u, List.mem_filter.mpr ⟨hu, decide_eq_true hname⟩, hadmin⟩

end Changes

/-! ### The calls that do not know of invitations -/

namespace CertAuthority

section Calls
variable {k : Crypto} (ca : CertAuthority)

/-- Ending sessions writes records and marks; only the change it is called with writes an
account. -/
theorem revokeSessions_users (commits : Bool) (sessions : List (Mac × Nat))
    {change : CaLog → CaLog} {g : List UserRecord → List UserRecord}
    (hchange : ∀ log, (change log).users = g log.users) :
    (ca.revokeSessions k commits sessions change).2.log.users = ca.log.users ∨
      (ca.revokeSessions k commits sessions change).2.log.users = g ca.log.users := by
  unfold revokeSessions
  split
  · exact Or.inl rfl
  · dsimp only
    rcases ca.attempt_mutate commits _ _ with h | h <;> rw [h]
    · exact Or.inl rfl
    · exact Or.inr (hchange _)

theorem updateUser_users (username : String) (f : UserRecord → UserRecord) (log : CaLog) :
    (updateUser username f log).users = changeUser username f log.users := rfl

theorem spared_of_refuse {username act : String}
    (h : ca.refuseToStrandTheMesh username act = .ok ()) : Spared ca.log.users username := by
  unfold refuseToStrandTheMesh at h
  dsimp only at h
  split at h
  · cases h
  · rename_i hguard
    have hmem : ∀ u, u ∈ ca.log.users.filter (fun u => u.role = .admin && !u.disabled) ↔
        u ∈ ca.log.users ∧ u.EnabledAdmin := by
      intro u
      rw [List.mem_filter]
      simp [UserRecord.EnabledAdmin]
    rw [Bool.and_eq_true, not_and_or] at hguard
    rcases hguard with hnone | hothers
    · left
      intro u hu hadmin hname
      exact hnone (List.any_eq_true.mpr ⟨u, (hmem u).mpr ⟨hu, hadmin⟩, decide_eq_true hname⟩)
    · right
      rw [Bool.not_eq_true, List.all_eq_false] at hothers
      obtain ⟨u, hu, hname⟩ := hothers
      obtain ⟨hu, hadmin⟩ := (hmem u).mp hu
      exact ⟨u, hu, hadmin, of_decide_eq_false (Bool.eq_false_iff.mpr hname)⟩

theorem removeUser_users (commits : Commits) (username : String) :
    (ca.removeUser k commits username).2.log.users = ca.log.users ∨
      (Spared ca.log.users username ∧ (ca.removeUser k commits username).2.log.users =
        ca.log.users.filter fun u => u.username ≠ username) := by
  unfold removeUser
  rcases attempt_check ca (ca.refuseToStrandTheMesh username "remove") _ with
    ⟨_, h⟩ | ⟨_, hguard, h⟩ <;> rw [h]
  · exact Or.inl rfl
  rcases attempt_check ca (ca.accountIdOf username) _ with ⟨_, h⟩ | ⟨_, _, h⟩ <;> rw [h]
  · exact Or.inl rfl
  · apply (ca.revokeSessions_users commits.final _ (fun log => rfl)).imp_right
    exact fun hdone => ⟨ca.spared_of_refuse hguard, hdone⟩

theorem revokeUserSessions_users (commits : Commits) (username : String) :
    (ca.revokeUserSessions k commits username).2.log.users = ca.log.users := by
  unfold revokeUserSessions
  rcases attempt_check ca (ca.accountIdOf username) _ with ⟨_, h⟩ | ⟨_, _, h⟩ <;> rw [h]
  exact (ca.revokeSessions_users commits.final _ (g := id) (fun log => rfl)).elim id id

theorem setUserRole_users (commits : Commits) (username : String) (role : UserRole) :
    (ca.setUserRole k commits username role).2.log.users = ca.log.users ∨
      ((role = .viewer → Spared ca.log.users username) ∧
        (ca.setUserRole k commits username role).2.log.users =
          changeUser username (fun u => { u with role := role }) ca.log.users) := by
  unfold setUserRole
  rcases attempt_check ca (if role = .viewer then ca.refuseToStrandTheMesh username "demote"
    else .ok ()) _ with ⟨_, h⟩ | ⟨_, hguard, h⟩ <;> rw [h]
  · exact Or.inl rfl
  rcases attempt_check ca (ca.userRecord username) _ with ⟨_, h⟩ | ⟨user, _, h⟩ <;> rw [h]
  · exact Or.inl rfl
  split
  · exact Or.inl rfl
  · dsimp only
    rw [attempt_ok]
    apply (ca.revokeSessions_users commits.final _ fun log =>
      updateUser_users username _ log).imp_right
    intro hdone
    refine ⟨?_, hdone⟩
    intro hviewer
    rw [if_pos hviewer] at hguard
    exact ca.spared_of_refuse hguard

/-- The account a call finds is enabled or disabled as `UserRecord.setEnabled` says. -/
theorem setUserEnabled_users (commits : Commits) (username : String) (enabled : Bool) :
    (ca.setUserEnabled k commits username enabled).2.log.users = ca.log.users ∨
      ((enabled = false → Spared ca.log.users username) ∧
        (ca.setUserEnabled k commits username enabled).2.log.users =
          changeUser username (fun u => u.setEnabled enabled ca.nowUnix) ca.log.users) := by
  unfold setUserEnabled
  rcases attempt_check ca (if enabled then .ok () else
    ca.refuseToStrandTheMesh username "disable") _ with ⟨_, h⟩ | ⟨_, hguard, h⟩ <;> rw [h]
  · exact Or.inl rfl
  rcases attempt_check ca (ca.userRecord username) _ with ⟨_, h⟩ | ⟨user, huser, h⟩ <;> rw [h]
  · exact Or.inl rfl
  dsimp only
  split
  · exact Or.inl rfl
  · rename_i hunsettled
    rw [attempt_ok]
    apply (ca.revokeSessions_users commits.final _ fun log =>
      updateUser_users username _ log).imp_right
    intro hdone
    refine ⟨?_, hdone.trans (changeUser_congr ?_)⟩
    · intro hdisable
      rw [hdisable] at hguard
      exact ca.spared_of_refuse hguard
    · intro u hu
      obtain rfl : u = user := by
        unfold userRecord at huser
        rw [hu] at huser
        exact Except.ok.inj huser
      exact (if_neg hunsettled).symm

/-- An attempt changes the account it names as `UserRecord.authenticate` says, and signing a
session changes none. -/
theorem authenticateUser_users (cr : Credentials) (commits : Commits) (username password totpCode : String)
    (ed x : Bytes) :
    (ca.authenticateUser k cr commits username password totpCode ed x).2.log.users =
        ca.log.users ∨
      (ca.authenticateUser k cr commits username password totpCode ed x).2.log.users =
        changeUser username (fun u => (u.authenticate cr password totpCode ca.nowUnix).2)
          ca.log.users := by
  have hattempt : (ca.authenticate cr username password totpCode).2.users = ca.log.users ∨
      (ca.authenticate cr username password totpCode).2.users =
        changeUser username (fun u => (u.authenticate cr password totpCode ca.nowUnix).2)
          ca.log.users := by
    unfold authenticate
    split
    · exact Or.inl rfl
    · rename_i user huser
      right
      apply changeUser_congr
      intro u hu
      obtain rfl := Option.some.inj (huser.symm.trans hu)
      rfl
  unfold authenticateUser
  split
  · exact Or.inl rfl
  rcases attempt_check ca (fixed 32 ed "ed_pubkey") _ with ⟨_, h⟩ | ⟨_, _, h⟩ <;> rw [h]
  · exact Or.inl rfl
  rcases attempt_check ca (k.x25519PubkeyOf x) _ with ⟨_, h⟩ | ⟨_, _, h⟩ <;> rw [h]
  · exact Or.inl rfl
  dsimp only
  rcases ca.attempt_mutate commits.onTheWay _ _ with h | h <;> rw [h]
  · exact Or.inl rfl
  split
  · exact hattempt
  rename_i user _
  rcases attempt_check _ (checkSessionTtl user.sessionTtlSecs ca.allowUnboundedCertTtl) _ with
    ⟨_, h⟩ | ⟨_, _, h⟩ <;> rw [h]
  · exact hattempt
  · rcases recordSession_cases (k := k) commits.final _ _ user with h | h <;> rw [h]
    · exact hattempt
    · exact hattempt

theorem restart_users (cfg : ProviderConfig) : (ca.restart cfg).2.log.users = ca.log.users := by
  unfold restart
  split
  · rename_i started hstarted
    obtain ⟨_, _, hstarted⟩ := exists_of_bind_ok hstarted
    rw [← Except.ok.inj hstarted]
    rfl
  · rfl

end Calls

end CertAuthority

/-! ### Every call -/

namespace UserAuthority

section Roster
variable {k : Crypto} {cr : Credentials} {ua : UserAuthority} {clock : Readings}

/-- What a call makes of the accounts and the invitations is a change of the roster. -/
def ChangesTo (ua ua' : UserAuthority) : Prop :=
  RosterChange ua.log.users ua.invites ua'.log.users ua'.invites

theorem changesTo_refl : ua.ChangesTo ua := .sift (List.Sublist.refl _)

theorem swept_sublist : (ua.swept clock).invites.Sublist ua.invites := List.filter_sublist

theorem Refused.changesTo {α : Type} {r : Except String α × UserAuthority} (h : ua.Refused clock r) :
    ua.ChangesTo r.2 := by
  obtain ⟨e, ua', rfl, rfl | rfl⟩ := h
  · exact changesTo_refl
  · exact .sift swept_sublist

theorem createUser_changesTo (commits : Commits) (username password : String) (admin : Bool)
    (sessionTtlSecs : Nat) (noTotp : Bool) (id : AccountId) (hashed : Except String String)
    (totpSecret : Bytes) : ua.ChangesTo (ua.createUser clock commits username password admin
      sessionTtlSecs noTotp id hashed totpSecret).2 := by
  rcases ua.createUser_cases commits username password admin sessionTtlSecs noTotp id hashed
    totpSecret with h | ⟨user, hname, h⟩
  · exact h.changesTo
  · obtain ⟨hfree, huninvited⟩ := checkNameAvailable_ok hname
    unfold ChangesTo
    rw [h]
    exact .join swept_sublist hfree huninvited

theorem createUserInvite_changesTo (commits : Commits) (username : String) (role : UserRole)
    (sessionTtlSecs inviteTtlSecs : Nat) (token : String) (totpSecret : Bytes) :
    ua.ChangesTo (ua.createUserInvite k clock commits username role sessionTtlSecs inviteTtlSecs
      token totpSecret).2 := by
  rcases ua.createUserInvite_cases (k := k) commits username role sessionTtlSecs inviteTtlSecs
    token totpSecret with h | ⟨ttl, expiresAt, hcheck, h⟩
  · exact h.changesTo
  · obtain ⟨hname, hroom, _⟩ := checkInvite_ok hcheck
    obtain ⟨hfree, huninvited⟩ := checkNameAvailable_ok hname
    rw [h]
    exact .invite swept_sublist hfree huninvited hroom

theorem beginUserRegistration_changesTo (commits : Commits) (token handle : String) :
    ua.ChangesTo (ua.beginUserRegistration k clock commits token handle).2 := by
  rcases ua.beginUserRegistration_cases (k := k) commits token handle with h | ⟨i, _, _, _, h⟩
  · exact h.changesTo
  · rw [h]
    refine .start swept_sublist ?_
    intro i i' hi'
    unfold startInvite at hi'
    split at hi'
    · rw [← Option.some.inj hi']
    · cases hi'

theorem completeUserRegistration_changesTo (commits : Commits)
    (handle password totpCode : String) (id : AccountId) (hashed : Except String String) :
    ua.ChangesTo (ua.completeUserRegistration k cr clock commits handle password totpCode id
      hashed).2 := by
  rcases ua.completeUserRegistration_cases (k := k) cr commits handle password totpCode id
    hashed with h | ⟨user, _, _, hfree, h⟩
  · exact h.changesTo
  · rw [h]
    refine .join (List.filter_sublist.trans swept_sublist) hfree ?_
    intro i hi
    exact of_decide_eq_true (List.mem_filter.mp hi).2

theorem revokeUserInvite_changesTo (commits : Commits) (username : String) :
    ua.ChangesTo (ua.revokeUserInvite commits username).2 := by
  unfold ChangesTo
  rcases ua.revokeUserInvite_cases commits username with h | h <;> rw [h]
  · exact changesTo_refl
  · exact .sift List.filter_sublist

/-- A new password is no change of name, role or standing. -/
theorem setUserPassword_changesTo (commits : Commits) (username password : String)
    (hashed : Except String String) :
    ua.ChangesTo (ua.setUserPassword commits username password hashed).2 := by
  unfold ChangesTo
  rcases ua.setUserPassword_cases commits username password hashed with h | h <;> rw [h]
  · exact changesTo_refl
  · have hkept : ∀ u : UserRecord, (u.setPassword password hashed).2.username = u.username ∧
        (u.setPassword password hashed).2.role = u.role ∧
        (u.setPassword password hashed).2.disabled = u.disabled := by
      intro u
      unfold UserRecord.setPassword
      split
      · exact ⟨rfl, rfl, rfl⟩
      · exact ⟨rfl, rfl, rfl⟩
    refine @RosterChange.change _ _ username _ (fun u => (hkept u).1) (Or.inl ?_)
    rintro u ⟨hrole, henabled⟩
    exact ⟨(hkept u).2.1.trans hrole, (hkept u).2.2.trans henabled⟩

theorem changesTo_of_users {α : Type} {r : Except String α × CertAuthority}
    (h : r.2.log.users = ua.log.users) : ua.ChangesTo (ua.onAuthority r).2 := by
  unfold ChangesTo onAuthority
  rw [h]
  exact changesTo_refl

theorem changesTo_of_change {α : Type} {r : Except String α × CertAuthority} {username : String}
    {f : UserRecord → UserRecord} (hname : ∀ u, (f u).username = u.username)
    (hadmin : (∀ u : UserRecord, u.EnabledAdmin → (f u).EnabledAdmin) ∨
      Spared ua.log.users username)
    (h : r.2.log.users = changeUser username f ua.log.users) :
    ua.ChangesTo (ua.onAuthority r).2 := by
  unfold ChangesTo onAuthority
  rw [h]
  exact .change hname hadmin

theorem setUserRole_changesTo (commits : Commits) (username : String) (role : UserRole) :
    ua.ChangesTo (ua.onAuthority
      (ua.toCertAuthority.setUserRole k commits username role)).2 := by
  rcases ua.toCertAuthority.setUserRole_users (k := k) commits username role
    with h | ⟨hspared, h⟩
  · exact changesTo_of_users h
  · refine changesTo_of_change ?_ ?_ h
    · intro u
      rfl
    cases role with
    | admin => exact Or.inl fun u hu => ⟨rfl, hu.2⟩
    | viewer => exact Or.inr (hspared rfl)

theorem setUserEnabled_changesTo (commits : Commits) (username : String) (enabled : Bool) :
    ua.ChangesTo (ua.onAuthority
      (ua.toCertAuthority.setUserEnabled k commits username enabled)).2 := by
  rcases ua.toCertAuthority.setUserEnabled_users (k := k) commits username
    enabled with h | ⟨hspared, h⟩
  · exact changesTo_of_users h
  · refine changesTo_of_change ?_ ?_ h
    · intro u
      unfold UserRecord.setEnabled
      split
      · rfl
      · split
        · rfl
        · rfl
    · cases enabled with
      | false => exact Or.inr (hspared rfl)
      | true =>
        left
        intro u hu
        unfold UserRecord.setEnabled
        split
        · exact hu
        · exact ⟨hu.1, rfl⟩

theorem authenticateUser_changesTo (commits : Commits) (username password totpCode : String)
    (ed x : Bytes) : ua.ChangesTo (ua.onAuthority
      (ua.toCertAuthority.authenticateUser k cr commits username password totpCode ed x)).2 := by
  rcases ua.toCertAuthority.authenticateUser_users (k := k) cr commits username password totpCode ed x with h | h
  · exact changesTo_of_users h
  · have hkept : ∀ u : UserRecord,
        (u.authenticate cr password totpCode ua.nowUnix).2.username = u.username ∧
        (u.authenticate cr password totpCode ua.nowUnix).2.role = u.role ∧
        (u.authenticate cr password totpCode ua.nowUnix).2.disabled = u.disabled := by
      intro u
      rcases @UserRecord.authenticate_cases cr u password totpCode ua.nowUnix with
        ⟨_, hout⟩ | ⟨_, ⟨s, _, hout⟩ | ⟨_, hout⟩⟩
      all_goals
        rw [hout]
        exact ⟨rfl, rfl, rfl⟩
    refine changesTo_of_change (fun u => (hkept u).1) (Or.inl ?_) h
    rintro u ⟨hrole, henabled⟩
    exact ⟨(hkept u).2.1.trans hrole, (hkept u).2.2.trans henabled⟩

theorem removeUser_changesTo (commits : Commits) (username : String) :
    ua.ChangesTo (ua.onAuthority (ua.toCertAuthority.removeUser k commits username)).2 := by
  rcases ua.toCertAuthority.removeUser_users (k := k) commits username with
    h | ⟨hspared, h⟩
  · exact changesTo_of_users h
  · unfold ChangesTo onAuthority
    rw [h]
    exact .remove hspared

theorem perform_changesTo (commits : Commits) (op : UserOp) :
    ua.ChangesTo (ua.perform k cr clock commits op).2 := by
  cases op with
  | createUser username password admin ttl noTotp account hashed secret =>
    exact createUser_changesTo commits username password admin ttl noTotp account hashed secret
  | setUserRole username role => exact setUserRole_changesTo commits username role
  | setUserEnabled username enabled => exact setUserEnabled_changesTo commits username enabled
  | setUserPassword username password hashed =>
    exact setUserPassword_changesTo commits username password hashed
  | removeUser username => exact removeUser_changesTo commits username
  | revokeUserSessions username =>
    exact changesTo_of_users (ua.toCertAuthority.revokeUserSessions_users commits username)
  | authenticateUser username password totpCode ed x =>
    exact authenticateUser_changesTo commits username password totpCode ed x
  | createUserInvite username role sessionTtl inviteTtl token secret =>
    exact createUserInvite_changesTo commits username role sessionTtl inviteTtl token secret
  | beginUserRegistration token handle => exact beginUserRegistration_changesTo commits token handle
  | completeUserRegistration handle password totpCode account hashed =>
    exact completeUserRegistration_changesTo commits handle password totpCode account hashed
  | revokeUserInvite username => exact revokeUserInvite_changesTo commits username
  | restart cfg => exact changesTo_of_users (ua.toCertAuthority.restart_users cfg)

theorem step_changesTo (req : UserRequest) : ua.ChangesTo (ua.step k cr req) :=
  @perform_changesTo k cr (ua.setNowUnix req.clock.now) req.clock req.commits req.op

theorem wellNamed_after (h : WellNamed ua.log.users ua.invites) (reqs : List UserRequest) :
    WellNamed (ua.after k cr reqs).log.users (ua.after k cr reqs).invites := by
  induction reqs using List.reverseRecOn with
  | nil => exact h
  | append_singleton reqs req ih =>
    rw [after, Run.run_append_singleton]
    exact ih.step (step_changesTo req)

theorem hasAdmin_after (h : HasAdmin ua.log.users) (reqs : List UserRequest) :
    HasAdmin (ua.after k cr reqs).log.users := by
  induction reqs using List.reverseRecOn with
  | nil => exact h
  | append_singleton reqs req ih =>
    rw [after, Run.run_append_singleton]
    exact ih.step (step_changesTo req)

end Roster

/-- From an empty store, whatever is asked and whatever the clock and the store do: no name
is taken twice, the invitations on file fit, and an administrator who could sign in at some
point is followed by one at every later point. -/
theorem accounts_administrable (k : Crypto) (cr : Credentials) (start : UserAuthority)
    (husers : start.log.users = []) (hinvites : start.invites = []) (reqs : List UserRequest) :
    WellNamed (start.after k cr reqs).log.users (start.after k cr reqs).invites ∧
      ∀ before later, reqs = before ++ later → HasAdmin (start.after k cr before).log.users →
        HasAdmin (start.after k cr reqs).log.users := by
  refine ⟨?_, ?_⟩
  · apply wellNamed_after
    rw [husers, hinvites]
    exact ⟨.nil, .nil, fun u hu => absurd hu List.not_mem_nil, Nat.zero_le _⟩
  · rintro before later rfl hadmin
    have hlater : start.after k cr (before ++ later) = (start.after k cr before).after k cr later :=
      Run.run_append later
    rw [hlater]
    exact hasAdmin_after hadmin later

end UserAuthority

namespace SmallMesh

/-! ### Accounts of the small mesh -/

def token : String := "AAAQEAYEAUDAOCAJBIFQYDIOB4IBCEQTCQKRMFYYDENBWHA5DYPQ"
def handle : String := "EAQSEIZEEUTCOKBJFIVSYLJOF4YDCMRTGQ2TMNZYHE5DWPB5HY7Q"

/-- The handle a second start of the token draws. -/
def handleAgain : String := "AAAA"

/-- What `blake2` makes of the token and of the handles, under their labels. -/
def inviteDigests : List (Bytes × Octets 32) :=
  [(utf8 ("wayfinder-invite-v1" ++ token),
      .be 32 0x1395fdad5a6b985f2dc52d9bce84a89009865f4c7a67dcf85155c469ddea6713),
    (utf8 ("wayfinder-registration-handle-v1" ++ handle),
      .be 32 0xf52e04c464825186253fd49554d8c8d1a91c232a991fdeb952b18c92bba0d537),
    (utf8 ("wayfinder-registration-handle-v1" ++ handleAgain),
      .be 32 0x389ddbb7a9b6f3782851aad0dffa9e45db2baf86b35571d9548c09061da87bf5)]

def inviteCrypto : Crypto :=
  { rootCrypto with
    blake2s256 := fun msg => ((inviteDigests.find? fun d => d.1 = msg).map Prod.snd).getD
      (rootCrypto.blake2s256 msg) }

def registrar : UserAuthority := { started provider with invites := [] }

/-- A request during which the clock stands still. -/
def userRequest (secs : Nat) (op : UserAuthority.UserOp) : UserAuthority.UserRequest :=
  ⟨⟨epoch + secs, epoch + secs, epoch + secs, epoch + secs, epoch + secs⟩, ⟨true, true⟩, op⟩

def createRoot : UserAuthority.UserRequest :=
  userRequest 0 (.createUser "root" "password" true 0 true ⟨List.replicate 16 1, rfl⟩
    (.ok registered.passwordHash) totpSecret)

def inviteAlice : UserAuthority.UserRequest :=
  userRequest 0 (.createUserInvite "alice" .viewer 0 0 token totpSecret)

/-- Every way to be rid of the only administrator. -/
def strand : List UserAuthority.UserRequest :=
  [userRequest 1 (.setUserRole "root" .viewer), userRequest 2 (.setUserEnabled "root" false),
    userRequest 3 (.removeUser "root")]

theorem accounts_administrable_root :
    WellNamed
        (registrar.after inviteCrypto authenticator ([createRoot, inviteAlice] ++ strand)).log.users
        (registrar.after inviteCrypto authenticator ([createRoot, inviteAlice] ++ strand)).invites ∧
      HasAdmin (registrar.after inviteCrypto authenticator
        ([createRoot, inviteAlice] ++ strand)).log.users := by
  obtain ⟨hnamed, hadmin⟩ := UserAuthority.accounts_administrable inviteCrypto authenticator
    registrar rfl rfl ([createRoot, inviteAlice] ++ strand)
  refine ⟨hnamed, hadmin [createRoot, inviteAlice] strand rfl ?_⟩
  exact ⟨⟨⟨List.replicate 16 1, rfl⟩, "root", registered.passwordHash, none, 0, 0, 0, .admin,
    28800, false⟩, by decide +kernel, rfl, rfl⟩

end SmallMesh

end Wayfinder
