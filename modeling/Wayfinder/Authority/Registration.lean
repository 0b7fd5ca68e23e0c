import Wayfinder.Authority.Roster

/-!
# An invitation is spent once

The history of a run tells what became of its invitations: minted, started, registered. What
each call may add to it is said once, with what it does to the invitations on file. Then every
start goes back to a mint whose token was not started before, every account to a start whose
handle made none, and an invitation is never on file beside the account it became. A call reads
the clock anew at each question, so whether a start or a registration is in time also hangs on
what the clock does meanwhile.
-/

namespace Wayfinder

set_option autoImplicit false

open Table Fallible

namespace UserAuthority

/-! ### Histories -/

structure Grant where
  token : String
  username : String
  role : UserRole
  sessionTtlSecs : Nat
  totpSecret : Bytes
  expiresAt : Nat
  deriving DecidableEq

/-- A second factor revealed, and the token it was revealed to; the time is the last the call
read. -/
structure Begun where
  time : Nat
  token : String
  started : StartedRegistration
  deriving DecidableEq

structure Registered where
  time : Nat
  handle : String
  totpCode : String
  user : UserRecord
  deriving DecidableEq

inductive Event where
  | minted (g : Grant)
  | begun (b : Begun)
  | registered (r : Registered)
  deriving DecidableEq

def Event.grant? : Event → Option Grant
  | .minted g => some g
  | _ => none

def Event.begun? : Event → Option Begun
  | .begun b => some b
  | _ => none

def Event.registered? : Event → Option Registered
  | .registered r => some r
  | _ => none

def grants (events : List Event) : List Grant := events.filterMap Event.grant?
def begins (events : List Event) : List Begun := events.filterMap Event.begun?
def registrations (events : List Event) : List Registered := events.filterMap Event.registered?

/-- What a request did for an invitation. A registration is told by the account that was not
there before, whatever the call answered. -/
def event (k : Crypto) (cr : Credentials) (ua : UserAuthority) (req : UserRequest) :
    Option Event :=
  match req.op, (ua.serve k cr req).1 with
  | .createUserInvite _ role sessionTtlSecs _ _ totpSecret, .minted (.ok m) =>
    let ttl := if sessionTtlSecs = 0 then defaultSessionTtlSecs else sessionTtlSecs
    some (.minted ⟨m.token, m.username, role, ttl, totpSecret, m.expiresAt⟩)
  | .beginUserRegistration token _, .started (.ok s) => some (.begun ⟨req.clock.now, token, s⟩)
  | .completeUserRegistration handle _ totpCode _ _, _ =>
    ((ua.step k cr req).log.users.drop ua.log.users.length).head?.map fun user =>
      .registered ⟨req.clock.now, handle, totpCode, user⟩
  | _, _ => none

def eventsOf (k : Crypto) (cr : Credentials) (ua : UserAuthority) (reqs : List UserRequest) :
    List Event :=
  Run.trace (step k cr) (event k cr) ua reqs

/-- What a request draws at random, and what its caller presents. -/
def UserOp.drawnToken : UserOp → Option String
  | .createUserInvite _ _ _ _ token _ => some token
  | _ => none

def UserOp.drawnHandle : UserOp → Option String
  | .beginUserRegistration _ handle => some handle
  | _ => none

def UserOp.presentedToken : UserOp → Option String
  | .beginUserRegistration token _ => some token
  | _ => none

def UserOp.presentedHandle : UserOp → Option String
  | .completeUserRegistration handle _ _ _ _ => some handle
  | _ => none

def texts (f : UserOp → Option String) (reqs : List UserRequest) : List String :=
  reqs.filterMap fun req => f req.op

/-- Nothing is drawn twice in a run, and no text of the run has the hash of another that was
drawn. -/
structure Fresh (k : Crypto) (reqs : List UserRequest) : Prop where
  tokens : (texts UserOp.drawnToken reqs).Nodup
  handles : (texts UserOp.drawnHandle reqs).Nodup
  tokenHash : ∀ token ∈ texts UserOp.drawnToken reqs,
    ∀ token' ∈ texts UserOp.drawnToken reqs ++ texts UserOp.presentedToken reqs,
      inviteTokenHash k token = inviteTokenHash k token' → token = token'
  handleHash : ∀ handle ∈ texts UserOp.drawnHandle reqs,
    ∀ handle' ∈ texts UserOp.drawnHandle reqs ++ texts UserOp.presentedHandle reqs,
      registrationHandleHash k handle = registrationHandleHash k handle' → handle = handle'

theorem unambiguous_of_one {hash : String → Octets 32} {drawn presented : List String}
    (text : String) (hdrawn : drawn = [text]) (hpresented : ∀ t ∈ presented, t = text) :
    ∀ t ∈ drawn, ∀ t' ∈ drawn ++ presented, hash t = hash t' → t = t' := by
  subst hdrawn
  intro t ht t' ht' _
  obtain rfl := List.mem_singleton.mp ht
  rcases List.mem_append.mp ht' with hmem | hmem
  · exact (List.mem_singleton.mp hmem).symm
  · exact (hpresented t' hmem).symm

/-- A run that draws one token and one handle, and presents no others. -/
theorem fresh_of_one {k : Crypto} {reqs : List UserRequest} (token handle : String)
    (htokens : texts UserOp.drawnToken reqs = [token])
    (hhandles : texts UserOp.drawnHandle reqs = [handle])
    (htoken : ∀ t ∈ texts UserOp.presentedToken reqs, t = token)
    (hhandle : ∀ h ∈ texts UserOp.presentedHandle reqs, h = handle) : Fresh k reqs where
  tokens := by
    rw [htokens]
    exact List.nodup_singleton token
  handles := by
    rw [hhandles]
    exact List.nodup_singleton handle
  tokenHash := unambiguous_of_one token htokens htoken
  handleHash := unambiguous_of_one handle hhandles hhandle

/-- What justifies an event, given all that happened before it. -/
def Justified (cr : Credentials) (before : List Event) : Event → Prop
  | .minted g => ∀ g' ∈ grants before, g'.token ≠ g.token
  | .begun b =>
    (∃ g ∈ grants before, g.token = b.token ∧ b.started.username = g.username ∧
      b.started.totpEnrolmentUri = totpEnrolmentUri totpIssuer g.username g.totpSecret) ∧
    ∀ b' ∈ begins before, b'.token ≠ b.token
  | .registered r => ∃ g ∈ grants before, ∃ b ∈ begins before,
    b.token = g.token ∧ b.started.handle = r.handle ∧ r.time < b.started.handleExpiresAt ∧
    cr.verifyTotp g.totpSecret r.totpCode r.time 0 = some r.user.totpLastStep ∧
    r.user.totpSecret = some g.totpSecret ∧ r.user.username = g.username ∧
    r.user.role = g.role ∧ r.user.sessionTtlSecs ≤ g.sessionTtlSecs ∧
    ∀ r' ∈ registrations before, ∀ b' ∈ begins before, b'.started.handle = r'.handle →
      b'.token ≠ g.token

/-- There is a clock still, and it is not past the invitation of a start, or the handle of a
registration. -/
def InTime (before : List Event) : Event → Prop
  | .minted _ => True
  | .begun b => b.time ≠ 0 ∧ ∀ g ∈ grants before, g.token = b.token → b.time < g.expiresAt
  | .registered r => r.time ≠ 0 ∧ ∀ b ∈ begins before, b.started.handle = r.handle →
      r.time < b.started.handleExpiresAt

/-- What the clock does between the sweep of a call and what the call goes on with: it has not
reached the expiry of the pending invitation a start finds, and is not lost before a start or
before a completion with a right code. -/
def Timely (k : Crypto) (cr : Credentials) (ua : UserAuthority) (req : UserRequest) : Prop :=
  match req.op with
  | .beginUserRegistration token _ => req.clock.guard ≠ 0 →
      ∀ i ∈ (ua.swept req.clock).invites, i.tokenMatches (inviteTokenHash k token) = true →
        i.status = .pending → req.clock.now ≠ 0 ∧ req.clock.now < i.expiresAt
  | .completeUserRegistration handle _ totpCode _ _ => req.clock.guard ≠ 0 →
      ∀ i ∈ (ua.swept req.clock).invites,
        i.handleMatches (registrationHandleHash k handle) req.clock.now = true →
        (cr.verifyTotp i.totpSecret totpCode req.clock.now 0).isSome → req.clock.now ≠ 0
  | _ => True

instance decidableTimely (k : Crypto) (cr : Credentials) (ua : UserAuthority) :
    (req : UserRequest) → Decidable (Timely k cr ua req)
  | ⟨_, _, .beginUserRegistration ..⟩ =>
    inferInstanceAs (Decidable (_ → ∀ i ∈ _, _ → _ → _ ∧ _))
  | ⟨_, _, .completeUserRegistration ..⟩ => inferInstanceAs (Decidable (_ → ∀ i ∈ _, _ → _ → _))
  | ⟨_, _, .createUser ..⟩ | ⟨_, _, .setUserRole ..⟩ | ⟨_, _, .setUserEnabled ..⟩
  | ⟨_, _, .setUserPassword ..⟩ | ⟨_, _, .removeUser _⟩ | ⟨_, _, .revokeUserSessions _⟩
  | ⟨_, _, .authenticateUser ..⟩ | ⟨_, _, .createUserInvite ..⟩ | ⟨_, _, .revokeUserInvite _⟩
  | ⟨_, _, .restart _⟩ => .isTrue trivial

/-! ### What a call does for an invitation -/

/-- The event of a request, and the invitations on file after it. -/
inductive Progress (k : Crypto) (cr : Credentials) (invites : List UserInvite)
    (req : UserRequest) (timely : Prop) : Option Event → List UserInvite → Prop where
  | other {invites' : List UserInvite} (hsub : invites'.Sublist invites) :
      Progress k cr invites req timely none invites'
  | minted {kept : List UserInvite} {username token : String} {role : UserRole}
      {sessionTtlSecs inviteTtlSecs ttl expiresAt : Nat} {totpSecret : Bytes}
      (hop : req.op =
        .createUserInvite username role sessionTtlSecs inviteTtlSecs token totpSecret)
      (hsub : kept.Sublist invites) :
      Progress k cr invites req timely
        (some (.minted ⟨token, username, role, ttl, totpSecret, expiresAt⟩))
        (kept ++ [UserInvite.new username role ttl (inviteTokenHash k token) totpSecret
          req.clock.stamp expiresAt])
  | begun {kept : List UserInvite} {token handle : String} {i : UserInvite}
      {handleExpiresAt : Nat} (hop : req.op = .beginUserRegistration token handle)
      (hsub : kept.Sublist invites)
      (hfind : (kept.find? fun i => i.tokenMatches (inviteTokenHash k token)) = some i)
      (hpending : i.status = .pending)
      (hlive : timely → req.clock.now ≠ 0 ∧ req.clock.now < i.expiresAt) :
      Progress k cr invites req timely
        (some (.begun ⟨req.clock.now, token, i.username,
          totpEnrolmentUri totpIssuer i.username i.totpSecret, handle, handleExpiresAt⟩))
        (kept.lookmap (startInvite (inviteTokenHash k token) (registrationHandleHash k handle)
          req.clock.now handleExpiresAt))
  | registered {kept : List UserInvite} {handle password totpCode : String} {id : AccountId}
      {hashed : Except String String} {i : UserInvite} {user : UserRecord}
      {startedAt handleExpiresAt : Nat}
      (hop : req.op = .completeUserRegistration handle password totpCode id hashed)
      (hsub : kept.Sublist invites) (hi : i ∈ kept)
      (hstatus : i.status =
        .started (registrationHandleHash k handle) startedAt handleExpiresAt)
      (hlive : req.clock.now < handleExpiresAt) (hclock : timely → req.clock.now ≠ 0)
      (hcode : cr.verifyTotp i.totpSecret totpCode req.clock.now 0 = some user.totpLastStep)
      (hsecret : user.totpSecret = some i.totpSecret) (hname : user.username = i.username)
      (hrole : user.role = i.role) (httl : user.sessionTtlSecs ≤ i.sessionTtlSecs) :
      Progress k cr invites req timely (some (.registered ⟨req.clock.now, handle, totpCode, user⟩))
        (kept.filter fun i => i.username ≠ user.username)

theorem eq_some_of_elim_ok {α ε : Type} {x : Option α} {e : ε} {a : α}
    (h : x.elim (.error e) Except.ok = .ok a) : x = some a := by
  cases x with
  | none => cases h
  | some b => rw [Except.ok.inj h]

section Steps
variable {k : Crypto} {cr : Credentials} {ua : UserAuthority} {clock : Readings}

theorem cut_le (sessionTtlSecs : Nat) (allowUnbounded : Bool) :
    (if (checkSessionTtl sessionTtlSecs allowUnbounded).isOk then sessionTtlSecs
      else maxSessionTtlSecs) ≤ sessionTtlSecs := by
  unfold checkSessionTtl
  cases hfits : (allowUnbounded || decide (sessionTtlSecs ≤ maxSessionTtlSecs)) with
  | true => exact Nat.le_refl _
  | false =>
    rw [Bool.or_eq_false_iff] at hfits
    have hlong := of_decide_eq_false hfits.2
    exact Nat.le_of_lt (Nat.lt_of_not_le hlong)

theorem registrant_ok {nowUnix : Nat} {handle password totpCode : String} {id : AccountId}
    {hashed : Except String String} {user : UserRecord}
    (h : ua.registrant k cr nowUnix handle password totpCode id hashed = .ok user) :
    ∃ i ∈ ua.invites, ∃ startedAt handleExpiresAt,
      i.status = .started (registrationHandleHash k handle) startedAt handleExpiresAt ∧
      nowUnix < handleExpiresAt ∧
      cr.verifyTotp i.totpSecret totpCode nowUnix 0 = some user.totpLastStep ∧
      user.totpSecret = some i.totpSecret ∧ user.username = i.username ∧ user.role = i.role ∧
      user.sessionTtlSecs ≤ i.sessionTtlSecs := by
  obtain ⟨i, hfound, h⟩ := exists_of_bind_ok h
  obtain ⟨step, hstep, h⟩ := exists_of_bind_ok h
  obtain ⟨_, _, h⟩ := exists_of_bind_ok h
  obtain ⟨_, _, h⟩ := exists_of_bind_ok h
  obtain ⟨_, _, h⟩ := exists_of_bind_ok h
  obtain rfl := Except.ok.inj h
  have hfound := eq_some_of_elim_ok hfound
  have hstep := eq_some_of_elim_ok hstep
  have hmatches := List.find?_some hfound
  unfold UserInvite.handleMatches at hmatches
  split at hmatches
  · cases hmatches
  · rename_i handleHash startedAt handleExpiresAt hstatus
    rw [Bool.and_eq_true, decide_eq_true_eq, decide_eq_true_eq] at hmatches
    obtain ⟨hlive, rfl⟩ := hmatches
    exact ⟨i, List.mem_of_find?_eq_some hfound, startedAt, handleExpiresAt, hstatus, hlive, hstep,
      rfl, rfl, rfl, cut_le _ _⟩

theorem handleMatches_of_status {i : UserInvite} {hash : Octets 32}
    {nowUnix startedAt handleExpiresAt : Nat}
    (hstatus : i.status = .started hash startedAt handleExpiresAt)
    (hlive : nowUnix < handleExpiresAt) : i.handleMatches hash nowUnix = true := by
  simp [UserInvite.handleMatches, hstatus, hlive]

theorem Progress.none {req : UserRequest} {invites' : List UserInvite}
    {timely : Prop} (h : ua.event k cr req = none) (hsub : invites'.Sublist ua.invites) :
    Progress k cr ua.invites req timely (ua.event k cr req) invites' := by
  rw [h]
  exact .other hsub

theorem Refused.sublist {α : Type} {r : Except String α × UserAuthority} (h : ua.Refused clock r) :
    r.2.invites.Sublist ua.invites := by
  obtain ⟨e, ua', rfl, rfl | rfl⟩ := h
  · exact List.Sublist.refl _
  · exact swept_sublist

theorem Refused.users {α : Type} {r : Except String α × UserAuthority} (h : ua.Refused clock r) :
    r.2.log.users = ua.log.users := by
  obtain ⟨e, ua', rfl, rfl | rfl⟩ := h
  · rfl
  · rfl

theorem progress_createUserInvite {commits : Commits} {username : String}
    {role : UserRole} {sessionTtlSecs inviteTtlSecs : Nat} {token : String} {totpSecret : Bytes} :
    let req : UserRequest := ⟨clock, commits,
      .createUserInvite username role sessionTtlSecs inviteTtlSecs token totpSecret⟩
    Progress k cr ua.invites req (Timely k cr ua req) (ua.event k cr req)
      (ua.step k cr req).invites := by
  intro req
  rcases (ua.setNowUnix clock.now).createUserInvite_cases (k := k) commits username role sessionTtlSecs
    inviteTtlSecs token totpSecret with h | ⟨ttl, expiresAt, hcheck, h⟩
  · obtain ⟨e, ua', hr, _⟩ := id h
    refine .none ?_ h.sublist
    have hreply : (ua.serve k cr req).1 = .minted (.error e) := by
      rw [serve, perform, hr]
      rfl
    rw [event, hreply]
  · obtain ⟨_, _, rfl⟩ := checkInvite_ok hcheck
    have hreply : (ua.serve k cr req).1 = .minted (.ok ⟨username, token, expiresAt⟩) := by
      rw [serve, perform, h]
      rfl
    have hstep := congrArg (fun r => r.2.invites) h
    rw [event, hreply, show (ua.step k cr req).invites = _ from hstep]
    exact .minted rfl swept_sublist

theorem progress_beginUserRegistration {commits : Commits} {token handle : String} :
    let req : UserRequest := ⟨clock, commits, .beginUserRegistration token handle⟩
    Progress k cr ua.invites req (Timely k cr ua req) (ua.event k cr req)
      (ua.step k cr req).invites := by
  intro req
  rcases (ua.setNowUnix clock.now).beginUserRegistration_cases (k := k) commits token handle with
    h | ⟨i, hclock, hfind, hpending, h⟩
  · obtain ⟨e, ua', hr, _⟩ := id h
    refine .none ?_ h.sublist
    have hreply : (ua.serve k cr req).1 = .started (.error e) := by
      rw [serve, perform, hr]
      rfl
    rw [event, hreply]
  · have hmatches := List.find?_some hfind
    have hlive : Timely k cr ua req → clock.now ≠ 0 ∧ clock.now < i.expiresAt := fun htimely =>
      htimely hclock i (List.mem_of_find?_eq_some hfind) hmatches hpending
    have hreply : (ua.serve k cr req).1 = .started (.ok ⟨i.username,
        totpEnrolmentUri totpIssuer i.username i.totpSecret, handle,
        saturatingAdd64 clock.now registrationHandleTtlSecs⟩) := by
      rw [serve, perform, h]
      rfl
    have hstep := congrArg (fun r => r.2.invites) h
    rw [event, hreply, show (ua.step k cr req).invites = _ from hstep]
    exact .begun rfl swept_sublist hfind hpending hlive

theorem progress_completeUserRegistration {commits : Commits}
    {handle password totpCode : String} {id : AccountId} {hashed : Except String String} :
    let req : UserRequest := ⟨clock, commits,
      .completeUserRegistration handle password totpCode id hashed⟩
    Progress k cr ua.invites req (Timely k cr ua req) (ua.event k cr req)
      (ua.step k cr req).invites := by
  intro req
  have hstep : ua.step k cr req = ((ua.setNowUnix clock.now).completeUserRegistration k cr clock
      commits handle password totpCode id hashed).2 := rfl
  have hevent : ua.event k cr req =
      ((ua.step k cr req).log.users.drop ua.log.users.length).head?.map fun user =>
        .registered ⟨clock.now, handle, totpCode, user⟩ := rfl
  rcases (ua.setNowUnix clock.now).completeUserRegistration_cases (k := k) cr commits handle
    password totpCode id hashed with h | ⟨user, hclock, huser, _, h⟩
  · refine .none ?_ h.sublist
    have husers : (ua.step k cr req).log.users = ua.log.users := h.users
    rw [hevent, husers, List.drop_length]
    rfl
  · have husers : (ua.step k cr req).log.users = ua.log.users ++ [user] := by
      rw [hstep, h]
      rfl
    obtain ⟨i, hi, startedAt, handleExpiresAt, hstatus, hlive, hcode, hsecret, hname, hrole,
      httl⟩ := registrant_ok huser
    have hnow : Timely k cr ua req → clock.now ≠ 0 := fun htimely =>
      htimely hclock i hi (handleMatches_of_status hstatus hlive) (by rw [hcode]; rfl)
    rw [hevent, husers, List.drop_left, hstep, h]
    exact .registered rfl swept_sublist hi hstatus hlive hnow hcode hsecret hname hrole httl

theorem step_progress (req : UserRequest) :
    Progress k cr ua.invites req (Timely k cr ua req) (ua.event k cr req)
      (ua.step k cr req).invites := by
  obtain ⟨clock, commits, op⟩ := req
  cases op with
  | createUserInvite => exact progress_createUserInvite
  | beginUserRegistration => exact progress_beginUserRegistration
  | completeUserRegistration => exact progress_completeUserRegistration
  | createUser username password admin ttl noTotp account hashed secret =>
    refine .none rfl ?_
    rcases (ua.setNowUnix clock.now).createUser_cases commits username password admin ttl noTotp account
      hashed secret with h | ⟨user, _, h⟩
    · exact h.sublist
    · have hinvites := congrArg UserAuthority.invites h
      exact hinvites ▸ swept_sublist
  | revokeUserInvite username =>
    refine .none rfl ?_
    rcases (ua.setNowUnix clock.now).revokeUserInvite_cases commits username with h | h
    · exact (congrArg UserAuthority.invites h) ▸ List.Sublist.refl _
    · exact (congrArg UserAuthority.invites h) ▸ List.filter_sublist
  | setUserPassword username password hashed =>
    refine .none rfl ?_
    rcases (ua.setNowUnix clock.now).setUserPassword_cases commits username password hashed with h | h
    · exact (congrArg UserAuthority.invites h) ▸ List.Sublist.refl _
    · exact (congrArg UserAuthority.invites h) ▸ List.Sublist.refl _
  | setUserRole => exact .none rfl (List.Sublist.refl _)
  | setUserEnabled => exact .none rfl (List.Sublist.refl _)
  | removeUser => exact .none rfl (List.Sublist.refl _)
  | revokeUserSessions => exact .none rfl (List.Sublist.refl _)
  | authenticateUser => exact .none rfl (List.Sublist.refl _)
  | restart => exact .none rfl (List.Sublist.refl _)

end Steps

/-! ### The file and the history -/

section Lists

theorem filterMap_append_singleton {α β : Type} (f : α → Option β) (l : List α) (x : α) :
    (l ++ [x]).filterMap f = l.filterMap f ++ (f x).toList := by
  rw [List.filterMap_append]
  cases h : f x <;> simp [h]

theorem texts_append_singleton (f : UserOp → Option String) (reqs : List UserRequest)
    (req : UserRequest) : texts f (reqs ++ [req]) = texts f reqs ++ (f req.op).toList :=
  filterMap_append_singleton _ _ _

theorem texts_sublist (f : UserOp → Option String) (reqs : List UserRequest)
    (req : UserRequest) : (texts f reqs).Sublist (texts f (reqs ++ [req])) := by
  rw [texts_append_singleton]
  exact List.sublist_append_left _ _

end Lists

/-- The invitation is as it was minted, its status apart. -/
structure Describes (k : Crypto) (i : UserInvite) (g : Grant) : Prop where
  username : i.username = g.username
  role : i.role = g.role
  sessionTtlSecs : i.sessionTtlSecs = g.sessionTtlSecs
  tokenHash : i.tokenHash = inviteTokenHash k g.token
  totpSecret : i.totpSecret = g.totpSecret
  expiresAt : i.expiresAt = g.expiresAt

/-- What the status of a token's invitation says of the starts and the registrations so far:
not started, or started and not registered. -/
def Stands (k : Crypto) (bs : List Begun) (rs : List Registered) (token : String) :
    InviteStatus → Prop
  | .pending => ∀ b ∈ bs, b.token ≠ token
  | .started handleHash _ handleExpiresAt => ∃ b ∈ bs, b.token = token ∧
      handleHash = registrationHandleHash k b.started.handle ∧
      handleExpiresAt = b.started.handleExpiresAt ∧ ∀ r ∈ rs, r.handle ≠ b.started.handle

/-- What the invitations on file and the requests so far have to do with what was minted,
started and registered. -/
structure Ledger (k : Crypto) (invites : List UserInvite) (reqs : List UserRequest)
    (gs : List Grant) (bs : List Begun) (rs : List Registered) : Prop where
  onFile : ∀ i ∈ invites, ∃ g ∈ gs, Describes k i g ∧ Stands k bs rs g.token i.status
  hashes : (invites.map UserInvite.tokenHash).Nodup
  minted : (gs.map Grant.token).Sublist (texts UserOp.drawnToken reqs)
  handles : (bs.map fun b => b.started.handle).Sublist (texts UserOp.drawnHandle reqs)
  granted : ∀ b ∈ bs, ∃ g ∈ gs, g.token = b.token
  begunOnce : (bs.map Begun.token).Nodup
  begun : ∀ r ∈ rs, ∃ b ∈ bs, b.started.handle = r.handle

section Ledgers
variable {k : Crypto} {cr : Credentials} {invites kept : List UserInvite}
  {reqs : List UserRequest} {req : UserRequest} {gs : List Grant} {bs : List Begun}
  {rs : List Registered}

theorem Fresh.before (h : Fresh k (reqs ++ [req])) : Fresh k reqs where
  tokens := h.tokens.sublist (texts_sublist _ _ _)
  handles := h.handles.sublist (texts_sublist _ _ _)
  tokenHash token htoken token' htoken' := h.tokenHash token
    ((texts_sublist _ _ _).subset htoken) token'
    (((texts_sublist _ _ _).append (texts_sublist _ _ _)).subset htoken')
  handleHash handle hhandle handle' hhandle' := h.handleHash handle
    ((texts_sublist _ _ _).subset hhandle) handle'
    (((texts_sublist _ _ _).append (texts_sublist _ _ _)).subset hhandle')

theorem notMem_texts {f : UserOp → Option String} {text : String} (hop : f req.op = some text)
    (h : (texts f (reqs ++ [req])).Nodup) : text ∉ texts f reqs := by
  rw [texts_append_singleton, hop, Option.toList_some] at h
  intro hmem
  exact (List.nodup_append.mp h).2.2 text hmem text (List.mem_singleton.mpr rfl) rfl

theorem mem_texts {f : UserOp → Option String} {text : String} (hop : f req.op = some text) :
    text ∈ texts f (reqs ++ [req]) := by
  rw [texts_append_singleton, hop]
  exact List.mem_append_right _ (List.mem_singleton.mpr rfl)

namespace Ledger

/-- A ledger survives a request that only takes invitations off the file. -/
theorem sift (h : Ledger k invites reqs gs bs rs) (hsub : kept.Sublist invites)
    (req : UserRequest) : Ledger k kept (reqs ++ [req]) gs bs rs where
  onFile i hi := h.onFile i (hsub.subset hi)
  hashes := h.hashes.sublist (hsub.map _)
  minted := h.minted.trans (texts_sublist _ _ _)
  handles := h.handles.trans (texts_sublist _ _ _)
  granted := h.granted
  begunOnce := h.begunOnce
  begun := h.begun

theorem drawn (h : Ledger k invites reqs gs bs rs) {g : Grant} (hg : g ∈ gs) :
    g.token ∈ texts UserOp.drawnToken reqs := h.minted.subset (List.mem_map_of_mem hg)

theorem drawnHandle (h : Ledger k invites reqs gs bs rs) {b : Begun} (hb : b ∈ bs) :
    b.started.handle ∈ texts UserOp.drawnHandle reqs :=
  h.handles.subset (List.mem_map_of_mem (f := fun b => b.started.handle) hb)

theorem grant_eq (h : Ledger k invites reqs gs bs rs) (hfresh : Fresh k reqs) {g g' : Grant}
    (hg : g ∈ gs) (hg' : g' ∈ gs) (htoken : g.token = g'.token) : g = g' :=
  List.inj_on_of_nodup_map (hfresh.tokens.sublist h.minted) hg hg' htoken

theorem begun_eq (h : Ledger k invites reqs gs bs rs) {b b' : Begun} (hb : b ∈ bs) (hb' : b' ∈ bs)
    (htoken : b.token = b'.token) : b = b' := List.inj_on_of_nodup_map h.begunOnce hb hb' htoken

theorem begun_eq_of_handle (h : Ledger k invites reqs gs bs rs) (hfresh : Fresh k reqs)
    {b b' : Begun} (hb : b ∈ bs) (hb' : b' ∈ bs) (hhandle : b.started.handle = b'.started.handle) :
    b = b' :=
  List.inj_on_of_nodup_map (hfresh.handles.sublist h.handles) hb hb' hhandle

/-- A token just drawn is no token of the history, and its hash is on no file. -/
theorem mint (h : Ledger k invites reqs gs bs rs) (hfresh : Fresh k (reqs ++ [req]))
    (hsub : kept.Sublist invites) (g : Grant) (createdAt : Nat)
    (hop : req.op.drawnToken = some g.token) :
    Ledger k (kept ++ [UserInvite.new g.username g.role g.sessionTtlSecs (inviteTokenHash k g.token)
      g.totpSecret createdAt g.expiresAt]) (reqs ++ [req]) (gs ++ [g]) bs rs ∧
    ∀ g' ∈ gs, g'.token ≠ g.token := by
  have hkept := h.sift hsub req
  have hnew : ∀ g' ∈ gs, g'.token ≠ g.token := by
    intro g' hg' heq
    exact notMem_texts hop hfresh.tokens (heq ▸ h.drawn hg')
  refine ⟨⟨?_, ?_, ?_, hkept.handles, ?_, hkept.begunOnce, hkept.begun⟩, hnew⟩
  · intro i hi
    rcases List.mem_append.mp hi with hi | hi
    · obtain ⟨g', hg', hdescribes, hstands⟩ := hkept.onFile i hi
      exact ⟨g', List.mem_append_left _ hg', hdescribes, hstands⟩
    · rw [List.mem_singleton.mp hi]
      refine ⟨g, List.mem_append_right _ (List.mem_singleton.mpr rfl),
        ⟨rfl, rfl, rfl, rfl, rfl, rfl⟩, ?_⟩
      intro b hb
      obtain ⟨g', hg', htoken⟩ := h.granted b hb
      exact htoken ▸ hnew g' hg'
  · rw [List.map_append, List.nodup_append]
    refine ⟨hkept.hashes, List.nodup_singleton _, ?_⟩
    intro hash hhash hash' hhash' heq
    obtain ⟨i, hi, rfl⟩ := List.mem_map.mp hhash
    obtain rfl := List.mem_singleton.mp hhash'
    obtain ⟨g', hg', hdescribes, _⟩ := hkept.onFile i hi
    apply hnew g' hg'
    apply hfresh.tokenHash _ (hkept.drawn hg') _ (List.mem_append_left _ (mem_texts hop))
    rw [← hdescribes.tokenHash, heq]
    rfl
  · rw [texts_append_singleton, hop, List.map_append]
    exact h.minted.append (List.Sublist.refl _)
  · intro b hb
    obtain ⟨g', hg', htoken⟩ := h.granted b hb
    exact ⟨g', List.mem_append_left _ hg', htoken⟩

theorem found (h : Ledger k invites reqs gs bs rs) (hfresh : Fresh k reqs) {i : UserInvite}
    (hi : i ∈ invites) {token : String} (htoken : token ∈ texts UserOp.presentedToken reqs)
    (hhash : i.tokenHash = inviteTokenHash k token) :
    ∃ g ∈ gs, g.token = token ∧ Describes k i g ∧ Stands k bs rs token i.status := by
  obtain ⟨g, hg, hdescribes, hstands⟩ := h.onFile i hi
  have heq : g.token = token := by
    apply hfresh.tokenHash _ (h.drawn hg) _ (List.mem_append_right _ htoken)
    rw [← hdescribes.tokenHash, hhash]
  exact ⟨g, hg, heq, hdescribes, heq ▸ hstands⟩

theorem start (h : Ledger k invites reqs gs bs rs) (hfresh : Fresh k (reqs ++ [req]))
    (hsub : kept.Sublist invites) {token handle : String} {i : UserInvite}
    {now handleExpiresAt : Nat} (hop : req.op = .beginUserRegistration token handle)
    (hfind : (kept.find? fun i => i.tokenMatches (inviteTokenHash k token)) = some i)
    (hpending : i.status = .pending) (uri : String) :
    let b : Begun := ⟨now, token, i.username, uri, handle, handleExpiresAt⟩
    Ledger k (kept.lookmap (startInvite (inviteTokenHash k token)
        (registrationHandleHash k handle) now handleExpiresAt)) (reqs ++ [req]) gs (bs ++ [b]) rs ∧
      (∀ b' ∈ bs, b'.token ≠ token) ∧ ∃ g ∈ gs, g.token = token ∧ Describes k i g := by
  intro b
  have hkept := h.sift hsub req
  have hi := List.mem_of_find?_eq_some hfind
  have hmatch := List.find?_some hfind
  have hhash : i.tokenHash = inviteTokenHash k token := of_decide_eq_true hmatch
  obtain ⟨g, hg, hgtoken, hdescribes, hstands⟩ := hkept.found hfresh hi
    (mem_texts (by rw [hop]; rfl)) hhash
  rw [hpending] at hstands
  have hdrawn : UserOp.drawnHandle req.op = some b.started.handle := by
    rw [hop]
    rfl
  have hnewHandle : ∀ b' ∈ bs, b'.started.handle ≠ handle := by
    intro b' hb' heq
    have hearlier := h.drawnHandle hb'
    rw [heq] at hearlier
    exact notMem_texts hdrawn hfresh.handles hearlier
  have hsome : ∀ x : UserInvite, (startInvite (inviteTokenHash k token)
      (registrationHandleHash k handle) now handleExpiresAt x).isSome →
      x.tokenHash = inviteTokenHash k token := by
    intro x hx
    unfold startInvite at hx
    split at hx
    · rename_i hmatch
      exact of_decide_eq_true hmatch
    · cases hx
  refine ⟨⟨?_, ?_, hkept.minted, ?_, ?_, ?_, ?_⟩, hstands, g, hg, hgtoken, hdescribes⟩
  · rw [lookmap_eq_map hsome hkept.hashes]
    intro i' hi'
    obtain ⟨x, hx, rfl⟩ := List.mem_map.mp hi'
    by_cases hxhash : x.tokenHash = inviteTokenHash k token
    · -- The invitation of the token is the one that was found.
      obtain rfl := List.inj_on_of_nodup_map hkept.hashes hx hi (hxhash.trans hhash.symm)
      have hmatch : x.tokenMatches (inviteTokenHash k token) = true := decide_eq_true hxhash
      rw [startInvite, if_pos hmatch, Option.getD_some]
      refine ⟨g, hg, ⟨hdescribes.username, hdescribes.role, hdescribes.sessionTtlSecs,
        hdescribes.tokenHash, hdescribes.totpSecret, hdescribes.expiresAt⟩, ?_⟩
      refine ⟨b, List.mem_append_right _ (List.mem_singleton.mpr rfl), hgtoken.symm, rfl, rfl, ?_⟩
      intro r hr heq
      obtain ⟨b', hb', hb'handle⟩ := h.begun r hr
      exact hnewHandle b' hb' (hb'handle.trans heq)
    · rw [startInvite, if_neg (by simpa [UserInvite.tokenMatches] using hxhash),
        Option.getD_none]
      obtain ⟨g', hg', hdescribes', hstands'⟩ := hkept.onFile x hx
      refine ⟨g', hg', hdescribes', ?_⟩
      have hother : g'.token ≠ token := by
        intro heq
        apply hxhash
        rw [hdescribes'.tokenHash, heq]
      cases hstatus : x.status with
      | pending =>
        rw [hstatus] at hstands'
        intro b' hb'
        rcases List.mem_append.mp hb' with hb' | hb'
        · exact hstands' b' hb'
        · rw [List.mem_singleton.mp hb']
          exact hother.symm
      | started handleHash startedAt expiresAt =>
        rw [hstatus] at hstands'
        obtain ⟨b', hb', hrest⟩ := hstands'
        exact ⟨b', List.mem_append_left _ hb', hrest⟩
  · have hsame : (kept.lookmap (startInvite (inviteTokenHash k token)
        (registrationHandleHash k handle) now handleExpiresAt)).map UserInvite.tokenHash =
        kept.map UserInvite.tokenHash := by
      apply List.lookmap_map_eq
      intro x x' hx'
      unfold startInvite at hx'
      rw [Option.mem_def] at hx'
      split at hx'
      · rw [← Option.some.inj hx']
      · cases hx'
    rw [hsame]
    exact hkept.hashes
  · rw [texts_append_singleton, hdrawn, List.map_append]
    exact h.handles.append (List.Sublist.refl _)
  · intro b' hb'
    rcases List.mem_append.mp hb' with hb' | hb'
    · exact h.granted b' hb'
    · rw [List.mem_singleton.mp hb']
      exact ⟨g, hg, hgtoken⟩
  · rw [List.map_append, List.nodup_append]
    refine ⟨h.begunOnce, List.nodup_singleton _, ?_⟩
    intro token' htoken' token'' htoken''
    obtain ⟨b', hb', rfl⟩ := List.mem_map.mp htoken'
    rw [List.mem_singleton.mp htoken'']
    exact hstands b' hb'
  · intro r hr
    obtain ⟨b', hb', hhandle⟩ := h.begun r hr
    exact ⟨b', List.mem_append_left _ hb', hhandle⟩

theorem register (h : Ledger k invites reqs gs bs rs) (hfresh : Fresh k (reqs ++ [req]))
    (hsub : kept.Sublist invites) {i : UserInvite} (hi : i ∈ kept) {r : Registered}
    {startedAt handleExpiresAt : Nat} (hop : req.op.presentedHandle = some r.handle)
    (hstatus : i.status =
      .started (registrationHandleHash k r.handle) startedAt handleExpiresAt)
    (hname : r.user.username = i.username) :
    Ledger k (kept.filter fun i => i.username ≠ r.user.username) (reqs ++ [req]) gs bs
        (rs ++ [r]) ∧
      ∃ g ∈ gs, ∃ b ∈ bs, Describes k i g ∧ b.token = g.token ∧ b.started.handle = r.handle ∧
        handleExpiresAt = b.started.handleExpiresAt ∧
        ∀ r' ∈ rs, ∀ b' ∈ bs, b'.started.handle = r'.handle → b'.token ≠ g.token := by
  have hkept := h.sift hsub req
  obtain ⟨g, hg, hdescribes, hstands⟩ := hkept.onFile i hi
  rw [hstatus] at hstands
  obtain ⟨b, hb, hbtoken, hbhash, hbexpires, hunspent⟩ := hstands
  have hbhandle : b.started.handle = r.handle :=
    hfresh.handleHash _ (hkept.drawnHandle hb) _ (List.mem_append_right _ (mem_texts hop))
      hbhash.symm
  refine ⟨⟨?_, ?_, hkept.minted, hkept.handles, hkept.granted, hkept.begunOnce, ?_⟩,
    g, hg, b, hb, hdescribes, hbtoken, hbhandle, hbexpires, ?_⟩
  · intro x hx
    obtain ⟨hx, hxname⟩ := List.mem_filter.mp hx
    obtain ⟨g', hg', hdescribes', hstands'⟩ := hkept.onFile x hx
    refine ⟨g', hg', hdescribes', ?_⟩
    cases hxstatus : x.status with
    | pending =>
      rw [hxstatus] at hstands'
      exact hstands'
    | started handleHash startedAt' expiresAt' =>
      rw [hxstatus] at hstands'
      obtain ⟨b', hb', hb'token, hb'hash, hb'expires, hb'unspent⟩ := hstands'
      refine ⟨b', hb', hb'token, hb'hash, hb'expires, ?_⟩
      intro r' hr'
      rcases List.mem_append.mp hr' with hr' | hr'
      · exact hb'unspent r' hr'
      · rw [List.mem_singleton.mp hr']
        intro heq
        -- The same handle would be the same token, and the same invitation.
        obtain rfl := hkept.begun_eq_of_handle hfresh hb hb' (hbhandle.trans heq)
        have hsame : x = i := by
          apply List.inj_on_of_nodup_map hkept.hashes hx hi
          rw [hdescribes'.tokenHash, hdescribes.tokenHash, ← hb'token, hbtoken]
        rw [hsame] at hxname
        exact of_decide_eq_true hxname hname.symm
  · exact hkept.hashes.sublist (List.filter_sublist.map _)
  · intro r' hr'
    rcases List.mem_append.mp hr' with hr' | hr'
    · exact h.begun r' hr'
    · rw [List.mem_singleton.mp hr']
      exact ⟨b, hb, hbhandle⟩
  · intro r' hr' b' hb' hhandle htoken
    obtain rfl := h.begun_eq hb' hb (htoken.trans hbtoken.symm)
    exact hunspent r' hr' hhandle.symm

end Ledger

/-- The events of a run so far, with the invitations on file. -/
def Kept (k : Crypto) (ua : UserAuthority) (reqs : List UserRequest) (events : List Event) :
    Prop :=
  Ledger k ua.invites reqs (grants events) (begins events) (registrations events)

theorem kept_step {ua : UserAuthority} {events : List Event} (h : Kept k ua reqs events)
    (hfresh : Fresh k (reqs ++ [req])) :
    Kept k (ua.step k cr req) (reqs ++ [req]) (events ++ (ua.event k cr req).toList) ∧
      ∀ e, ua.event k cr req = some e →
        Justified cr events e ∧ (Timely k cr ua req → InTime events e) := by
  have hprogress := @step_progress k cr ua req
  have hgrants : ∀ e, grants (events ++ [e]) = grants events ++ e.grant?.toList :=
    filterMap_append_singleton _ _
  have hbegins : ∀ e, begins (events ++ [e]) = begins events ++ e.begun?.toList :=
    filterMap_append_singleton _ _
  have hregistrations : ∀ e, registrations (events ++ [e]) =
      registrations events ++ e.registered?.toList := filterMap_append_singleton _ _
  unfold Kept at h ⊢
  generalize ua.event k cr req = event at hprogress
  generalize (ua.step k cr req).invites = invites' at hprogress
  cases hprogress with
  | other hsub =>
    rw [Option.toList_none, List.append_nil]
    exact ⟨h.sift hsub req, fun e he => by cases he⟩
  | @minted kept username token role sessionTtlSecs inviteTtlSecs ttl expiresAt totpSecret hop
      hsub =>
    obtain ⟨hledger, hnew⟩ := h.mint hfresh hsub
      ⟨token, username, role, ttl, totpSecret, expiresAt⟩ req.clock.stamp (by rw [hop]; rfl)
    refine ⟨?_, ?_⟩
    · simpa only [hgrants, hbegins, hregistrations, Event.grant?, Event.begun?,
        Event.registered?, Option.toList_some, Option.toList_none, List.append_nil] using hledger
    · intro e he
      obtain rfl := Option.some.inj he
      exact ⟨hnew, fun _ => trivial⟩
  | @begun kept token handle i handleExpiresAt hop hsub hfind hpending hlive =>
    obtain ⟨hledger, hnew, g, hg, hgtoken, hdescribes⟩ := h.start hfresh hsub hop hfind hpending
      (totpEnrolmentUri totpIssuer i.username i.totpSecret)
    refine ⟨?_, ?_⟩
    · simpa only [hgrants, hbegins, hregistrations, Event.grant?, Event.begun?,
        Event.registered?, Option.toList_some, Option.toList_none, List.append_nil] using hledger
    · intro e he
      obtain rfl := Option.some.inj he
      refine ⟨⟨⟨g, hg, hgtoken, hdescribes.username, ?_⟩, hnew⟩, ?_⟩
      · rw [← hdescribes.username, ← hdescribes.totpSecret]
      · intro htimely
        obtain ⟨hclock, hbefore⟩ := hlive htimely
        refine ⟨hclock, ?_⟩
        intro g' hg' hg'token
        obtain rfl := h.grant_eq hfresh.before hg hg' (hgtoken.trans hg'token.symm)
        rw [← hdescribes.expiresAt]
        exact hbefore
  | @registered kept handle password totpCode id hashed i user startedAt handleExpiresAt hop hsub
      hi hstatus hlive hclock hcode hsecret hname hrole httl =>
    obtain ⟨hledger, g, hg, b, hb, hdescribes, hbtoken, hbhandle, hbexpires, hunspent⟩ :=
      @h.register k ua.invites kept reqs req (grants events) (begins events)
        (registrations events) hfresh hsub i hi ⟨req.clock.now, handle, totpCode, user⟩ startedAt
        handleExpiresAt (by rw [hop]; rfl) hstatus hname
    refine ⟨?_, ?_⟩
    · simpa only [hgrants, hbegins, hregistrations, Event.grant?, Event.begun?,
        Event.registered?, Option.toList_some, Option.toList_none, List.append_nil] using hledger
    · intro e he
      obtain rfl := Option.some.inj he
      have hbefore : req.clock.now < b.started.handleExpiresAt := hbexpires ▸ hlive
      refine ⟨⟨g, hg, b, hb, hbtoken, hbhandle, hbefore, ?_, ?_, ?_, ?_, ?_, hunspent⟩, ?_⟩
      · rw [← hdescribes.totpSecret]
        exact hcode
      · rw [← hdescribes.totpSecret]
        exact hsecret
      · rw [← hdescribes.username]
        exact hname
      · rw [← hdescribes.role]
        exact hrole
      · rw [← hdescribes.sessionTtlSecs]
        exact httl
      · intro htimely
        refine ⟨hclock htimely, ?_⟩
        intro b' hb' hhandle
        obtain rfl := h.begun_eq_of_handle hfresh.before hb hb' (hbhandle.trans hhandle.symm)
        exact hbefore

/-- Over a run every event is justified by those before it, and in time if every step is. -/
theorem kept_after {start : UserAuthority} (hinvites : start.invites = [])
    (hfresh : Fresh k reqs) :
    Kept k (start.after k cr reqs) reqs (start.eventsOf k cr reqs) ∧
      ∀ before e later, start.eventsOf k cr reqs = before ++ e :: later →
        Justified cr before e ∧
          (Run.AllSafe (step k cr) (Timely k cr) start reqs → InTime before e) := by
  induction reqs using List.reverseRecOn with
  | nil =>
    refine ⟨?_, ?_⟩
    · unfold Kept
      rw [show (start.after k cr []).invites = [] from hinvites]
      exact ⟨fun i hi => absurd hi List.not_mem_nil, .nil, List.Sublist.refl _,
        List.Sublist.refl _, fun b hb => absurd hb List.not_mem_nil, .nil,
        fun r hr => absurd hr List.not_mem_nil⟩
    · intro before e later h
      exact absurd h.symm (by simp [eventsOf, Run.trace])
  | append_singleton reqs req ih =>
    obtain ⟨hkept, hearlier⟩ := ih hfresh.before
    obtain ⟨hkept', hlast⟩ := @kept_step k cr reqs req _ _ hkept hfresh
    have hafter : start.after k cr (reqs ++ [req]) = (start.after k cr reqs).step k cr req :=
      Run.run_append_singleton req
    have hevents : start.eventsOf k cr (reqs ++ [req]) = start.eventsOf k cr reqs ++
        ((start.after k cr reqs).event k cr req).toList := Run.trace_append_singleton req
    have hearlier : ∀ before e later, start.eventsOf k cr reqs = before ++ e :: later →
        Justified cr before e ∧
          (Run.AllSafe (step k cr) (Timely k cr) start (reqs ++ [req]) → InTime before e) := by
      intro before e later h
      obtain ⟨hjustified, hintime⟩ := hearlier before e later h
      exact ⟨hjustified, fun hsafe => hintime fun pre op hpre =>
        hsafe pre op (hpre.trans (List.prefix_append _ _))⟩
    rw [hafter, hevents]
    refine ⟨hkept', ?_⟩
    intro before e later h
    cases hevent : (start.after k cr reqs).event k cr req with
    | none =>
      rw [hevent, Option.toList_none, List.append_nil] at h
      exact hearlier before e later h
    | some e' =>
      rw [hevent, Option.toList_some] at h
      rcases List.eq_nil_or_concat later with rfl | ⟨later', e'', rfl⟩
      · obtain ⟨rfl, heq⟩ := List.append_inj' h rfl
        obtain rfl : e' = e := List.singleton_inj.mp heq
        obtain ⟨hjustified, hintime⟩ := hlast e' hevent
        exact ⟨hjustified, fun hsafe => hintime (hsafe reqs req (List.prefix_refl _))⟩
      · rw [List.concat_eq_append, ← List.cons_append, ← List.append_assoc] at h
        exact hearlier before e later' (List.append_inj' h rfl).1

end Ledgers

/-- Over any run from empty stores, whatever tokens and handles are presented, whatever the
clock and the store do: every start is the first of its token and goes back to a mint; every
account a registration makes is the first of its invitation, was made by the handle of its
start inside its window with a right code, and is what was minted; no invitation is on file
beside the account it became, or beside any of its name; and where the clock serves every call
to its end, every start is before the expiry of its mint. -/
theorem invitation_spent_once (k : Crypto) (cr : Credentials) (start : UserAuthority)
    (husers : start.log.users = []) (hinvites : start.invites = []) (reqs : List UserRequest)
    (hfresh : Fresh k reqs) :
    (∀ before e later, start.eventsOf k cr reqs = before ++ e :: later → Justified cr before e ∧
      (Run.AllSafe (step k cr) (Timely k cr) start reqs → InTime before e)) ∧
    (∀ i ∈ (start.after k cr reqs).invites,
      (∀ u ∈ (start.after k cr reqs).log.users, u.username ≠ i.username) ∧
      ∀ r ∈ registrations (start.eventsOf k cr reqs), ∀ b ∈ begins (start.eventsOf k cr reqs),
        b.started.handle = r.handle → i.tokenHash ≠ inviteTokenHash k b.token) := by
  obtain ⟨hkept, hevents⟩ := @kept_after k cr reqs start hinvites hfresh
  refine ⟨hevents, ?_⟩
  intro i hi
  refine ⟨?_, ?_⟩
  · have hnamed := @wellNamed_after k cr start
      (by rw [husers, hinvites]; exact ⟨.nil, .nil, fun u hu => absurd hu List.not_mem_nil,
        Nat.zero_le _⟩) reqs
    intro u hu
    exact hnamed.apart u hu i hi
  · intro r hr b hb hhandle hhash
    obtain ⟨g, hg, hdescribes, hstands⟩ := hkept.onFile i hi
    obtain ⟨g', hg', hg'token⟩ := hkept.granted b hb
    have htoken : g.token = b.token := by
      rw [← hg'token]
      apply hfresh.tokenHash _ (hkept.drawn hg) _ (List.mem_append_left _ (hkept.drawn hg'))
      rw [← hdescribes.tokenHash, hhash, hg'token]
    cases hstatus : i.status with
    | pending =>
      rw [hstatus] at hstands
      exact hstands b hb htoken.symm
    | started handleHash startedAt handleExpiresAt =>
      rw [hstatus] at hstands
      obtain ⟨b', hb', hb'token, _, _, hunspent⟩ := hstands
      obtain rfl := hkept.begun_eq hb' hb (hb'token.trans htoken)
      exact hunspent r hr hhandle.symm

end UserAuthority

namespace SmallMesh

/-! ### Registering on the small mesh -/

/-- Alice is invited, her token is used twice, and her handle with a wrong code, a right one
and again. -/
def registration : List UserAuthority.UserRequest :=
  [inviteAlice, userRequest 5 (.beginUserRegistration token handle),
    userRequest 6 (.beginUserRegistration token handleAgain),
    userRequest 7 (.completeUserRegistration handle "password" "000000" registered.id
      (.ok registered.passwordHash)),
    userRequest 8 (.completeUserRegistration handle "password" "768147" registered.id
      (.ok registered.passwordHash)),
    userRequest 9 (.completeUserRegistration handle "password" "050219" registered.id
      (.ok registered.passwordHash))]

theorem fresh_registration : UserAuthority.Fresh inviteCrypto registration where
  tokens := by decide
  handles := by decide
  tokenHash := UserAuthority.unambiguous_of_one token rfl (by decide)
  handleHash := by
    have hne : registrationHandleHash inviteCrypto handle ≠
        registrationHandleHash inviteCrypto handleAgain := by decide +kernel
    have hdrawn : UserAuthority.texts UserAuthority.UserOp.drawnHandle registration =
        [handle, handleAgain] := rfl
    have hknown : ∀ h ∈ [handle, handleAgain] ++
        UserAuthority.texts UserAuthority.UserOp.presentedHandle registration,
          h = handle ∨ h = handleAgain := by
      decide
    rw [hdrawn]
    intro h hh h' hh' hsame
    rcases hknown h (List.mem_append_left _ hh) with rfl | rfl
    · rcases hknown h' hh' with rfl | rfl
      · rfl
      · exact absurd hsame hne
    · rcases hknown h' hh' with rfl | rfl
      · exact absurd hsame.symm hne
      · rfl

theorem invitation_spent_once_alice :
    (registrar.after inviteCrypto authenticator registration).log.users = [registered] ∧
      (registrar.after inviteCrypto authenticator registration).invites = [] ∧
      ∃ before, registrar.eventsOf inviteCrypto authenticator registration =
          before ++ [.registered ⟨epoch + 8, handle, "768147", registered⟩] ∧
        UserAuthority.Justified authenticator before
          (.registered ⟨epoch + 8, handle, "768147", registered⟩) ∧
        UserAuthority.InTime before (.registered ⟨epoch + 8, handle, "768147", registered⟩) := by
  obtain ⟨hevents, _⟩ := UserAuthority.invitation_spent_once inviteCrypto authenticator registrar
    rfl rfl registration fresh_registration
  have hrun : (registrar.eventsOf inviteCrypto authenticator registration).getLast? =
        some (.registered ⟨epoch + 8, handle, "768147", registered⟩) ∧
      (registrar.after inviteCrypto authenticator registration).log.users = [registered] ∧
      (registrar.after inviteCrypto authenticator registration).invites = [] ∧
      Run.AllSafe (UserAuthority.step inviteCrypto authenticator)
        (UserAuthority.Timely inviteCrypto authenticator) registrar registration := by
    decide +kernel
  obtain ⟨hend, husers, hinvites, htimely⟩ := hrun
  have hlast := (List.dropLast_append_getLast? _ hend).symm
  obtain ⟨hjustified, hintime⟩ := hevents _ _ [] hlast
  exact ⟨husers, hinvites, _, hlast, hjustified, hintime htimely⟩

def mintedAlice : UserAuthority.Grant :=
  ⟨token, "alice", .viewer, 28800, totpSecret, epoch + 86400⟩

def startedAlice (secs : Nat) : UserAuthority.Begun :=
  ⟨epoch + secs, token, "alice", totpEnrolmentUri totpIssuer "alice" totpSecret, handle,
    epoch + secs + 900⟩

/-- The sweep of a start reads the last second of the invitation, the start the next. -/
def lateStart : List UserAuthority.UserRequest :=
  [inviteAlice, ⟨⟨epoch + 86399, epoch + 86399, epoch + 86399, epoch + 86400, 0⟩, ⟨true, true⟩,
    .beginUserRegistration token handle⟩]

/-- The handle has expired when a completion first reads the clock, which is lost then. -/
def lostClock : List UserAuthority.UserRequest :=
  [inviteAlice, userRequest 5 (.beginUserRegistration token handle),
    ⟨⟨epoch + 1000, 0, 0, 0, 0⟩, ⟨true, true⟩,
      .completeUserRegistration handle "password" "287082" registered.id
        (.ok registered.passwordHash)⟩]

/-- A second factor is revealed when its invitation has expired, and an account made when there
is no clock. -/
theorem lateStart_reveals :
    (UserAuthority.Fresh inviteCrypto lateStart ∧
      ¬ ∀ before e later,
        registrar.eventsOf inviteCrypto authenticator lateStart = before ++ e :: later →
          UserAuthority.InTime before e) ∧
    (UserAuthority.Fresh inviteCrypto lostClock ∧
      ¬ ∀ before e later,
        registrar.eventsOf inviteCrypto authenticator lostClock = before ++ e :: later →
          UserAuthority.InTime before e) := by
  have hlate : UserAuthority.Fresh inviteCrypto lateStart :=
    UserAuthority.fresh_of_one token handle rfl rfl (by decide) (by decide)
  have hlost : UserAuthority.Fresh inviteCrypto lostClock :=
    UserAuthority.fresh_of_one token handle rfl rfl (by decide) (by decide)
  refine ⟨⟨hlate, ?_⟩, hlost, ?_⟩
  · intro h
    have hevents : registrar.eventsOf inviteCrypto authenticator lateStart =
        [.minted mintedAlice] ++ .begun (startedAlice 86400) :: [] := by decide +kernel
    have hbefore : epoch + 86400 < epoch + 86400 :=
      (h _ _ _ hevents).2 mintedAlice List.mem_cons_self rfl
    exact Nat.lt_irrefl _ hbefore
  · intro h
    have hevents : registrar.eventsOf inviteCrypto authenticator lostClock =
        [.minted mintedAlice, .begun (startedAlice 5)] ++
          .registered ⟨0, handle, "287082", { registered with totpLastStep := 1 }⟩ :: [] := by
      decide +kernel
    exact (h _ _ _ hevents).1 rfl

end SmallMesh

end Wayfinder
