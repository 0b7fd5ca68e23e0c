import Wayfinder.Authority.Run

/-!
# What was reviewed is what is signed

The requests an operator has yet to decide are rows of a bounded store, one for an address.
Anybody may submit one, at any time; what a call can do to the rows is said once. A row keeps
its keys from the submission that made it until it expires, is decided at most once, and an
approval signs the keys of the row that was waiting.
-/

namespace Wayfinder

set_option autoImplicit false

open Table Fallible

namespace CertAuthority

/-- The later row is the earlier one, or the decision it was waiting for. -/
def Continues (h h' : HeldCsr) : Prop :=
  h'.nodeMac = h.nodeMac ∧ h'.edPubkey = h.edPubkey ∧ h'.xPubkey = h.xPubkey ∧
    (h' = h ∨ (h.status = .pending ∧ h'.status ≠ .pending))

theorem Continues.refl (h : HeldCsr) : Continues h h := ⟨rfl, rfl, rfl, Or.inl rfl⟩

/-- A decision is not decided again. -/
theorem Continues.trans {h h' h'' : HeldCsr} (h₁ : Continues h h') (h₂ : Continues h' h'') :
    Continues h h'' := by
  obtain ⟨hmac, hed, hx, hstatus⟩ := h₁
  obtain ⟨hmac', hed', hx', hstatus'⟩ := h₂
  refine ⟨hmac'.trans hmac, hed'.trans hed, hx'.trans hx, ?_⟩
  rcases hstatus with rfl | ⟨hpending, hdecided⟩
  · exact hstatus'
  · rcases hstatus' with rfl | ⟨hpending', _⟩
    · exact Or.inr ⟨hpending, hdecided⟩
    · exact absurd hpending' hdecided

/-- Everything a request can do to the rows, and what it then answers. -/
inductive HeldChange (k : Crypto) (ca : CertAuthority) : Op → Reply → List HeldCsr → Prop where
  | same {op : Op} {reply : Reply} : HeldChange k ca op reply ca.log.held
  | sweep {op : Op} {reply : Reply} : HeldChange k ca op reply ca.swept.log.held
  | insert {op : Op} {id : Identity} (hid : op.submitted k ca = some id)
      (hnone : ca.swept.heldFor id.nodeMac = none)
      (hroom : ca.swept.log.held.length < maxHeldCsrs) :
      HeldChange k ca op (.csr (.ok .pending)) (ca.swept.log.held ++
        [⟨id.nodeMac, id.edPubkey, id.xPubkey, ca.nowUnix, .pending⟩])
  | decide {op : Op} {mac : Mac} {status : CsrStatus} (hstatus : status ≠ .pending) :
      HeldChange k ca op (.done (.ok ())) (ca.swept.settle mac status ca.swept.log.held)

section Changes
variable {k : Crypto} {cr : Credentials} {ca : CertAuthority}

/-- A call that writes to another part of the log. -/
theorem HeldChange.of_held {op : Op} {reply : Reply} {held : List HeldCsr}
    (h : held = ca.log.held) : HeldChange k ca op reply held := by
  rw [h]
  exact .same

theorem HeldChange.of_swept {op : Op} {reply : Reply} {held : List HeldCsr}
    (h : held = ca.swept.log.held) : HeldChange k ca op reply held := by
  rw [h]
  exact .sweep

theorem issue_held (commits : Bool) (id : Identity) (ttlSecs : Option Nat) :
    (ca.issue k commits id ttlSecs).2.log.held = ca.log.held := by
  rcases ca.issue_cases (k := k) commits id ttlSecs with h | h <;> rw [h]
  · rfl
  · rfl

theorem holdCsr_held {op : Op} {id : Identity} (hid : op.submitted k ca = some id)
    (commits : Bool) : HeldChange k ca op (.csr (ca.swept.holdCsr k commits id).1)
      (ca.swept.holdCsr k commits id).2.log.held := by
  unfold holdCsr
  split
  · split
    · split
      · exact .sweep
      · exact .sweep
      · exact .sweep
    · exact .sweep
  · rename_i hnone
    split
    · exact .sweep
    · rename_i hroom
      rcases ca.swept.attempt_mutate commits _ _ with h | h <;> rw [h]
      · exact .sweep
      · exact .insert hid hnone (Nat.lt_of_not_le hroom)

theorem submitCsr_held (commits : Commits) (m e x : Bytes) (token : String) :
    HeldChange k ca (.submitCsr m e x token) (.csr (ca.submitCsr k commits m e x token).1)
      (ca.submitCsr k commits m e x token).2.log.held := by
  unfold submitCsr
  split
  · exact .same
  rcases ca.attempt_evictExpired commits.onTheWay _ with h | h <;> rw [h]
  · exact .same
  split
  · exact .sweep
  rename_i id hid
  have hpresented : (Op.submitCsr m e x token).submitted k ca = some id := by
    rw [Op.submitted, show ca.checkCsr k m e x token = .ok id from hid]
    rfl
  unfold answerCsr
  split
  · exact .sweep
  · rw [attempt_ok]
    exact .of_swept (issue_held _ _ _)
  · exact holdCsr_held hpresented commits.final
  · split
    · rw [attempt_ok]
      exact .of_swept (issue_held _ _ _)
    · exact holdCsr_held hpresented commits.final

theorem renewHolder_held (commits : Commits) (m e x : Bytes) :
    (ca.renewHolder k commits m e x).2.log.held = ca.log.held := by
  unfold renewHolder
  split
  · rfl
  split
  · rfl
  unfold answerRenewal
  split
  · rfl
  · rfl
  · rfl
  · rw [attempt_ok]
    exact issue_held _ _ _

theorem approveCsr_held (commits : Commits) (nodeMac : Bytes) (ttl : Option Nat) :
    HeldChange k ca (.approveCsr nodeMac ttl) (.done (ca.approveCsr k commits nodeMac ttl).1)
      (ca.approveCsr k commits nodeMac ttl).2.log.held := by
  unfold approveCsr
  rcases attempt_check ca (ca.approvalTtl ttl) _ with ⟨e, h⟩ | ⟨ttlSecs, _, h⟩ <;> rw [h]
  · exact .same
  split
  · exact .same
  rcases attempt_check ca (nodeMacOf nodeMac) _ with ⟨e, h⟩ | ⟨mac, _, h⟩ <;> rw [h]
  · exact .same
  rcases ca.attempt_evictExpired commits.onTheWay _ with h | h <;> rw [h]
  · exact .same
  rcases attempt_check ca.swept (ca.swept.approvable k mac) _ with ⟨e, h⟩ | ⟨id, _, h⟩ <;> rw [h]
  · exact .sweep
  rcases ca.swept.recordApproval_cases (k := k) commits.final id ttlSecs with h | h <;> rw [h]
  · exact .sweep
  · exact .decide (fun h => by cases h)

theorem denyCsr_held (commits : Commits) (nodeMac : Bytes) :
    HeldChange k ca (.denyCsr nodeMac) (.done (ca.denyCsr commits nodeMac).1)
      (ca.denyCsr commits nodeMac).2.log.held := by
  unfold denyCsr
  rcases attempt_check ca (nodeMacOf nodeMac) _ with ⟨e, h⟩ | ⟨mac, _, h⟩ <;> rw [h]
  · exact .same
  rcases ca.attempt_evictExpired commits.onTheWay _ with h | h <;> rw [h]
  · exact .same
  rcases attempt_check ca.swept (ca.swept.pendingCsr mac) _ with ⟨e, h⟩ | ⟨_, _, h⟩ <;> rw [h]
  · exact .sweep
  rcases ca.swept.mutate_cases commits.final _ with h | h <;> rw [h]
  · exact .decide (fun h => by cases h)
  · exact .sweep

theorem authenticateUser_held (commits : Commits) (username password code : String)
    (e x : Bytes) :
    (ca.authenticateUser k cr commits username password code e x).2.log.held = ca.log.held := by
  have hattempt : (ca.authenticate cr username password code).2.held = ca.log.held := by
    unfold authenticate
    split
    · rfl
    · rfl
  unfold authenticateUser
  split
  · rfl
  rcases attempt_check ca (fixed 32 e "ed_pubkey") _ with ⟨_, h⟩ | ⟨ed, _, h⟩ <;> rw [h]
  rcases attempt_check ca (k.x25519PubkeyOf x) _ with ⟨_, h⟩ | ⟨xp, _, h⟩ <;> rw [h]
  dsimp only
  rcases ca.attempt_mutate commits.onTheWay _ _ with h | h <;> rw [h]
  split
  · exact hattempt
  rename_i user _
  rcases attempt_check _ (checkSessionTtl user.sessionTtlSecs ca.allowUnboundedCertTtl) _ with
    ⟨_, h⟩ | ⟨_, _, h⟩ <;> rw [h]
  · exact hattempt
  · rcases recordSession_cases (k := k) commits.final ed xp user with h | h <;> rw [h]
    · exact hattempt
    · exact hattempt

theorem revokeSessions_held (commits : Bool) (sessions : List (Mac × Nat))
    {change : CaLog → CaLog} (hchange : ∀ log, (change log).held = log.held) :
    (ca.revokeSessions k commits sessions change).2.log.held = ca.log.held := by
  unfold revokeSessions
  split
  · rfl
  · dsimp only
    rcases ca.attempt_mutate commits _ _ with h | h <;> rw [h]
    exact hchange _

theorem perform_held (commits : Commits) (op : Op) :
    HeldChange k ca op (ca.perform k cr commits op).1 (ca.perform k cr commits op).2.log.held := by
  cases op with
  | submitCsr m e x token => exact submitCsr_held commits m e x token
  | approveCsr m ttl => exact approveCsr_held commits m ttl
  | denyCsr m => exact denyCsr_held commits m
  | renewHolder m e x => exact .of_held (renewHolder_held commits m e x)
  | authenticateUser username password code e x =>
    exact .of_held (authenticateUser_held commits username password code e x)
  | setEnrollmentPolicy update =>
    apply HeldChange.of_held
    change (ca.setEnrollmentPolicy commits update).2.log.held = _
    unfold setEnrollmentPolicy
    rcases attempt_check ca (ca.checkPolicy update) _ with ⟨e, h⟩ | ⟨_, _, h⟩ <;> rw [h]
    rcases ca.attempt_mutate commits.final _ _ with h | h <;> rw [h]
    rfl
  | revoke m =>
    apply HeldChange.of_held
    change (ca.revoke k commits m).2.log.held = _
    unfold revoke
    split
    · rfl
    rcases attempt_check ca (nodeMacOf m) _ with ⟨_, h⟩ | ⟨mac, _, h⟩ <;> rw [h]
    dsimp only
    rcases ca.attempt_mutate commits.final _ _ with h | h <;> rw [h]
    rfl
  | revokeUserSessions username =>
    apply HeldChange.of_held
    change (ca.revokeUserSessions k commits username).2.log.held = _
    unfold revokeUserSessions
    rcases attempt_check ca (ca.accountIdOf username) _ with ⟨_, h⟩ | ⟨_, _, h⟩ <;> rw [h]
    exact revokeSessions_held _ _ fun log => rfl
  | removeUser username =>
    apply HeldChange.of_held
    change (ca.removeUser k commits username).2.log.held = _
    unfold removeUser
    rcases attempt_check ca (ca.refuseToStrandTheMesh username "remove") _ with
      ⟨_, h⟩ | ⟨_, _, h⟩ <;> rw [h]
    rcases attempt_check ca (ca.accountIdOf username) _ with ⟨_, h⟩ | ⟨_, _, h⟩ <;> rw [h]
    exact revokeSessions_held _ _ fun log => rfl
  | setUserRole username role =>
    apply HeldChange.of_held
    change (ca.setUserRole k commits username role).2.log.held = _
    unfold setUserRole
    rcases attempt_check ca (if role = .viewer then ca.refuseToStrandTheMesh username "demote"
      else .ok ()) _ with ⟨_, h⟩ | ⟨_, _, h⟩ <;> rw [h]
    rcases attempt_check ca (ca.userRecord username) _ with ⟨_, h⟩ | ⟨_, _, h⟩ <;> rw [h]
    split
    · rfl
    · dsimp only
      rw [attempt_ok]
      exact revokeSessions_held _ _ fun log => rfl
  | setUserEnabled username enabled =>
    apply HeldChange.of_held
    change (ca.setUserEnabled k commits username enabled).2.log.held = _
    unfold setUserEnabled
    rcases attempt_check ca (if enabled then .ok () else
      ca.refuseToStrandTheMesh username "disable") _ with ⟨_, h⟩ | ⟨_, _, h⟩ <;> rw [h]
    rcases attempt_check ca (ca.userRecord username) _ with ⟨_, h⟩ | ⟨_, _, h⟩ <;> rw [h]
    dsimp only
    split
    · rfl
    · rw [attempt_ok]
      exact revokeSessions_held _ _ fun log => rfl
  | manageUsers users =>
    rcases ca.mutate_cases commits.final fun log => { log with users := users } with h | h <;>
      rw [perform, h]
    · exact .same
    · exact .same
  | restart cfg =>
    apply HeldChange.of_held
    change (ca.restart cfg).2.log.held = _
    unfold restart
    split
    · rename_i started hstarted
      obtain ⟨_, _, hstarted⟩ := exists_of_bind_ok hstarted
      rw [← Except.ok.inj hstarted]
      rfl
    · rfl

theorem serve_held (req : Request) :
    HeldChange k (ca.setNowUnix req.now) req.op (ca.serve k cr req).1
      (ca.step k cr req).log.held :=
  @perform_held k cr (ca.setNowUnix req.now) req.commits req.op

end Changes

/-! ### The store of requests -/

/-- The rows fit, and no address has two. -/
structure OneEach (held : List HeldCsr) : Prop where
  bounded : held.length ≤ maxHeldCsrs
  addresses : (held.map HeldCsr.nodeMac).Nodup

section Rows
variable {k : Crypto} {cr : Credentials} {ca : CertAuthority} {op : Op} {reply : Reply}
  {held : List HeldCsr}

theorem swept_held_sublist : ca.swept.log.held.Sublist ca.log.held := List.filter_sublist

theorem OneEach.sift (h : OneEach ca.log.held) : OneEach ca.swept.log.held where
  bounded := swept_held_sublist.length_le.trans h.bounded
  addresses := h.addresses.sublist (swept_held_sublist.map _)

theorem settle_eq_some {mac : Mac} {status : CsrStatus} {h h' : HeldCsr}
    (hrow : (if h.nodeMac = mac ∧ h.status = .pending then
      some { h with status := status, requestedAt := ca.nowUnix } else none) = some h') :
    h.nodeMac = mac ∧ h.status = .pending ∧
      h' = { h with status := status, requestedAt := ca.nowUnix } := by
  split at hrow
  · rename_i hpending
    exact ⟨hpending.1, hpending.2, (Option.some.inj hrow).symm⟩
  · cases hrow

theorem map_nodeMac_settle {mac : Mac} {status : CsrStatus} :
    (ca.settle mac status held).map HeldCsr.nodeMac = held.map HeldCsr.nodeMac := by
  apply List.lookmap_map_eq
  intro h h' hrow
  rw [(settle_eq_some hrow).2.2]

theorem OneEach.step (h : OneEach ca.log.held) (hchange : HeldChange k ca op reply held) :
    OneEach held := by
  cases hchange with
  | same => exact h
  | sweep => exact h.sift
  | @insert id hid hnone hroom =>
    refine ⟨?_, ?_⟩
    · rw [List.length_append]
      exact hroom
    · rw [List.map_append, List.map_singleton, List.nodup_append]
      refine ⟨h.sift.addresses, List.nodup_singleton _, ?_⟩
      intro mac hmac mac' hmac' heq
      obtain ⟨row, hrow, rfl⟩ := List.mem_map.mp hmac
      have hother := List.find?_eq_none.mp hnone row hrow
      exact hother (decide_eq_true (heq.trans (List.mem_singleton.mp hmac')))
  | decide =>
    refine ⟨?_, ?_⟩
    · rw [settle, List.length_lookmap]
      exact h.sift.bounded
    · rw [map_nodeMac_settle]
      exact h.sift.addresses

theorem mem_swept {h : HeldCsr} (hh : h ∈ ca.log.held) (hexpired : ca.isExpired h = false) :
    h ∈ ca.swept.log.held :=
  List.mem_filter.mpr ⟨hh, by rw [hexpired]; rfl⟩

/-- A row is there after a call as it was, or decided, unless it had expired. -/
theorem row_step {h : HeldCsr} (hh : h ∈ ca.log.held)
    (hchange : HeldChange k ca op reply held) :
    (∃ h' ∈ held, Continues h h') ∨ ca.isExpired h = true := by
  cases hexpired : ca.isExpired h with
  | true => exact Or.inr rfl
  | false =>
    left
    have hswept := mem_swept hh hexpired
    cases hchange with
    | same => exact ⟨h, hh, .refl h⟩
    | sweep => exact ⟨h, hswept, .refl h⟩
    | insert => exact ⟨h, List.mem_append_left _ hswept, .refl h⟩
    | @decide mac status hstatus =>
      have hall : List.Forall₂ Continues ca.swept.log.held
          (ca.swept.settle mac status ca.swept.log.held) := by
        apply forall₂_lookmap Continues.refl
        intro row row' hrow
        obtain ⟨_, hpending, rfl⟩ := settle_eq_some hrow
        exact ⟨rfl, rfl, rfl, Or.inr ⟨hpending, hstatus⟩⟩
      exact exists_of_forall₂_right hall.flip hswept

end Rows

/-! ### Approvals -/

/-- The row an operator's decision on an address is about. -/
structure Waiting (ca : CertAuthority) (mac : Mac) (h : HeldCsr) : Prop where
  held : h ∈ ca.log.held
  nodeMac : h.nodeMac = mac
  pending : h.status = .pending
  current : ca.isExpired h = false

section Approvals
variable {k : Crypto} {cr : Credentials} {ca : CertAuthority}

theorem waiting_of_approvable {mac : Mac} {id : Identity}
    (h : ca.swept.approvable k mac = .ok id) :
    ∃ row, Waiting ca mac row ∧ id = ⟨mac, row.edPubkey, row.xPubkey⟩ := by
  obtain ⟨hmac, _, row, hrow, hrowMac, hpending, hed, hx⟩ := approvable_ok h
  obtain ⟨hheld, hcurrent⟩ := List.mem_filter.mp hrow
  refine ⟨row, ⟨hheld, hrowMac, hpending, by simpa using hcurrent⟩, ?_⟩
  rw [hed, hx, ← hmac]

/-- A decision written is on the row it is about. -/
theorem mem_settle_of_waiting {mac : Mac} {status : CsrStatus} {held : List HeldCsr}
    {row : HeldCsr} (hheld : (held.map HeldCsr.nodeMac).Nodup) (hrow : row ∈ held)
    (hmac : row.nodeMac = mac) (hpending : row.status = .pending) :
    { row with status := status, requestedAt := ca.nowUnix } ∈ ca.settle mac status held := by
  have hsome : ∀ h : HeldCsr, (if h.nodeMac = mac ∧ h.status = .pending then
      some { h with status := status, requestedAt := ca.nowUnix } else none).isSome →
      h.nodeMac = mac := by
    intro h hh
    obtain ⟨h', hh'⟩ := Option.isSome_iff_exists.mp hh
    exact (settle_eq_some hh').1
  rw [settle, lookmap_eq_map hsome hheld]
  refine List.mem_map.mpr ⟨row, hrow, ?_⟩
  rw [if_pos ⟨hmac, hpending⟩, Option.getD_some]

/-- The certificate signed last is for the keys of the row that waits under an address. -/
def SignsWaiting (ca ca' : CertAuthority) (mac : Mac) (row : HeldCsr) (cert : MembershipCert) :
    Prop :=
  Waiting ca mac row ∧ cert.identity = ⟨mac, row.edPubkey, row.xPubkey⟩ ∧
    ca'.history.signed = (ca.nowUnix, cert) :: ca.history.signed

/-- Nothing is recorded as issued, and no row is decided: some may have been swept. -/
def Undecided (ca ca' : CertAuthority) : Prop :=
  ca'.log.issued = ca.log.issued ∧
    (ca'.log.held = ca.log.held ∨ ca'.log.held = ca.swept.log.held)

/-- An approval signs the keys of the row that waits, or nothing; where it fails, nothing is
recorded and nothing is decided. -/
def ApprovesWaiting (ca : CertAuthority) (nodeMac : Bytes)
    (r : Except String Unit × CertAuthority) : Prop :=
  (∃ e, r.1 = .error e ∧ Undecided ca r.2 ∧ (r.2.history.signed = ca.history.signed ∨
    ∃ mac row cert, Mac.tryFrom nodeMac = some mac ∧ SignsWaiting ca r.2 mac row cert)) ∨
  (r.1 = .ok () ∧ ∃ mac row cert, Mac.tryFrom nodeMac = some mac ∧
    SignsWaiting ca r.2 mac row cert ∧
    { row with status := .approved cert, requestedAt := ca.nowUnix } ∈ r.2.log.held)

theorem approveCsr_waiting (honce : OneEach ca.log.held) (commits : Commits) (nodeMac : Bytes)
    (ttl : Option Nat) : ApprovesWaiting ca nodeMac (ca.approveCsr k commits nodeMac ttl) := by
  have hhere : ∀ e, ApprovesWaiting ca nodeMac (.error e, ca) :=
    fun e => Or.inl ⟨e, rfl, ⟨rfl, Or.inl rfl⟩, Or.inl rfl⟩
  unfold approveCsr
  rcases attempt_check ca (ca.approvalTtl ttl) _ with ⟨e, h⟩ | ⟨ttlSecs, _, h⟩ <;> rw [h]
  · exact hhere e
  split
  · exact hhere _
  rcases attempt_check ca (nodeMacOf nodeMac) _ with ⟨e, h⟩ | ⟨mac, hmac, h⟩ <;> rw [h]
  · exact hhere e
  rcases ca.attempt_evictExpired commits.onTheWay _ with h | h <;> rw [h]
  · exact hhere _
  rcases attempt_check ca.swept (ca.swept.approvable k mac) _ with ⟨e, h⟩ | ⟨id, hid, h⟩ <;> rw [h]
  · exact Or.inl ⟨e, rfl, ⟨rfl, Or.inr rfl⟩, Or.inl rfl⟩
  have hread := mac_of_nodeMacOf hmac
  obtain ⟨row, hwaiting, rfl⟩ := waiting_of_approvable hid
  rcases ca.swept.recordApproval_cases (k := k) commits.final _ ttlSecs with h | h <;> rw [h]
  · exact Or.inl ⟨_, rfl, ⟨rfl, Or.inr rfl⟩,
      Or.inr ⟨mac, row, _, hread, hwaiting, rfl, rfl⟩⟩
  · refine Or.inr ⟨rfl, mac, row, _, hread, ⟨hwaiting, rfl, rfl⟩, ?_⟩
    exact mem_settle_of_waiting honce.sift.addresses (mem_swept hwaiting.held hwaiting.current)
      hwaiting.nodeMac hwaiting.pending

theorem denyCsr_undecided (commits : Commits) (nodeMac : Bytes) {e : String}
    (herror : (ca.denyCsr commits nodeMac).1 = .error e) :
    Undecided ca (ca.denyCsr commits nodeMac).2 := by
  refine ⟨(desk_denyCsr commits nodeMac).issued, ?_⟩
  unfold denyCsr at herror ⊢
  rcases attempt_check ca (nodeMacOf nodeMac) _ with ⟨e, h⟩ | ⟨mac, _, h⟩ <;> rw [h] at herror ⊢
  · exact Or.inl rfl
  rcases ca.attempt_evictExpired commits.onTheWay _ with h | h <;> rw [h] at herror ⊢
  · exact Or.inl rfl
  rcases attempt_check ca.swept (ca.swept.pendingCsr mac) _ with ⟨e, h⟩ | ⟨_, _, h⟩ <;>
    rw [h] at herror ⊢
  · exact Or.inr rfl
  rcases ca.swept.mutate_cases commits.final _ with h | h <;> rw [h] at herror ⊢
  · cases herror
  · exact Or.inr rfl

end Approvals

/-! ### Whole runs -/

section Runs
variable {k : Crypto} {cr : Credentials} {ca : CertAuthority}

theorem oneEach_after (h : OneEach ca.log.held) (reqs : List Request) :
    OneEach (ca.after k cr reqs).log.held := by
  induction reqs using List.reverseRecOn with
  | nil => exact h
  | append_singleton reqs req ih =>
    have hkept : OneEach ((ca.after k cr reqs).setNowUnix req.now).log.held := ih
    rw [after, Run.run_append_singleton]
    exact hkept.step (serve_held req)

/-- The row, or what became of it, had expired when one of these requests came. -/
def ExpiredIn (k : Crypto) (cr : Credentials) (ca : CertAuthority) (h : HeldCsr)
    (reqs : List Request) : Prop :=
  ∃ mid req rest h', reqs = mid ++ req :: rest ∧ h' ∈ (ca.after k cr mid).log.held ∧
    Continues h h' ∧ ((ca.after k cr mid).setNowUnix req.now).isExpired h' = true

/-- A row on file stays there, as it was or decided, until it expires. -/
theorem row_after {h : HeldCsr} (hh : h ∈ ca.log.held) (reqs : List Request) :
    (∃ h' ∈ (ca.after k cr reqs).log.held, Continues h h') ∨ ExpiredIn k cr ca h reqs := by
  induction reqs using List.reverseRecOn with
  | nil => exact Or.inl ⟨h, hh, .refl h⟩
  | append_singleton reqs req ih =>
    rcases ih with ⟨h', hh', hcontinues⟩ | ⟨mid, req', rest, h', rfl, hrest⟩
    · have hlast : (ca.after k cr (reqs ++ [req])) = (ca.after k cr reqs).step k cr req :=
        Run.run_append_singleton req
      have hh'now : h' ∈ ((ca.after k cr reqs).setNowUnix req.now).log.held := hh'
      rcases row_step hh'now (@serve_held k cr _ req) with ⟨h'', hh'', hcontinues'⟩ | hexpired
      · rw [hlast]
        exact Or.inl ⟨h'', hh'', hcontinues.trans hcontinues'⟩
      · exact Or.inr ⟨reqs, req, [], h', rfl, hh', hcontinues, hexpired⟩
    · exact Or.inr ⟨mid, req', rest ++ [req], h', by simp, hrest⟩

/-- A submission that is rejected leaves every row that has not expired. -/
theorem row_of_rejected {op : Op} {reply : Reply} {held : List HeldCsr} {h : HeldCsr}
    {why : String} (hchange : HeldChange k ca op reply held)
    (hreply : reply = .csr (.ok (.rejected why))) (hh : h ∈ ca.log.held)
    (hexpired : ca.isExpired h = false) : h ∈ held := by
  cases hchange with
  | same => exact hh
  | sweep => exact mem_swept hh hexpired
  | insert => cases hreply
  | decide => cases hreply

end Runs

/-- From an empty log, after any requests. The rows fit, one for an address. Each stays with
the keys it was submitted with until it expires, decided at most once, and no other row takes
its address meanwhile. A rejection leaves the rows; an approval signs the keys of the row
that waits; and an approval or a denial that fails decides nothing. -/
theorem reviewed_is_signed (k : Crypto) (cr : Credentials) (a : Authority) (cfg : ProviderConfig)
    (t₀ : Nat) (start : CertAuthority) (hstart : fromConfig a cfg none t₀ = .ok start)
    (before : List Request) :
    OneEach (start.after k cr before).log.held ∧
    (∀ later, ∀ h ∈ (start.after k cr before).log.held,
      (∃ h' ∈ (start.after k cr (before ++ later)).log.held, Continues h h' ∧
        ∀ h'' ∈ (start.after k cr (before ++ later)).log.held, h''.nodeMac = h.nodeMac →
          h'' = h') ∨
      ExpiredIn k cr (start.after k cr before) h later) ∧
    ∀ now commits,
      (∀ m e x token why, ((start.after k cr before).serve k cr
          ⟨now, commits, .submitCsr m e x token⟩).1 = .csr (.ok (.rejected why)) →
        ∀ h ∈ (start.after k cr before).log.held,
          ((start.after k cr before).setNowUnix now).isExpired h = false →
          h ∈ ((start.after k cr before).step k cr
            ⟨now, commits, .submitCsr m e x token⟩).log.held) ∧
      (∀ nodeMac ttl, ApprovesWaiting ((start.after k cr before).setNowUnix now) nodeMac
        (((start.after k cr before).setNowUnix now).approveCsr k commits nodeMac ttl)) ∧
      ∀ nodeMac e, (((start.after k cr before).setNowUnix now).denyCsr commits nodeMac).1 =
          .error e →
        Undecided ((start.after k cr before).setNowUnix now)
          (((start.after k cr before).setNowUnix now).denyCsr commits nodeMac).2 := by
  have hempty : OneEach start.log.held := by
    obtain ⟨_, _, hstart⟩ := exists_of_bind_ok hstart
    rw [← Except.ok.inj hstart]
    exact ⟨Nat.zero_le _, .nil⟩
  have honce : ∀ reqs, OneEach (start.after k cr reqs).log.held := oneEach_after hempty
  refine ⟨honce before, ?_, ?_⟩
  · intro later h hh
    have hlater : start.after k cr (before ++ later) = (start.after k cr before).after k cr later :=
      Run.run_append later
    rcases @row_after k cr _ h hh later with ⟨h', hh', hcontinues⟩ | hexpired
    · refine Or.inl ⟨h', hlater ▸ hh', hcontinues, ?_⟩
      intro h'' hh'' hmac
      exact List.inj_on_of_nodup_map (honce (before ++ later)).addresses hh'' (hlater ▸ hh')
        (hmac.trans hcontinues.1.symm)
    · exact Or.inr hexpired
  · intro now commits
    refine ⟨?_, ?_, ?_⟩
    · intro m e x token why hreply h hh hexpired
      exact row_of_rejected (@serve_held k cr _ ⟨now, commits, .submitCsr m e x token⟩) hreply hh
        hexpired
    · intro nodeMac ttl
      exact @approveCsr_waiting k ((start.after k cr before).setNowUnix now) (honce before) commits
        nodeMac ttl
    · intro nodeMac e herror
      exact denyCsr_undecided commits nodeMac herror

end CertAuthority

namespace SmallMesh

theorem reviewed_is_signed_hour2 :
    ∃ row ∈ ((started provider).after rootCrypto accounts [atSecs 0 (submits id2)]).log.held,
      (row.nodeMac, row.edPubkey, row.xPubkey) = (mac2, id2.edPubkey, id2.xPubkey) ∧
      (∃ row' ∈ ((started provider).after rootCrypto accounts (approval2 none)).log.held,
        CertAuthority.Continues row row' ∧ row'.status = .approved hour2) ∧
      CertAuthority.ApprovesWaiting
        (((started provider).after rootCrypto accounts [atSecs 0 (submits id2)]).setNowUnix
          (epoch + 10)) mac2.asBytes
        ((((started provider).after rootCrypto accounts [atSecs 0 (submits id2)]).setNowUnix
          (epoch + 10)).approveCsr rootCrypto ⟨true, true⟩ mac2.asBytes none) := by
  obtain ⟨_, _, hserve⟩ := CertAuthority.reviewed_is_signed rootCrypto accounts root provider
    epoch (started provider) rfl [atSecs 0 (submits id2)]
  let row : HeldCsr := ⟨mac2, id2.edPubkey, id2.xPubkey, epoch, .pending⟩
  have hrow : row ∈ ((started provider).after rootCrypto accounts
      [atSecs 0 (submits id2)]).log.held := by decide +kernel
  refine ⟨row, hrow, rfl, ?_, (hserve (epoch + 10) ⟨true, true⟩).2.1 mac2.asBytes none⟩
  exact ⟨{ row with status := .approved hour2, requestedAt := epoch + 10 }, by decide +kernel,
    ⟨rfl, rfl, rfl, Or.inr ⟨rfl, fun h => by cases h⟩⟩, rfl⟩

end SmallMesh

end Wayfinder
