import Wayfinder.Authority.Issue
import Wayfinder.Install

/-!
# Runs of the certificate authority

The requests an authority serves, each with the clock it reads and what its store does
with it. What one of them can do to the log is said once, by kind, and the certificates
the root has ever signed are the anchor's whatever was asked. Then how long a revocation
is enforced against the certificates it is aimed at.
-/

namespace Wayfinder

set_option autoImplicit false

open Table Fallible

namespace CertAuthority

/-! ### Requests -/

inductive Op where
  | submitCsr (nodeMac edPubkey xPubkey : Bytes) (token : String)
  | renewHolder (nodeMac edPubkey xPubkey : Bytes)
  | approveCsr (nodeMac : Bytes) (certTtlSecs : Option Nat)
  | denyCsr (nodeMac : Bytes)
  | authenticateUser (username password totpCode : String) (edPubkey xPubkey : Bytes)
  | setEnrollmentPolicy (update : EnrollmentPolicyData)
  | revoke (nodeMac : Bytes)
  | revokeUserSessions (username : String)
  | removeUser (username : String)
  | setUserRole (username : String) (role : UserRole)
  | setUserEnabled (username : String) (enabled : Bool)
  /-- Accounts created or registered, passwords and lifetimes changed: the roster they
  leave. -/
  | manageUsers (users : List UserRecord)
  | restart (cfg : ProviderConfig)

structure Request where
  now : Nat
  commits : Commits
  op : Op

inductive Reply where
  | csr (answer : Except String CsrOutcome)
  | renewal (answer : Except String RenewalOutcome)
  | session (answer : Except String UserAuthOutcome)
  | revocation (answer : Except String RevocationRecord)
  | revocations (answer : Except String (List RevocationRecord))
  | changed (answer : Except String (List RevocationRecord × Bool))
  | done (answer : Except String Unit)
  deriving DecidableEq

/-- The certificate an enrolment or a renewal is answered with. -/
def Reply.cert? : Reply → Option MembershipCert
  | .csr (.ok (.issued data)) => some data.cert
  | .renewal (.ok (.issued cert)) => some cert
  | _ => none

def perform (k : Crypto) (cr : Credentials) (ca : CertAuthority) (commits : Commits) :
    Op → Reply × CertAuthority
  | .submitCsr m e x token => (ca.submitCsr k commits m e x token).map .csr id
  | .renewHolder m e x => (ca.renewHolder k commits m e x).map .renewal id
  | .approveCsr m ttl => (ca.approveCsr k commits m ttl).map .done id
  | .denyCsr m => (ca.denyCsr commits m).map .done id
  | .authenticateUser user password code e x =>
    (ca.authenticateUser k cr commits user password code e x).map .session id
  | .setEnrollmentPolicy update => (ca.setEnrollmentPolicy commits update).map .done id
  | .revoke m => (ca.revoke k commits m).map .revocation id
  | .revokeUserSessions user => (ca.revokeUserSessions k commits user).map .revocations id
  | .removeUser user => (ca.removeUser k commits user).map .revocations id
  | .setUserRole user role => (ca.setUserRole k commits user role).map .changed id
  | .setUserEnabled user enabled => (ca.setUserEnabled k commits user enabled).map .changed id
  | .manageUsers users =>
    (ca.mutate commits.final fun log => { log with users := users }).map .done id
  | .restart cfg => (ca.restart cfg).map .done id

def setNowUnix (ca : CertAuthority) (now : Nat) : CertAuthority := { ca with nowUnix := now }

def serve (k : Crypto) (cr : Credentials) (ca : CertAuthority) (req : Request) :
    Reply × CertAuthority :=
  (ca.setNowUnix req.now).perform k cr req.commits req.op

def step (k : Crypto) (cr : Credentials) (ca : CertAuthority) (req : Request) : CertAuthority :=
  (ca.serve k cr req).2

/-! ### One step of a call -/

section Steps
variable {α β : Type} (ca : CertAuthority)

theorem mutate_cases (commits : Bool) (g : CaLog → CaLog) :
    ca.mutate commits g = (.ok (), { ca with log := g ca.log }) ∨
      ca.mutate commits g = (.error notRecorded, ca) := by
  unfold mutate
  split
  · exact Or.inl rfl
  · exact Or.inr rfl

theorem attempt_check (x : Except String α)
    (f : α → CertAuthority → Except String β × CertAuthority) :
    (∃ e, attempt (x, ca) f = (.error e, ca)) ∨ ∃ a, x = .ok a ∧ attempt (x, ca) f = f a ca := by
  cases x with
  | error e => exact Or.inl ⟨e, rfl⟩
  | ok a => exact Or.inr ⟨a, rfl, rfl⟩

theorem attempt_mutate (commits : Bool) (g : CaLog → CaLog)
    (f : Unit → CertAuthority → Except String β × CertAuthority) :
    attempt (ca.mutate commits g) f = (.error notRecorded, ca) ∨
      attempt (ca.mutate commits g) f = f () { ca with log := g ca.log } := by
  rcases ca.mutate_cases commits g with h | h
  · exact Or.inr (by rw [h]; rfl)
  · exact Or.inl (by rw [h]; rfl)

theorem attempt_ok (r : Except String α × CertAuthority) {f : α → β} :
    (attempt r fun a ca => (.ok (f a), ca)) = (r.1.map f, r.2) := by
  obtain ⟨x, ca⟩ := r
  cases x <;> rfl

/-- The authority without the held requests that have timed out. -/
def swept (ca : CertAuthority) : CertAuthority :=
  { ca with log := { ca.log with held := ca.log.held.filter fun h => !ca.isExpired h } }

theorem evictExpired_cases (commits : Bool) :
    ca.evictExpired commits = (.ok (), ca.swept) ∨
      ca.evictExpired commits = (.error notRecorded, ca) := by
  unfold evictExpired
  split
  · exact ca.mutate_cases commits _
  · rename_i hnone
    have hall : ∀ h ∈ ca.log.held, (!ca.isExpired h) = true := by simpa using hnone
    have hswept : ca.swept = ca := by
      unfold swept
      rw [List.filter_eq_self.mpr hall]
    rw [hswept]
    exact Or.inl rfl

theorem attempt_evictExpired (commits : Bool)
    (f : Unit → CertAuthority → Except String β × CertAuthority) :
    attempt (ca.evictExpired commits) f = (.error notRecorded, ca) ∨
      attempt (ca.evictExpired commits) f = f () ca.swept := by
  rcases ca.evictExpired_cases commits with h | h
  · exact Or.inr (by rw [h]; rfl)
  · exact Or.inl (by rw [h]; rfl)

end Steps

section Excepts
variable {ε ε' α β : Type}

/-- Whatever a computation fails with has the property. -/
def FailsWith (P : ε → Prop) (x : Except ε α) : Prop := ∀ e, x = .error e → P e

theorem failsWith_ok {P : ε → Prop} {a : α} : FailsWith P (.ok a) := by
  intro e h
  cases h

theorem failsWith_mapError {P : ε' → Prop} {f : ε → ε'} (hf : ∀ e, P (f e)) (r : Except ε α) :
    FailsWith P (r.mapError f) := by
  cases r with
  | ok a => exact failsWith_ok
  | error e =>
    intro e' h
    rw [← Except.error.inj h]
    exact hf e

theorem FailsWith.bind {P : ε → Prop} {x : Except ε α} {f : α → Except ε β} (hx : FailsWith P x)
    (hf : ∀ a, FailsWith P (f a)) : FailsWith P (x >>= f) := by
  cases x with
  | ok a => exact hf a
  | error e =>
    intro e' h
    rw [← Except.error.inj h]
    exact hx e rfl

theorem ok_of_toOption {r : Except ε α} {a : α} (h : r.toOption = some a) : r = .ok a := by
  cases r with
  | error e => cases h
  | ok b => rw [Option.some.inj h]

end Excepts

/-! ### What a request can do -/

/-- The identity a submission presents, once nothing but the log is left to ask about it. -/
def Op.submitted (k : Crypto) (ca : CertAuthority) : Op → Option Identity
  | .submitCsr m e x token => (ca.checkCsr k m e x token).toOption
  | _ => none

/-- The same of a submission or a renewal. -/
def Op.identity (k : Crypto) (ca : CertAuthority) : Op → Option Identity
  | .renewHolder m e x => (checkRenewal k m e x).toOption
  | op => op.submitted k ca

/-- The held request a submission for an address is answered by. -/
def heldFor (ca : CertAuthority) (mac : Mac) : Option HeldCsr :=
  ca.log.held.find? fun h => h.nodeMac = mac

/-- The keys and the account of a sign-in that is accepted. -/
def Op.session (k : Crypto) (cr : Credentials) (ca : CertAuthority) :
    Op → Option (Octets 32 × Octets 32 × UserRecord)
  | .authenticateUser username password code e x => do
    let ed ← (fixed 32 e "ed_pubkey").toOption
    let x ← (k.x25519PubkeyOf x).toOption
    let user ← (ca.authenticate cr username password code).1
    let _ ← (checkSessionTtl user.sessionTtlSecs ca.allowUnboundedCertTtl).toOption
    some (ed, x, user)
  | _ => none

/-- The log lets this identity have a certificate at once: it is the live holder and in
good standing, or nobody holds the address and the policy asks nobody. -/
def Grants (ca : CertAuthority) (id : Identity) (ttlSecs : Option Nat) : Prop :=
  (∃ held, ca.liveHolder id.nodeMac id.edPubkey = some (true, false, held) ∧
    ttlSecs = some held) ∨
  (ca.liveHolder id.nodeMac id.edPubkey = none ∧ ca.autoApprove = true ∧ ttlSecs = none)

/-- Nothing is signed and no certificate's record changes; what is held as approved was so
before. -/
structure Desk (ca ca' : CertAuthority) : Prop where
  authority : ca'.authority = ca.authority
  nowUnix : ca'.nowUnix = ca.nowUnix
  history : ca'.history = ca.history
  issued : ca'.log.issued = ca.log.issued
  revocations : ca'.log.revocations = ca.log.revocations
  held : ∀ h ∈ ca'.log.held, ∀ cert, h.status = .approved cert → h ∈ ca.log.held

/-- Everything a request can do, by the kind of write it makes, and the certificate it is
answered with. -/
inductive Effect (k : Crypto) (cr : Credentials) (ca : CertAuthority) :
    Op → Reply → CertAuthority → Prop where
  | desk {op : Op} {reply : Reply} {ca' : CertAuthority} (h : Desk ca ca')
      (hreply : reply.cert? = none) : Effect k cr ca op reply ca'
  /-- An approval on file is collected by the keys it was given to, where the log does not
  answer for the address. -/
  | collect {op : Op} {id : Identity} {h : HeldCsr} {data : EnrollData}
      (hid : op.submitted k ca = some id) (hheld : ca.swept.heldFor id.nodeMac = some h)
      (hkeys : h.edPubkey = id.edPubkey ∧ h.xPubkey = id.xPubkey)
      (hstatus : h.status = .approved data.cert) :
      Effect k cr ca op (.csr (.ok (.issued data))) ca.swept
  | issue {op : Op} {reply : Reply} {ca₁ : CertAuthority} {id : Identity} {ttlSecs : Option Nat}
      {commits : Bool} (hdesk : Desk ca ca₁) (hid : op.identity k ca = some id)
      (hgrants : ca.Grants id ttlSecs)
      (hreply : ∀ cert, reply.cert? = some cert → cert.identity = id) :
      Effect k cr ca op reply (ca₁.issue k commits id ttlSecs).2
  | approve {nodeMac : Bytes} {certTtlSecs : Option Nat} {mac : Mac} {id : Identity}
      {ttlSecs : Nat} {commits : Bool} (hmac : Mac.tryFrom nodeMac = some mac)
      (hid : ca.swept.approvable k mac = .ok id) :
      Effect k cr ca (.approveCsr nodeMac certTtlSecs)
        (.done (ca.swept.recordApproval k commits id ttlSecs).1)
        (ca.swept.recordApproval k commits id ttlSecs).2
  | session {op : Op} {reply : Reply} {ca₁ : CertAuthority} {ed x : Octets 32} {user : UserRecord}
      {commits : Bool} (hdesk : Desk ca ca₁)
      (hsession : op.session k cr ca = some (ed, x, user)) (hreply : reply.cert? = none) :
      Effect k cr ca op reply (ca₁.recordSession k commits ed x user).2
  | revoke {nodeMac : Bytes} {mac : Mac} {record : RevocationRecord}
      (hmac : Mac.tryFrom nodeMac = some mac)
      (hrecord : record = ca.authority.revoke k mac ca.nowUnix
        (saturatingAdd64 ca.nowUnix ca.certTtlSecs)) :
      Effect k cr ca (.revoke nodeMac) (.revocation (.ok record))
        { ca with log := (ca.log.recordRevocations [record] ca.nowUnix).markFirstRevoked mac }
  | endSessions {op : Op} {reply : Reply} {sessions : List (Mac × Nat)} {users : List UserRecord}
      (hreply : reply.cert? = none) :
      Effect k cr ca op reply { ca with
        log := { (ca.log.recordRevocations
            (sessions.map fun s => ca.authority.revoke k s.1 ca.nowUnix s.2)
            ca.nowUnix).markRevoked (sessions.map Prod.fst) with users := users } }

section Effects
variable {k : Crypto} {cr : Credentials} {ca : CertAuthority}

theorem Desk.refl : Desk ca ca := ⟨rfl, rfl, rfl, rfl, rfl, fun _ h _ _ => h⟩

theorem desk_swept (ca : CertAuthority) : Desk ca ca.swept :=
  ⟨rfl, rfl, rfl, rfl, rfl, fun _ h _ _ => (List.mem_filter.mp h).1⟩

theorem Desk.trans {ca₁ ca₂ : CertAuthority} (h₁ : Desk ca ca₁) (h₂ : Desk ca₁ ca₂) :
    Desk ca ca₂ where
  authority := h₂.authority.trans h₁.authority
  nowUnix := h₂.nowUnix.trans h₁.nowUnix
  history := h₂.history.trans h₁.history
  issued := h₂.issued.trans h₁.issued
  revocations := h₂.revocations.trans h₁.revocations
  held h hh cert hcert := h₁.held h (h₂.held h hh cert hcert) cert hcert

/-- Holding a request writes at most a pending row. -/
theorem effect_holdCsr {op : Op} {id : Identity} (hid : op.submitted k ca = some id)
    (commits : Bool) : Effect k cr ca op (.csr (ca.swept.holdCsr k commits id).1)
      (ca.swept.holdCsr k commits id).2 := by
  unfold holdCsr
  split
  · rename_i h hheld
    split
    · rename_i hkeys
      split
      · exact .desk ca.desk_swept rfl
      · rename_i cert hstatus
        exact .collect hid hheld hkeys hstatus
      · exact .desk ca.desk_swept rfl
    · exact .desk ca.desk_swept rfl
  · split
    · exact .desk ca.desk_swept rfl
    · rcases ca.swept.attempt_mutate commits _ _ with h | h <;> rw [h]
      · exact .desk ca.desk_swept rfl
      · refine .desk (ca.desk_swept.trans ⟨rfl, rfl, rfl, rfl, rfl, ?_⟩) rfl
        intro h hh cert hcert
        rcases List.mem_append.mp hh with hh | hh
        · exact hh
        · rw [List.mem_singleton.mp hh] at hcert
          cases hcert

/-- Where a decision is written, the row was there before or carries the decision. -/
theorem mem_settle {mac : Mac} {status : CsrStatus} {held : List HeldCsr} {h : HeldCsr}
    (hh : h ∈ ca.settle mac status held) : h ∈ held ∨ ∃ h' ∈ held, h'.nodeMac = mac ∧
      h'.status = .pending ∧ h = { h' with status := status, requestedAt := ca.nowUnix } := by
  rcases mem_lookmap hh with hh | ⟨h', hh', hf⟩
  · exact Or.inl hh
  · split at hf
    · rename_i hrow
      exact Or.inr ⟨h', hh', hrow.1, hrow.2, (Option.some.inj hf).symm⟩
    · cases hf

theorem desk_denyCsr (commits : Commits) (nodeMac : Bytes) :
    Desk ca (ca.denyCsr commits nodeMac).2 := by
  unfold denyCsr
  rcases attempt_check ca (nodeMacOf nodeMac) _ with ⟨e, h⟩ | ⟨mac, _, h⟩ <;> rw [h]
  · exact .refl
  rcases ca.attempt_evictExpired commits.onTheWay _ with h | h <;> rw [h]
  · exact .refl
  rcases attempt_check ca.swept (ca.swept.pendingCsr mac) _ with ⟨e, h⟩ | ⟨_, _, h⟩ <;>
    rw [h]
  · exact ca.desk_swept
  rcases ca.swept.mutate_cases commits.final _ with h | h <;> rw [h]
  · refine ca.desk_swept.trans ⟨rfl, rfl, rfl, rfl, rfl, ?_⟩
    intro h hh cert hcert
    rcases mem_settle hh with hh | ⟨h', _, _, _, rfl⟩
    · exact hh
    · cases hcert
  · exact ca.desk_swept

theorem desk_setEnrollmentPolicy (commits : Commits) (update : EnrollmentPolicyData) :
    Desk ca (ca.setEnrollmentPolicy commits update).2 := by
  unfold setEnrollmentPolicy
  rcases attempt_check ca (ca.checkPolicy update) _ with ⟨e, h⟩ | ⟨_, _, h⟩ <;> rw [h]
  · exact .refl
  rcases ca.attempt_mutate commits.final _ _ with h | h <;> rw [h]
  · exact .refl
  · exact ⟨rfl, rfl, rfl, rfl, rfl, fun _ h _ _ => h⟩

theorem desk_restart (cfg : ProviderConfig) : Desk ca (ca.restart cfg).2 := by
  unfold restart
  split
  · rename_i started hstarted
    obtain ⟨_, _, hstarted⟩ := exists_of_bind_ok hstarted
    obtain rfl := Except.ok.inj hstarted
    exact ⟨rfl, rfl, rfl, rfl, rfl, fun _ h _ _ => h⟩
  · exact .refl

/-- A refused request is answered with no certificate. -/
theorem failsWith_checkCsr (m e x : Bytes) (token : String) :
    FailsWith (fun answer => (Reply.csr answer).cert? = none) (ca.checkCsr k m e x token) := by
  unfold checkCsr
  refine .bind ?_ fun _ => ?_
  · intro answer h
    split at h
    · rw [← Except.error.inj h]
      rfl
    · cases h
  refine .bind (failsWith_mapError (fun _ => by rfl) _) fun mac => ?_
  refine .bind (failsWith_mapError (fun _ => by rfl) _) fun ed => ?_
  refine .bind (failsWith_mapError (fun _ => by rfl) _) fun xp => ?_
  exact .bind (failsWith_mapError (fun _ => by rfl) _) fun _ => failsWith_ok

theorem failsWith_checkRenewal (m e x : Bytes) :
    FailsWith (fun answer => (Reply.renewal answer).cert? = none) (checkRenewal k m e x) := by
  unfold checkRenewal
  refine .bind (failsWith_mapError (fun _ => by rfl) _) fun mac => ?_
  refine .bind (failsWith_mapError (fun _ => by rfl) _) fun ed => ?_
  refine .bind (failsWith_mapError (fun _ => by rfl) _) fun xp => ?_
  exact .bind (failsWith_mapError (fun _ => by rfl) _) fun _ => failsWith_ok

theorem issue_cert {commits : Bool} {id : Identity} {ttlSecs : Option Nat} {data : EnrollData}
    (h : (ca.issue k commits id ttlSecs).1 = .ok data) : data.cert.identity = id := by
  unfold issue at h
  dsimp only at h
  rcases (ca.noteSigned _).attempt_mutate commits _ _ with hm | hm <;> rw [hm] at h
  · cases h
  · rw [← Except.ok.inj h]
    rfl

theorem effect_submitCsr (commits : Commits) (m e x : Bytes) (token : String) :
    Effect k cr ca (.submitCsr m e x token) (.csr (ca.submitCsr k commits m e x token).1)
      (ca.submitCsr k commits m e x token).2 := by
  have hreply : ∀ id ttlSecs cert,
      (Reply.csr ((ca.swept.issue k commits.final id ttlSecs).1.map .issued)).cert? = some cert →
        cert.identity = id := by
    intro id ttlSecs cert hcert
    cases hdata : (ca.swept.issue k commits.final id ttlSecs).1 with
    | error e =>
      rw [hdata] at hcert
      cases hcert
    | ok data =>
      rw [hdata] at hcert
      rw [← Option.some.inj hcert]
      exact issue_cert hdata
  unfold submitCsr
  split
  · exact .desk .refl rfl
  rcases ca.attempt_evictExpired commits.onTheWay _ with h | h <;> rw [h]
  · exact .desk .refl rfl
  split
  · rename_i answer hanswer
    exact .desk ca.desk_swept (failsWith_checkCsr m e x token answer hanswer)
  rename_i id hid
  have hpresented : (Op.submitCsr m e x token).submitted k ca = some id := by
    rw [Op.submitted, show ca.checkCsr k m e x token = .ok id from hid]
    rfl
  unfold answerCsr
  split
  · exact .desk ca.desk_swept rfl
  · rename_i held hholder
    rw [attempt_ok]
    exact .issue ca.desk_swept hpresented (Or.inl ⟨held, hholder, rfl⟩) (hreply _ _)
  · exact effect_holdCsr hpresented commits.final
  · rename_i hholder
    split
    · rename_i hauto
      rw [attempt_ok]
      exact .issue ca.desk_swept hpresented (Or.inr ⟨hholder, hauto, rfl⟩) (hreply _ _)
    · exact effect_holdCsr hpresented commits.final

theorem effect_renewHolder (commits : Commits) (m e x : Bytes) :
    Effect k cr ca (.renewHolder m e x) (.renewal (ca.renewHolder k commits m e x).1)
      (ca.renewHolder k commits m e x).2 := by
  unfold renewHolder
  split
  · exact .desk .refl rfl
  split
  · rename_i answer hanswer
    exact .desk .refl (failsWith_checkRenewal m e x answer hanswer)
  rename_i id hid
  have hpresented : (Op.renewHolder m e x).identity k ca = some id := by
    rw [Op.identity, hid]
    rfl
  unfold answerRenewal
  split
  · exact .desk .refl rfl
  · exact .desk .refl rfl
  · exact .desk .refl rfl
  · rename_i held hholder
    rw [attempt_ok]
    refine .issue .refl hpresented (Or.inl ⟨held, hholder, rfl⟩) ?_
    intro cert hcert
    cases hdata : (ca.issue k commits.final id (some held)).1 with
    | error e =>
      rw [hdata] at hcert
      cases hcert
    | ok data =>
      rw [hdata] at hcert
      rw [← Option.some.inj hcert]
      exact issue_cert hdata

theorem mac_of_nodeMacOf {bytes : Bytes} {mac : Mac} (h : nodeMacOf bytes = .ok mac) :
    Mac.tryFrom bytes = some mac := by
  unfold nodeMacOf at h
  cases hread : Mac.tryFrom bytes with
  | none =>
    rw [hread] at h
    cases h
  | some read =>
    rw [hread] at h
    exact congrArg some (Except.ok.inj h)

theorem effect_approveCsr (commits : Commits) (nodeMac : Bytes) (ttl : Option Nat) :
    Effect k cr ca (.approveCsr nodeMac ttl) (.done (ca.approveCsr k commits nodeMac ttl).1)
      (ca.approveCsr k commits nodeMac ttl).2 := by
  unfold approveCsr
  rcases attempt_check ca (ca.approvalTtl ttl) _ with ⟨e, h⟩ | ⟨ttlSecs, _, h⟩ <;> rw [h]
  · exact .desk .refl rfl
  split
  · exact .desk .refl rfl
  rcases attempt_check ca (nodeMacOf nodeMac) _ with ⟨e, h⟩ | ⟨mac, hmac, h⟩ <;> rw [h]
  · exact .desk .refl rfl
  rcases ca.attempt_evictExpired commits.onTheWay _ with h | h <;> rw [h]
  · exact .desk .refl rfl
  rcases attempt_check ca.swept (ca.swept.approvable k mac) _ with ⟨e, h⟩ | ⟨id, hid, h⟩ <;>
    rw [h]
  · exact .desk ca.desk_swept rfl
  · exact .approve (mac_of_nodeMacOf hmac) hid

theorem desk_authenticate (username password code : String) :
    Desk ca { ca with log := (ca.authenticate cr username password code).2 } := by
  unfold authenticate
  split <;> exact ⟨rfl, rfl, rfl, rfl, rfl, fun _ h _ _ => h⟩

theorem effect_authenticateUser (commits : Commits) (username password code : String)
    (e x : Bytes) :
    Effect k cr ca (.authenticateUser username password code e x)
      (.session (ca.authenticateUser k cr commits username password code e x).1)
      (ca.authenticateUser k cr commits username password code e x).2 := by
  unfold authenticateUser
  split
  · exact .desk .refl rfl
  rcases attempt_check ca (fixed 32 e "ed_pubkey") _ with ⟨_, h⟩ | ⟨ed, hed, h⟩ <;> rw [h]
  · exact .desk .refl rfl
  rcases attempt_check ca (k.x25519PubkeyOf x) _ with ⟨_, h⟩ | ⟨xp, hx, h⟩ <;> rw [h]
  · exact .desk .refl rfl
  dsimp only
  rcases ca.attempt_mutate commits.onTheWay _ _ with h | h <;> rw [h]
  · exact .desk .refl rfl
  have hdesk : Desk ca { ca with log := (ca.authenticate cr username password code).2 } :=
    desk_authenticate username password code
  split
  · exact .desk hdesk rfl
  rename_i user huser
  rcases attempt_check _ (checkSessionTtl user.sessionTtlSecs ca.allowUnboundedCertTtl) _ with
    ⟨_, h⟩ | ⟨_, httl, h⟩ <;> rw [h]
  · exact .desk hdesk rfl
  · refine .session hdesk ?_ rfl
    rw [Op.session, hed, hx, huser]
    simp [Except.toOption, httl]

theorem effect_revoke (commits : Commits) (nodeMac : Bytes) :
    Effect k cr ca (.revoke nodeMac) (.revocation (ca.revoke k commits nodeMac).1)
      (ca.revoke k commits nodeMac).2 := by
  unfold revoke
  split
  · exact .desk .refl rfl
  rcases attempt_check ca (nodeMacOf nodeMac) _ with ⟨_, h⟩ | ⟨mac, hmac, h⟩ <;> rw [h]
  · exact .desk .refl rfl
  dsimp only
  rcases ca.attempt_mutate commits.final _ _ with h | h <;> rw [h]
  · exact .desk .refl rfl
  · exact .revoke (mac_of_nodeMacOf hmac) rfl

/-- Ending sessions writes their records and marks, and what else the call changes. -/
theorem effect_revokeSessions {op : Op} {reply : Reply} (hreply : reply.cert? = none)
    (commits : Bool) (sessions : List (Mac × Nat)) {change : CaLog → CaLog}
    (hchange : ∀ log, ∃ users, change log = { log with users := users }) :
    Effect k cr ca op reply (ca.revokeSessions k commits sessions change).2 := by
  unfold revokeSessions
  split
  · exact .desk .refl hreply
  dsimp only
  rcases ca.attempt_mutate commits _ _ with h | h <;> rw [h]
  · exact .desk .refl hreply
  · obtain ⟨users, husers⟩ := hchange ((ca.log.recordRevocations
      (sessions.map fun s => ca.authority.revoke k s.1 ca.nowUnix s.2) ca.nowUnix).markRevoked
        (sessions.map Prod.fst))
    rw [husers]
    exact .endSessions hreply

theorem effect_revokeUserSessions (commits : Commits) (username : String) :
    Effect k cr ca (.revokeUserSessions username)
      (.revocations (ca.revokeUserSessions k commits username).1)
      (ca.revokeUserSessions k commits username).2 := by
  unfold revokeUserSessions
  rcases attempt_check ca (ca.accountIdOf username) _ with ⟨_, h⟩ | ⟨account, _, h⟩ <;> rw [h]
  · exact .desk .refl rfl
  · exact effect_revokeSessions rfl _ _ fun log => ⟨log.users, rfl⟩

theorem effect_removeUser (commits : Commits) (username : String) :
    Effect k cr ca (.removeUser username) (.revocations (ca.removeUser k commits username).1)
      (ca.removeUser k commits username).2 := by
  unfold removeUser
  rcases attempt_check ca (ca.refuseToStrandTheMesh username "remove") _ with
    ⟨_, h⟩ | ⟨_, _, h⟩ <;> rw [h]
  · exact .desk .refl rfl
  rcases attempt_check ca (ca.accountIdOf username) _ with ⟨_, h⟩ | ⟨account, _, h⟩ <;> rw [h]
  · exact .desk .refl rfl
  · exact effect_revokeSessions rfl _ _ fun log => ⟨_, rfl⟩

theorem effect_setUserRole (commits : Commits) (username : String) (role : UserRole) :
    Effect k cr ca (.setUserRole username role)
      (.changed (ca.setUserRole k commits username role).1)
      (ca.setUserRole k commits username role).2 := by
  unfold setUserRole
  rcases attempt_check ca (if role = .viewer then ca.refuseToStrandTheMesh username "demote"
    else .ok ()) _ with ⟨_, h⟩ | ⟨_, _, h⟩ <;> rw [h]
  · exact .desk .refl rfl
  rcases attempt_check ca (ca.userRecord username) _ with ⟨_, h⟩ | ⟨user, _, h⟩ <;> rw [h]
  · exact .desk .refl rfl
  split
  · exact .desk .refl rfl
  · dsimp only
    rw [attempt_ok]
    exact effect_revokeSessions rfl _ _ fun log => ⟨_, rfl⟩

theorem effect_setUserEnabled (commits : Commits) (username : String) (enabled : Bool) :
    Effect k cr ca (.setUserEnabled username enabled)
      (.changed (ca.setUserEnabled k commits username enabled).1)
      (ca.setUserEnabled k commits username enabled).2 := by
  unfold setUserEnabled
  rcases attempt_check ca (if enabled then .ok () else
    ca.refuseToStrandTheMesh username "disable") _ with ⟨_, h⟩ | ⟨_, _, h⟩ <;> rw [h]
  · exact .desk .refl rfl
  rcases attempt_check ca (ca.userRecord username) _ with ⟨_, h⟩ | ⟨user, _, h⟩ <;> rw [h]
  · exact .desk .refl rfl
  dsimp only
  split
  · exact .desk .refl rfl
  · rw [attempt_ok]
    exact effect_revokeSessions rfl _ _ fun log => ⟨_, rfl⟩

theorem effect_perform (k : Crypto) (cr : Credentials) (ca : CertAuthority) (commits : Commits)
    (op : Op) : Effect k cr ca op (ca.perform k cr commits op).1 (ca.perform k cr commits op).2 := by
  cases op with
  | submitCsr m e x token => exact effect_submitCsr commits m e x token
  | renewHolder m e x => exact effect_renewHolder commits m e x
  | approveCsr m ttl => exact effect_approveCsr commits m ttl
  | denyCsr m => exact .desk (desk_denyCsr commits m) rfl
  | authenticateUser user password code e x =>
    exact effect_authenticateUser commits user password code e x
  | setEnrollmentPolicy update => exact .desk (desk_setEnrollmentPolicy commits update) rfl
  | revoke m => exact effect_revoke commits m
  | revokeUserSessions user => exact effect_revokeUserSessions commits user
  | removeUser user => exact effect_removeUser commits user
  | setUserRole user role => exact effect_setUserRole commits user role
  | setUserEnabled user enabled => exact effect_setUserEnabled commits user enabled
  | manageUsers users =>
    rcases ca.mutate_cases commits.final fun log => { log with users := users } with h | h <;>
      rw [perform, h]
    · exact .desk ⟨rfl, rfl, rfl, rfl, rfl, fun _ h _ _ => h⟩ rfl
    · exact .desk .refl rfl
  | restart cfg => exact .desk (desk_restart cfg) rfl

theorem serve_effect (k : Crypto) (cr : Credentials) (ca : CertAuthority) (req : Request) :
    Effect k cr (ca.setNowUnix req.now) req.op (ca.serve k cr req).1 (ca.step k cr req) :=
  effect_perform k cr (ca.setNowUnix req.now) req.commits req.op

end Effects

/-! ### The acts -/

section Acts
variable {k : Crypto} {cr : Credentials} {ca : CertAuthority}

/-- The authority once a certificate is signed, its record written or not. -/
theorem issue_cases (commits : Bool) (id : Identity) (ttlSecs : Option Nat) :
    let signed := ca.sign k id (ttlSecs.getD ca.certTtlSecs)
    ca.issue k commits id ttlSecs = (.error notRecorded, ca.noteSigned signed.1) ∨
      ca.issue k commits id ttlSecs = (.ok ⟨signed.1, ca.authority.trustAnchor k⟩,
        { ca.noteSigned signed.1 with log := ca.log.recordIssued signed.2 }) := by
  exact attempt_mutate _ commits _ _

theorem recordApproval_cases (commits : Bool) (id : Identity) (ttlSecs : Nat) :
    let signed := ca.sign k id ttlSecs
    ca.recordApproval k commits id ttlSecs = (.error notRecorded, ca.noteSigned signed.1) ∨
      ca.recordApproval k commits id ttlSecs = (.ok (),
        CertAuthority.noteApproved { ca.noteSigned signed.1 with
          log := { ca.log.recordIssued signed.2 with
            held := ca.settle id.nodeMac (.approved signed.1) ca.log.held } } id) := by
  exact attempt_mutate _ commits _ _

theorem recordSession_cases (commits : Bool) (ed x : Octets 32) (user : UserRecord) :
    let signed := ca.signUserSession k ⟨k.deriveMac ed, ed, x⟩ user.sessionTtlSecs user.role user.id
    (ca.recordSession k commits ed x user).2 = ca.noteSigned signed.1 ∨
      (ca.recordSession k commits ed x user).2 = CertAuthority.noteSession
        { ca.noteSigned signed.1 with
          log := CaLog.recordIssued
            { ca.log with
              issued := ca.log.issued.filter fun c => !(c.user && c.notAfter ≤ ca.nowUnix) }
            signed.2 } user.id signed.1 := by
  rcases attempt_mutate (ca.noteSigned _) commits _ _ with h | h
  · exact Or.inl (congrArg Prod.snd h)
  · exact Or.inr (congrArg Prod.snd h)

theorem bound_of_checkMacDerivesFrom {mac : Mac} {ed : Octets 32}
    (h : k.checkMacDerivesFrom mac ed = .ok ()) : k.deriveMac ed = mac := by
  unfold Crypto.checkMacDerivesFrom at h
  split at h
  · assumption
  · cases h

/-- Whoever is answered by the log presents an address its key derives. -/
theorem Op.identity_bound {op : Op} {id : Identity} (h : op.identity k ca = some id) :
    k.deriveMac id.edPubkey = id.nodeMac := by
  cases op with
  | submitCsr m e x token =>
    obtain ⟨_, _, h⟩ := exists_of_bind_ok (ok_of_toOption h)
    obtain ⟨mac, _, h⟩ := exists_of_bind_ok h
    obtain ⟨ed, _, h⟩ := exists_of_bind_ok h
    obtain ⟨xp, _, h⟩ := exists_of_bind_ok h
    obtain ⟨_, hbound, h⟩ := exists_of_bind_ok h
    obtain rfl := Except.ok.inj h
    exact bound_of_checkMacDerivesFrom (ok_of_mapError hbound)
  | renewHolder m e x =>
    obtain ⟨mac, _, h⟩ := exists_of_bind_ok (ok_of_toOption h)
    obtain ⟨ed, _, h⟩ := exists_of_bind_ok h
    obtain ⟨xp, _, h⟩ := exists_of_bind_ok h
    obtain ⟨_, hbound, h⟩ := exists_of_bind_ok h
    obtain rfl := Except.ok.inj h
    exact bound_of_checkMacDerivesFrom (ok_of_mapError hbound)
  | _ => cases h

/-- What an operator approves is a pending row, under the address its key derives. -/
theorem approvable_ok {mac : Mac} {id : Identity} (h : ca.approvable k mac = .ok id) :
    id.nodeMac = mac ∧ k.deriveMac id.edPubkey = mac ∧ ∃ h ∈ ca.log.held, h.nodeMac = mac ∧
      h.status = .pending ∧ h.edPubkey = id.edPubkey ∧ h.xPubkey = id.xPubkey := by
  obtain ⟨held, hheld, h⟩ := exists_of_bind_ok h
  obtain ⟨_, hbound, h⟩ := exists_of_bind_ok h
  obtain ⟨_, _, h⟩ := exists_of_bind_ok h
  obtain rfl := Except.ok.inj h
  refine ⟨rfl, bound_of_checkMacDerivesFrom hbound, ?_⟩
  unfold pendingCsr at hheld
  cases hfind : ca.log.held.find? fun h => h.nodeMac = mac && h.status = .pending with
  | none =>
    rw [hfind] at hheld
    cases hheld
  | some row =>
    rw [hfind] at hheld
    obtain rfl := Except.ok.inj hheld
    have hrow : row.nodeMac = mac ∧ row.status = .pending := by
      simpa using List.find?_some hfind
    exact ⟨row, List.mem_of_find?_eq_some hfind, hrow.1, hrow.2, rfl, rfl⟩

/-- A certificate the root has just signed, for an address its key derives. -/
structure FreshlySigned (k : Crypto) (ca : CertAuthority) (s : Nat × MembershipCert) : Prop where
  time : s.1 = ca.nowUnix
  signed : ∃ (id : Identity) (notAfter : Nat) (flags : U8),
    k.deriveMac id.edPubkey = id.nodeMac ∧ s.2 = ca.authority.issueWithFlags k id.nodeMac
      id.edPubkey id.xPubkey ca.nowUnix notAfter flags

theorem mem_signed_of_desk {ca₁ : CertAuthority} (hdesk : Desk ca ca₁) {cert : MembershipCert}
    (hcert : FreshlySigned k ca₁ (ca₁.nowUnix, cert)) :
    ∀ s ∈ (ca₁.noteSigned cert).history.signed,
      s ∈ ca.history.signed ∨ FreshlySigned k ca s := by
  intro s hs
  rcases List.mem_cons.mp hs with rfl | hs
  · refine Or.inr ⟨hdesk.nowUnix, ?_⟩
    rw [← hdesk.authority, ← hdesk.nowUnix]
    exact hcert.signed
  · rw [hdesk.history] at hs
    exact Or.inl hs

theorem sign_fresh {id : Identity} (hbound : k.deriveMac id.edPubkey = id.nodeMac)
    (ttlSecs : Nat) : FreshlySigned k ca (ca.nowUnix, (ca.sign k id ttlSecs).1) :=
  ⟨rfl, id, _, _, hbound, rfl⟩

theorem signUserSession_fresh (id : Identity) (hbound : k.deriveMac id.edPubkey = id.nodeMac)
    (ttlSecs : Nat) (role : UserRole) (account : AccountId) :
    FreshlySigned k ca (ca.nowUnix, (ca.signUserSession k id ttlSecs role account).1) :=
  ⟨rfl, id, _, _, hbound, rfl⟩

/-- A request leaves the root as it is, and has it sign what it may. -/
theorem Effect.signed {op : Op} {reply : Reply} {ca' : CertAuthority}
    (h : Effect k cr ca op reply ca') :
    ca'.authority = ca.authority ∧ ∀ s ∈ ca'.history.signed,
      s ∈ ca.history.signed ∨ FreshlySigned k ca s := by
  cases h with
  | desk h => exact ⟨h.authority, fun s hs => Or.inl (h.history ▸ hs)⟩
  | collect => exact ⟨rfl, fun s hs => Or.inl hs⟩
  | @issue _ _ ca₁ id ttlSecs commits hdesk hid =>
    have hfresh := mem_signed_of_desk hdesk (sign_fresh (Op.identity_bound hid) (ttlSecs.getD ca₁.certTtlSecs))
    rcases ca₁.issue_cases (k := k) commits id ttlSecs with h | h <;> rw [h]
    · exact ⟨hdesk.authority, hfresh⟩
    · exact ⟨hdesk.authority, hfresh⟩
  | @approve _ _ mac id ttlSecs commits _ hid =>
    obtain ⟨rfl, hbound, _⟩ := approvable_ok hid
    have hfresh := mem_signed_of_desk ca.desk_swept (sign_fresh hbound ttlSecs)
    rcases ca.swept.recordApproval_cases (k := k) commits id ttlSecs with h | h <;> rw [h]
    · exact ⟨rfl, hfresh⟩
    · exact ⟨rfl, hfresh⟩
  | @session _ _ ca₁ ed x user commits hdesk =>
    have hfresh := mem_signed_of_desk hdesk
      (signUserSession_fresh ⟨k.deriveMac ed, ed, x⟩ rfl user.sessionTtlSecs user.role
        user.id)
    rcases ca₁.recordSession_cases (k := k) commits ed x user with h | h <;> rw [h]
    · exact ⟨hdesk.authority, hfresh⟩
    · exact ⟨hdesk.authority, hfresh⟩
  | revoke hmac => exact ⟨rfl, fun s hs => Or.inl hs⟩
  | endSessions => exact ⟨rfl, fun s hs => Or.inl hs⟩

end Acts

/-! ### Whole runs -/

/-- What `ed25519` promises of a key pair: what it signs verifies. -/
def SignsFor (k : Crypto) (root : Keypair) : Prop :=
  ∀ msg, k.verifySignature (k.edPubkey root) msg (k.sign root msg) = true

/-- The clock is usable throughout, and never runs backwards. -/
def Timely (reqs : List Request) : Prop :=
  (∀ req ∈ reqs, 0 < req.now ∧ req.now < 2 ^ 64) ∧
    reqs.Pairwise fun req req' => req.now ≤ req'.now

instance (reqs : List Request) : Decidable (Timely reqs) :=
  inferInstanceAs (Decidable (_ ∧ _))

/-- The authority after it has served some requests. -/
def after (k : Crypto) (cr : Credentials) (ca : CertAuthority) (reqs : List Request) :
    CertAuthority :=
  Run.run (step k cr) ca reqs

section Runs
variable {k : Crypto} {cr : Credentials} {ca : CertAuthority} {reqs : List Request}

theorem issueWithFlags_issued {a : Authority} (hsigns : SignsFor k a.root) {id : Identity}
    (hbound : k.deriveMac id.edPubkey = id.nodeMac) (notBefore notAfter : Nat) (flags : U8) :
    (a.trustAnchor k).Issued k (a.issueWithFlags k id.nodeMac id.edPubkey id.xPubkey notBefore
      notAfter flags) where
  version := rfl
  mesh := Be32.get_ofU32 a.meshId
  signed := hsigns _
  unreserved := by
    rw [← hbound]
    exact k.deriveMac_unreserved id.edPubkey
  bound := hbound

/-- Every certificate signed so far is the anchor's, and its window opens in the second it
was signed in. -/
def SignedByAnchor (k : Crypto) (a : Authority) (ca : CertAuthority) : Prop :=
  ca.authority = a ∧ ∀ s ∈ ca.history.signed,
    (a.trustAnchor k).Issued k s.2 ∧ s.2.notBefore.get = s.1

theorem signedByAnchor_step {a : Authority} (hsigns : SignsFor k a.root)
    (h : SignedByAnchor k a ca) {req : Request} (hnow : req.now < 2 ^ 64) :
    SignedByAnchor k a (ca.step k cr req) := by
  obtain ⟨hauthority, hsigned⟩ := (serve_effect k cr ca req).signed
  refine ⟨hauthority.trans h.1, ?_⟩
  intro s hs
  rcases hsigned s hs with hs | hs
  · exact h.2 s hs
  · obtain ⟨id, notAfter, flags, hbound, hcert⟩ := hs.signed
    have hroot : (ca.setNowUnix req.now).authority = a := h.1
    rw [hcert, hroot, hs.time]
    exact ⟨issueWithFlags_issued hsigns hbound _ _ _, Be64.get_ofNat hnow⟩

theorem signedByAnchor_after {a : Authority} (hsigns : SignsFor k a.root)
    (h : SignedByAnchor k a ca) (hclock : Timely reqs) :
    SignedByAnchor k a (ca.after k cr reqs) := by
  induction reqs using List.reverseRecOn with
  | nil => exact h
  | append_singleton reqs req ih =>
    obtain ⟨husable, horder⟩ := hclock
    rw [after, Run.run_append_singleton]
    refine signedByAnchor_step hsigns (ih ⟨?_, ?_⟩) (husable req (by simp)).2
    · intro req' hreq'
      exact husable req' (List.mem_append_left _ hreq')
    · exact (List.pairwise_append.mp horder).1

theorem signedByAnchor_fromConfig {a : Authority} {cfg : ProviderConfig} {t₀ : Nat}
    (h : fromConfig a cfg none t₀ = .ok ca) : SignedByAnchor k a ca := by
  obtain ⟨_, _, h⟩ := exists_of_bind_ok h
  obtain rfl := Except.ok.inj h
  exact ⟨rfl, fun s hs => by cases hs⟩

/-- A revocation that succeeds is the root's, from now on, for the lifetime in force. -/
theorem revoke_ok {commits : Commits} {mac : Mac} {r : RevocationRecord}
    (h : (ca.revoke k commits mac.asBytes).1 = .ok r) :
    r = ca.authority.revoke k mac ca.nowUnix (saturatingAdd64 ca.nowUnix ca.certTtlSecs) := by
  unfold revoke at h
  split at h
  · cases h
  rw [show nodeMacOf mac.asBytes = .ok mac by simp [nodeMacOf]] at h
  dsimp only [attempt] at h
  rcases ca.mutate_cases commits.final _ with hm | hm <;> rw [hm] at h
  · exact (Except.ok.inj h).symm
  · cases h

end Runs

/-- From the second `t` on a certificate is refused as expired, or the record cancels it. -/
def EndedBy (k : Crypto) (anchor : TrustAnchor) (r : RevocationRecord) (cert : MembershipCert)
    (t : Nat) : Prop :=
  ∀ t', t ≤ t' → anchor.verifyCert k cert (.at t') = .error .expired ∨
    r.cancelsCertFor cert.nodeMac cert.notBefore.get t' = true

theorem verifyCert_expired_iff {k : Crypto} {anchor : TrustAnchor} {cert : MembershipCert}
    {t : Nat} (hissued : anchor.Issued k cert) (hbegun : cert.notBefore.get ≤ t) :
    anchor.verifyCert k cert (.at t) = .error .expired ↔ cert.notAfter.get < t := by
  have hstarted : ¬ t < cert.notBefore.get := by omega
  simp [TrustAnchor.verifyCert, hissued.version, hissued.mesh, hissued.signed, hissued.unreserved,
    hissued.bound, Clocked.provesBefore, Clocked.provesPast, hstarted]

/-- A record enforced until `last` ends a certificate exactly if its window is over by
then. -/
theorem endedBy_iff {k : Crypto} {a : Authority} {cert : MembershipCert} {t last : Nat}
    (hissued : (a.trustAnchor k).Issued k cert) (hbefore : cert.notBefore.get ≤ t)
    (ht : t < 2 ^ 64) (hlast : last < 2 ^ 64) (hle : t ≤ last) :
    EndedBy k (a.trustAnchor k) (a.revoke k cert.nodeMac t last) cert t ↔
      cert.notAfter.get < last := by
  have hfrom : (a.revoke k cert.nodeMac t last).notBefore.get = t := Be64.get_ofNat ht
  have huntil : (a.revoke k cert.nodeMac t last).notAfter.get = last := Be64.get_ofNat hlast
  constructor
  · intro h
    -- The last second to ask about is the first in which the record is not enforced.
    rcases h last hle with h | h
    · exact (verifyCert_expired_iff hissued (Nat.le_trans hbefore hle)).mp h
    · rw [RevocationRecord.cancelsCertFor, hfrom, huntil] at h
      simp at h
  · intro hend t' ht'
    by_cases hin : t' < last
    · right
      rw [RevocationRecord.cancelsCertFor, RevocationRecord.namesCert, hfrom, huntil]
      simp [hbefore, ht', hin, Authority.revoke]
    · left
      exact (verifyCert_expired_iff hissued (Nat.le_trans hbefore ht')).mpr (by omega)

/-- A revocation ends every certificate of the address signed by then exactly if each of
them was given an end before now plus the lifetime the policy names now. -/
theorem revocation_outlives_iff (k : Crypto) (cr : Credentials) (a : Authority)
    (hsigns : SignsFor k a.root) (cfg : ProviderConfig) (t₀ : Nat) (start : CertAuthority)
    (hstart : fromConfig a cfg none t₀ = .ok start) (before later : List Request) (t : Nat)
    (commits : Commits) (mac : Mac) (r : RevocationRecord)
    (hclock : Timely (before ++ ⟨t, commits, .revoke mac.asBytes⟩ :: later))
    (hrevoke : ((start.after k cr before).serve k cr ⟨t, commits, .revoke mac.asBytes⟩).1 =
      .revocation (.ok r)) :
    (∀ s ∈ (start.after k cr
        (before ++ ⟨t, commits, .revoke mac.asBytes⟩ :: later)).history.signed,
      s.2.nodeMac = mac → s.1 ≤ t → EndedBy k (a.trustAnchor k) r s.2 t) ↔
    (∀ s ∈ (start.after k cr
        (before ++ ⟨t, commits, .revoke mac.asBytes⟩ :: later)).history.signed,
      s.2.nodeMac = mac → s.1 ≤ t →
        s.2.notAfter.get < saturatingAdd64 t (start.after k cr before).certTtlSecs) := by
  have hinit : SignedByAnchor k a start := signedByAnchor_fromConfig hstart
  have ht : t < 2 ^ 64 := (hclock.1 ⟨t, commits, .revoke mac.asBytes⟩ (by simp)).2
  have hbeforeClock : Timely before :=
    ⟨fun req hreq => hclock.1 req (List.mem_append_left _ hreq),
      (List.pairwise_append.mp hclock.2).1⟩
  have hroot : (start.after k cr before).authority = a :=
    (signedByAnchor_after hsigns hinit hbeforeClock).1
  obtain ⟨_, hsigned⟩ := signedByAnchor_after hsigns hinit hclock
  have hr : r = a.revoke k mac t (saturatingAdd64 t (start.after k cr before).certTtlSecs) := by
    have hok : (((start.after k cr before).setNowUnix t).revoke k commits mac.asBytes).1 =
        .ok r := by
      simpa [serve, perform] using hrevoke
    rw [revoke_ok hok, ← hroot]
    rfl
  have hexact : ∀ s ∈ (start.after k cr
      (before ++ ⟨t, commits, .revoke mac.asBytes⟩ :: later)).history.signed,
      s.2.nodeMac = mac → s.1 ≤ t → (EndedBy k (a.trustAnchor k) r s.2 t ↔
        s.2.notAfter.get < saturatingAdd64 t (start.after k cr before).certTtlSecs) := by
    intro s hs hmac hle
    obtain ⟨hissued, hopens⟩ := hsigned s hs
    rw [hr, ← hmac]
    exact endedBy_iff hissued (hopens ▸ hle) ht (saturatingAdd64_lt _ _)
      (le_saturatingAdd64 ht _)
  constructor
  · intro h s hs hmac hle
    exact (hexact s hs hmac hle).mp (h s hs hmac hle)
  · intro h s hs hmac hle
    exact (hexact s hs hmac hle).mpr (h s hs hmac hle)

end CertAuthority

namespace SmallMesh

/-! ### The authority of the small mesh

The root of seed 1 in provider mode, its clock at `1800000000` and what follows, and what
its key signs in these runs. -/

def root : Authority := ⟨keypair 1, anchor.meshId⟩

def epoch : Nat := 1800000000

def id2 : Identity := cert2.identity
def id4 : Identity := cert4.identity

/-- A certificate for a window counted from the epoch. -/
def certOf (id : Identity) (notBefore notAfter : Nat) (flags : U8) (signature : Octets 64) :
    MembershipCert :=
  ⟨certVersion, flags, meshId, id.nodeMac, id.edPubkey, id.xPubkey, .ofNat (epoch + notBefore),
    .ofNat (epoch + notAfter), signature⟩

/-- Node 2, approved for the hour the policy names. -/
def hour2 : MembershipCert := certOf id2 10 3610 certFlagMember (signatureOf
  0x5812601abdb9dad5b1d5bd07f9a64a6286fee6b938914512b5677c1c9835aea8
  0x40bb8191dae9699fce346047738d99efe97e51988b3c922b6c173f580bbd200f)

/-- Node 2, approved for two hours of its own. -/
def twoHours2 : MembershipCert := certOf id2 10 7210 certFlagMember (signatureOf
  0xb1ac9bc4347f7231777c7ece20affc918df126adc08913e2404b70d72258d11e
  0x5437765c353dde25940a19cb3326fdfebd53c54ac2fb2e1bd123cd92e9ab380e)

def ejected2 : RevocationRecord := revocationOf2 (epoch + 100) (epoch + 3700) (signatureOf
  0x85cf0ec59ac29e2b7ed45c5743913a3ec34fbf927f3a68ed64ea9a23696aff11
  0xb345ac94dcba21a7006d422c965e0b5e20a707a2b0ff88fb8def5724dbe02102)

/-- Node 2, enrolled by a policy that asks nobody. -/
def auto2 : MembershipCert := certOf id2 0 3600 certFlagMember (signatureOf
  0x323eb587c036e1bfc1a7cf048968e1709542b1e634926d2c6ada90acf5b3a00c
  0x94d4d3891bfb56725b0bb887112a856ac2e5b4e2c662dea054206bba10444e01)

/-- Node 2, enrolled again inside its hour. -/
def reissued2 : MembershipCert := certOf id2 20 3620 certFlagMember (signatureOf
  0x64cfa44a4782dd9d7de95d534c0564bf5d3daa3394f1f3eadbb584424be93e6a
  0xf747367663e9527e486a976619d7193ee9177cd9fc55c6c5e41a2728a647020d)

/-- Node 2's address and signing key, with node 4's key for agreement. -/
def swapped2 : MembershipCert := certOf { id2 with xPubkey := id4.xPubkey } 20 3620 certFlagMember
  (signatureOf
    0xda92a0e370e813f1e5fdff53943d0fb255255be3e6cf7851d78a64191ecedad1
    0x1c8d2eb59bc6877cd50085cb51a87d62f746994235754ace6eba3985ec9d3503)

def session2 : MembershipCert := certOf id2 200 29000 (certFlagUser ||| certFlagViewer) (signatureOf
  0x68e0a06b7cbc29d8cb87ee8d1d42d4ab5f521cec7007a8e5314fa5317a3e6813
  0xda6ea0bab34be435112c67d57caa58deeb74e854e28a8be162eaf3438891f70e)

/-- Node 2, renewed on the record of that session. -/
def renewed2 : MembershipCert := certOf id2 300 29100 certFlagMember (signatureOf
  0xbf5c8f28ca666b098565f839d66066faabd7d82f417c6a0da7d09c48ea7474a8
  0xeb5c3ae59967598a7c6b7c227e7a0ec25d4c3763f85e90a1be345a1f1921700f)

def session4 : MembershipCert := certOf id4 0 28800 (certFlagUser ||| certFlagViewer) (signatureOf
  0x839ec376be0f658fa3432d1b7a2d4c7be8477ee9c1dc69df74fc0f39bce96406
  0xeaba376f58248dc94d0ca71c0718f12a15009c49a5ed3ebc79f55e4b2b2ce00f)

/-- Node 4, which nobody approved, renewed on the record of its session. -/
def renewed4 : MembershipCert := certOf id4 20 28820 certFlagMember (signatureOf
  0xde23e369b786fde2dbdd32b8c50cd29d4be58088ace5606917861c55840d0d3b
  0xd7bae5705c4d83fe78b499ace68a145df16600060d4c7519f73bce2ff430d905)

/-- The session of node 2's key, ended with its window. -/
def ended2 : RevocationRecord := revocationOf2 (epoch + 400) (epoch + 29000) (signatureOf
  0xba940f774358188fc34ecbed6c5fd41c314c9cdd32123740417ed68298be6f68
  0xe1f68aa7e40bba64d0bc7cc15ff685771e4fea842629c76192c9407c1586da0e)

/-- Node 2, revoked for the day a policy of days names. -/
def dayEjected2 : RevocationRecord := revocationOf2 (epoch + 400) (epoch + 86800) (signatureOf
  0xb10d0fd7554f277c3170ead3b74e6310b2eec8dd0062f07400d763a608aa7959
  0x7b720e432fe6389a317e1be4f28e20ee08a07e23f1924873742ace1fd2eef406)

def rootSignatures : List (Bytes × Octets 64) :=
  [hour2, twoHours2, auto2, reissued2, swapped2, session2, renewed2, session4, renewed4].map
    (fun cert => (cert.signedBody, cert.signature)) ++
  [ejected2, ended2, dayEjected2].map fun record => (record.signedBody, record.signature)

def rootSign (msg : Bytes) : Octets 64 :=
  ((rootSignatures.find? fun s => s.1 = msg).map Prod.snd).getD (.zero 64)

/-- The primitives with the root's own key added. -/
def rootCrypto : Crypto where
  verifySignature pubkey msg signature := (pubkey = anchor.rootPubkey ∧ signature = rootSign msg) ∨
    crypto34.verifySignature pubkey msg signature = true
  sign key msg := if key = keypair 1 then rootSign msg else crypto34.sign key msg
  blake2s256 := crypto34.blake2s256
  edPubkey key := if key = keypair 1 then anchor.rootPubkey else crypto34.edPubkey key
  xPubkey := crypto34.xPubkey
  diffieHellman := crypto34.diffieHellman
  low_order := crypto34.low_order
  own_key := crypto34.own_key

theorem root_signs : CertAuthority.SignsFor rootCrypto root.root := by
  intro msg
  simp [rootCrypto, root]

/-- No account of these runs has a second factor. -/
def accounts : Credentials where
  verifyPassword hash password := hash =
    "$argon2id$v=19$m=256,t=2,p=1$c29tZXNhbHQ$nf65EOgLrQMR/uIPnA4rEsF5h7TKyQwu9U1bMCHGi/4" &&
      password = "password"
  hmacSha1 _ _ := .zero 20

/-- An hour for every certificate, an operator for every request. -/
def provider : ProviderConfig := ⟨3600, none, false, false, 3600⟩

/-- The authority as a configuration starts it, over an empty log. -/
def started (cfg : ProviderConfig) : CertAuthority :=
  CertAuthority.applyPolicyOverrides
    ⟨root, cfg.certTtlSecs, cfg.allowUnboundedCertTtl, cfg.enrollmentToken, cfg.autoApprove,
      cfg.pendingTtlSecs, epoch, .empty, ⟨[], [], []⟩⟩

/-- A request so many seconds from the epoch, which the store takes. -/
def atSecs (secs : Nat) (op : CertAuthority.Op) : CertAuthority.Request :=
  ⟨epoch + secs, ⟨true, true⟩, op⟩

def submits (id : Identity) : CertAuthority.Op :=
  .submitCsr id.nodeMac.asBytes id.edPubkey.toList id.xPubkey.toList ""

def renews (id : Identity) : CertAuthority.Op :=
  .renewHolder id.nodeMac.asBytes id.edPubkey.toList id.xPubkey.toList

def userId : Octets 16 := ⟨List.replicate 16 7, rfl⟩

/-- An account that signs in for eight hours at a time. -/
def viewer : UserRecord :=
  ⟨userId, "alice",
    "$argon2id$v=19$m=256,t=2,p=1$c29tZXNhbHQ$nf65EOgLrQMR/uIPnA4rEsF5h7TKyQwu9U1bMCHGi/4", none,
    0, 0, 0, .viewer, 28800, false⟩

def signsIn (id : Identity) : CertAuthority.Op :=
  .authenticateUser "alice" "password" "" id.edPubkey.toList id.xPubkey.toList

/-- Node 2 asks, and is approved for a lifetime. -/
def approval2 (ttl : Option Nat) : List CertAuthority.Request :=
  [atSecs 0 (submits id2), atSecs 10 (.approveCsr mac2.asBytes ttl)]

def revoke2 : CertAuthority.Request := atSecs 100 (.revoke mac2.asBytes)

theorem revocation_outlives_iff_hour2 :
    CertAuthority.EndedBy rootCrypto (root.trustAnchor rootCrypto) ejected2 hour2
      (epoch + 100) := by
  have hiff := CertAuthority.revocation_outlives_iff rootCrypto accounts root root_signs provider
    epoch (started provider) rfl (approval2 none) [] (epoch + 100) ⟨true, true⟩ mac2 ejected2
    (by decide +kernel) (by decide +kernel)
  exact hiff.mpr (by decide +kernel) (epoch + 10, hour2) (by decide +kernel) rfl (by decide)

/-- Node 2 was approved for two hours. The hour its revocation is enforced for ends first,
and then nothing keeps its certificate out. -/
theorem revocation_outlived :
    CertAuthority.fromConfig root provider none epoch = .ok (started provider) ∧
      CertAuthority.Timely (approval2 (some 7200) ++ [revoke2]) ∧
      (((started provider).after rootCrypto accounts (approval2 (some 7200))).serve rootCrypto
        accounts revoke2).1 = .revocation (.ok ejected2) ∧
      (epoch + 10, twoHours2) ∈ ((started provider).after rootCrypto accounts
        (approval2 (some 7200) ++ [revoke2])).history.signed ∧
      (root.trustAnchor rootCrypto).verifyCert rootCrypto twoHours2 (.at (epoch + 3700)) =
        .ok twoHours2.facts ∧
      ejected2.cancelsCertFor twoHours2.nodeMac twoHours2.notBefore.get (epoch + 3700) = false ∧
      ¬ CertAuthority.EndedBy rootCrypto (root.trustAnchor rootCrypto) ejected2 twoHours2
        (epoch + 100) := by
  have hvalid : (root.trustAnchor rootCrypto).verifyCert rootCrypto twoHours2
      (.at (epoch + 3700)) = .ok twoHours2.facts := by decide +kernel
  have hopen : ejected2.cancelsCertFor twoHours2.nodeMac twoHours2.notBefore.get (epoch + 3700) =
      false := by decide +kernel
  refine ⟨rfl, by decide +kernel, by decide +kernel, by decide +kernel, hvalid, hopen, ?_⟩
  intro h
  rcases h (epoch + 3700) (by decide) with h | h
  · rw [hvalid] at h
    cases h
  · rw [hopen] at h
    cases h

end SmallMesh

end Wayfinder
