import Wayfinder.Authority.Run

/-!
# Certificates and the revocations of their address

A revocation cancels what was issued for an address up to its own second. The paths that
issue look at the record of the address and at the held requests, and none of them at the
revocations on file. Where no revocation in force reaches the certificate a request is about
to give, the certificate is good; this is what every request of a run needs.
-/

namespace Wayfinder

set_option autoImplicit false

open Fallible

namespace CertAuthority

/-- The revocations still in force, for a restarted node to flood again. -/
def liveRevocations (ca : CertAuthority) : List RevocationRecord :=
  ca.log.revocations.filter fun r => ca.nowUnix < r.notAfter.get

/-- The certificate a request is answered with, or that a successful approval records. -/
def born (k : Crypto) (cr : Credentials) (ca : CertAuthority) (req : Request) :
    Option MembershipCert :=
  match req.op, (ca.serve k cr req).1 with
  | .submitCsr .., .csr (.ok (.issued data)) => some data.cert
  | .renewHolder .., .renewal (.ok (.issued cert)) => some cert
  | .authenticateUser .., .session (.ok (.issued data)) => some data.cert
  | .approveCsr .., .done (.ok ()) => (ca.step k cr req).history.signed.head?.map Prod.snd
  | _, _ => none

/-- No revocation in force for the address is dated from this second on. -/
def Clear (ca : CertAuthority) (mac : Mac) (since : Nat) : Prop :=
  ∀ r ∈ ca.liveRevocations, r.nodeMac = mac → r.notBefore.get < since

def answersAtOnce (ca : CertAuthority) (id : Identity) : Bool :=
  match ca.liveHolder id.nodeMac id.edPubkey with
  | some (sameKey, revoked, _) => sameKey && !revoked
  | none => ca.autoApprove

def onFile (ca : CertAuthority) (id : Identity) : Option MembershipCert :=
  (ca.heldFor id.nodeMac).bind fun h =>
    match h.status with
    | .approved cert => some cert
    | _ => none

/-- No revocation in force reaches what the request is about to give: not the certificate an
approval left on file for the submission that collects it, and not one that starts now. -/
def Unrevoked (k : Crypto) (cr : Credentials) (ca : CertAuthority) (req : Request) : Prop :=
  let ca := ca.setNowUnix req.now
  match req.op with
  | .submitCsr .. => ∀ id ∈ req.op.submitted k ca,
    if ca.answersAtOnce id then ca.Clear id.nodeMac ca.nowUnix
    else ∀ cert ∈ ca.swept.onFile id, ca.Clear cert.nodeMac cert.notBefore.get
  | .renewHolder .. => ∀ id ∈ req.op.identity k ca, ca.answersAtOnce id →
    ca.Clear id.nodeMac ca.nowUnix
  | .authenticateUser .. => ∀ s ∈ req.op.session k cr ca, ca.Clear (k.deriveMac s.1) ca.nowUnix
  | .approveCsr nodeMac _ => ∀ mac ∈ Mac.tryFrom nodeMac,
    (ca.swept.approvable k mac).isOk → ca.Clear mac ca.nowUnix
  | _ => True

instance decidableClear (ca : CertAuthority) (mac : Mac) (since : Nat) :
    Decidable (ca.Clear mac since) :=
  inferInstanceAs (Decidable (∀ r ∈ ca.liveRevocations, _ → _))

instance decidableUnrevoked (k : Crypto) (cr : Credentials) (ca : CertAuthority) :
    (req : Request) → Decidable (ca.Unrevoked k cr req)
  | ⟨now, _, .submitCsr m e x token⟩ =>
    inferInstanceAs (Decidable (∀ id ∈ (Op.submitCsr m e x token).submitted k (ca.setNowUnix now),
      if (ca.setNowUnix now).answersAtOnce id = true then _ else _))
  | ⟨now, _, .renewHolder m e x⟩ =>
    inferInstanceAs (Decidable (∀ id ∈ (Op.renewHolder m e x).identity k (ca.setNowUnix now),
      (ca.setNowUnix now).answersAtOnce id = true → _))
  | ⟨now, _, .authenticateUser user password code e x⟩ =>
    inferInstanceAs (Decidable (∀ s ∈
      (Op.authenticateUser user password code e x).session k cr (ca.setNowUnix now), _))
  | ⟨now, _, .approveCsr nodeMac _⟩ =>
    inferInstanceAs (Decidable (∀ mac ∈ Mac.tryFrom nodeMac,
      ((ca.setNowUnix now).swept.approvable k mac).isOk = true → _))
  | ⟨_, _, .denyCsr _⟩ | ⟨_, _, .setEnrollmentPolicy _⟩ | ⟨_, _, .revoke _⟩
  | ⟨_, _, .revokeUserSessions _⟩ | ⟨_, _, .removeUser _⟩ | ⟨_, _, .setUserRole ..⟩
  | ⟨_, _, .setUserEnabled ..⟩ | ⟨_, _, .manageUsers _⟩ | ⟨_, _, .restart _⟩ => .isTrue trivial

section Born
variable {k : Crypto} {cr : Credentials} {ca : CertAuthority}

theorem Clear.cancels_false {mac : Mac} {since : Nat} (h : ca.Clear mac since)
    {r : RevocationRecord} (hr : r ∈ ca.liveRevocations) (now : Nat) :
    r.cancelsCertFor mac since now = false := by
  unfold RevocationRecord.cancelsCertFor RevocationRecord.namesCert
  by_cases hmac : r.nodeMac = mac
  · have hbefore := h r hr hmac
    rw [decide_eq_true hmac, decide_eq_false (Nat.not_le_of_lt hbefore)]
    rfl
  · rw [decide_eq_false hmac]
    rfl

structure KeepsRevocations (ca ca' : CertAuthority) : Prop where
  revocations : ca'.log.revocations = ca.log.revocations
  nowUnix : ca'.nowUnix = ca.nowUnix

theorem KeepsRevocations.liveRevocations {ca' : CertAuthority} (h : ca.KeepsRevocations ca') :
    ca'.liveRevocations = ca.liveRevocations := by
  rw [CertAuthority.liveRevocations, h.revocations, h.nowUnix]
  rfl

theorem KeepsRevocations.clear {ca' : CertAuthority} (h : ca.KeepsRevocations ca') {mac : Mac}
    {since : Nat} (hclear : ca.Clear mac since) : ca'.Clear mac since := by
  intro r hr
  rw [h.liveRevocations] at hr
  exact hclear r hr

def StartsNow (ca : CertAuthority) (mac : Mac) (cert : MembershipCert) : Prop :=
  cert.nodeMac = mac ∧ cert.notBefore = .ofNat ca.nowUnix

theorem clear_of_startsNow (ca : CertAuthority) {mac : Mac} {cert : MembershipCert}
    (h : ca.StartsNow mac cert) (hnow : ca.nowUnix < 2 ^ 64) (hclear : ca.Clear mac ca.nowUnix) :
    ca.Clear cert.nodeMac cert.notBefore.get := by
  rw [h.1, h.2, Be64.get_ofNat hnow]
  exact hclear

theorem issue_ok {commits : Bool} {id : Identity} {ttlSecs : Option Nat} {data : EnrollData}
    (h : (ca.issue k commits id ttlSecs).1 = .ok data) :
    ca.StartsNow id.nodeMac data.cert ∧
      ca.KeepsRevocations (ca.issue k commits id ttlSecs).2 := by
  rcases ca.issue_cases (k := k) commits id ttlSecs with hcase | hcase <;> rw [hcase] at h ⊢
  · cases h
  · rw [← Except.ok.inj h]
    exact ⟨⟨rfl, rfl⟩, rfl, rfl⟩

theorem holdCsr_born {commits : Bool} {id : Identity} {data : EnrollData}
    (h : (ca.holdCsr k commits id).1 = .ok (.issued data)) :
    ca.onFile id = some data.cert ∧ (ca.holdCsr k commits id).2 = ca := by
  unfold holdCsr at h ⊢
  split at h
  · rename_i row hrow
    split at h
    · rename_i hkeys
      split at h
      · cases h
      · rename_i cert hstatus
        have hfile : ca.onFile id = some cert := by
          simp [onFile, heldFor, hrow, hstatus]
        rw [← CsrOutcome.issued.inj (Except.ok.inj h)]
        simp [hfile, hkeys]
      · cases h
    · cases h
  · split at h
    · cases h
    · rcases ca.attempt_mutate commits _ _ with hm | hm <;> rw [hm] at h <;> cases h

theorem exists_of_attempt_ok {α β : Type} {r : Except String α × CertAuthority} {f : α → β}
    {b : β} (h : (attempt r fun a ca => (.ok (f a), ca)).1 = .ok b) :
    ∃ a, r.1 = .ok a ∧ f a = b := by
  obtain ⟨x, ca⟩ := r
  cases x with
  | error e => cases h
  | ok a => exact ⟨a, rfl, Except.ok.inj h⟩

theorem answerCsr_born {commits : Bool} {id : Identity} {data : EnrollData}
    (h : (ca.answerCsr k commits id).1 = .ok (.issued data)) :
    ca.KeepsRevocations (ca.answerCsr k commits id).2 ∧
      if ca.answersAtOnce id then ca.StartsNow id.nodeMac data.cert
      else ca.onFile id = some data.cert := by
  unfold answerCsr at h ⊢
  split at h
  · cases h
  · rename_i ttlSecs hholder
    obtain ⟨data', hissue, hdata⟩ := exists_of_attempt_ok h
    obtain rfl := CsrOutcome.issued.inj hdata
    obtain ⟨hstarts, hkeeps⟩ := issue_ok hissue
    rw [answersAtOnce, hholder, attempt_ok]
    exact ⟨hkeeps, hstarts⟩
  · rename_i ttlSecs hholder
    obtain ⟨hfile, hsame⟩ := holdCsr_born h
    rw [answersAtOnce, hholder, hsame]
    exact ⟨⟨rfl, rfl⟩, hfile⟩
  · rename_i hholder
    rw [answersAtOnce, hholder]
    dsimp only
    split at h
    · rename_i hauto
      obtain ⟨data', hissue, hdata⟩ := exists_of_attempt_ok h
      obtain rfl := CsrOutcome.issued.inj hdata
      obtain ⟨hstarts, hkeeps⟩ := issue_ok hissue
      rw [if_pos hauto, if_pos hauto, attempt_ok]
      exact ⟨hkeeps, hstarts⟩
    · rename_i hauto
      obtain ⟨hfile, hsame⟩ := holdCsr_born h
      rw [if_neg hauto, if_neg hauto, hsame]
      exact ⟨⟨rfl, rfl⟩, hfile⟩

theorem submitCsr_born {commits : Commits} {m e x : Bytes} {token : String} {data : EnrollData}
    (hnow : ca.nowUnix < 2 ^ 64)
    (hsafe : ∀ id ∈ (Op.submitCsr m e x token).submitted k ca,
      if ca.answersAtOnce id then ca.Clear id.nodeMac ca.nowUnix
      else ∀ cert ∈ ca.swept.onFile id, ca.Clear cert.nodeMac cert.notBefore.get)
    (h : (ca.submitCsr k commits m e x token).1 = .ok (.issued data)) :
    ca.KeepsRevocations (ca.submitCsr k commits m e x token).2 ∧
      ca.Clear data.cert.nodeMac data.cert.notBefore.get := by
  unfold submitCsr at h ⊢
  split at h
  · cases h
  rename_i hclock
  rw [if_neg hclock]
  rcases ca.attempt_evictExpired commits.onTheWay _ with hm | hm <;> rw [hm] at h ⊢
  · cases h
  split at h
  · rename_i answer hanswer
    have hnone : (Reply.csr answer).cert? = none :=
      failsWith_checkCsr m e x token answer hanswer
    rw [show answer = .ok (.issued data) from h] at hnone
    cases hnone
  rename_i id hid
  have hpresented : (Op.submitCsr m e x token).submitted k ca = some id := by
    rw [Op.submitted, show ca.checkCsr k m e x token = .ok id from hid]
    rfl
  obtain ⟨hkeeps, hborn⟩ := answerCsr_born h
  have hsame : ca.swept.answersAtOnce id = ca.answersAtOnce id := rfl
  refine ⟨⟨hkeeps.revocations, hkeeps.nowUnix⟩, ?_⟩
  have hid := hsafe id hpresented
  rw [hsame] at hborn
  split at hborn
  · rename_i honce
    rw [if_pos honce] at hid
    exact ca.clear_of_startsNow hborn hnow hid
  · rename_i honce
    rw [if_neg honce] at hid
    exact hid data.cert hborn

theorem renewHolder_born {commits : Commits} {m e x : Bytes} {cert : MembershipCert}
    (hnow : ca.nowUnix < 2 ^ 64)
    (hsafe : ∀ id ∈ (Op.renewHolder m e x).identity k ca, ca.answersAtOnce id →
      ca.Clear id.nodeMac ca.nowUnix)
    (h : (ca.renewHolder k commits m e x).1 = .ok (.issued cert)) :
    ca.KeepsRevocations (ca.renewHolder k commits m e x).2 ∧
      ca.Clear cert.nodeMac cert.notBefore.get := by
  unfold renewHolder at h ⊢
  split at h
  · cases h
  rename_i hclock
  rw [if_neg hclock]
  split at h
  · rename_i answer hanswer
    have hnone : (Reply.renewal answer).cert? = none := failsWith_checkRenewal m e x answer hanswer
    rw [show answer = .ok (.issued cert) from h] at hnone
    cases hnone
  rename_i id hid
  have hpresented : (Op.renewHolder m e x).identity k ca = some id := by
    rw [Op.identity, hid]
    rfl
  have hid := hsafe id hpresented
  unfold answerRenewal at h ⊢
  split at h
  · cases h
  · cases h
  · cases h
  · rename_i ttlSecs hholder
    obtain ⟨data, hissue, hdata⟩ := exists_of_attempt_ok h
    obtain rfl := RenewalOutcome.issued.inj hdata
    obtain ⟨hstarts, hkeeps⟩ := issue_ok hissue
    rw [answersAtOnce, hholder] at hid
    rw [attempt_ok]
    exact ⟨hkeeps, ca.clear_of_startsNow hstarts hnow (hid rfl)⟩

theorem authenticateUser_born {commits : Commits} {user password code : String} {e x : Bytes}
    {data : EnrollData} (hnow : ca.nowUnix < 2 ^ 64)
    (hsafe : ∀ s ∈ (Op.authenticateUser user password code e x).session k cr ca,
      ca.Clear (k.deriveMac s.1) ca.nowUnix)
    (h : (ca.authenticateUser k cr commits user password code e x).1 = .ok (.issued data)) :
    ca.KeepsRevocations (ca.authenticateUser k cr commits user password code e x).2 ∧
      ca.Clear data.cert.nodeMac data.cert.notBefore.get := by
  unfold authenticateUser at h ⊢
  split at h
  · cases h
  rename_i hclock
  rw [if_neg hclock]
  rcases attempt_check ca (fixed 32 e "ed_pubkey") _ with ⟨_, hm⟩ | ⟨ed, hed, hm⟩ <;>
    rw [hm] at h ⊢
  · cases h
  rcases attempt_check ca (k.x25519PubkeyOf x) _ with ⟨_, hm⟩ | ⟨xp, hx, hm⟩ <;> rw [hm] at h ⊢
  · cases h
  dsimp only at h ⊢
  rcases ca.attempt_mutate commits.onTheWay _ _ with hm | hm <;> rw [hm] at h ⊢
  · cases h
  have hdesk : Desk ca { ca with log := (ca.authenticate cr user password code).2 } :=
    desk_authenticate user password code
  split at h
  · cases h
  rename_i account haccount
  rcases attempt_check _ (checkSessionTtl account.sessionTtlSecs ca.allowUnboundedCertTtl) _ with
    ⟨_, hm⟩ | ⟨_, httl, hm⟩ <;> rw [hm] at h ⊢
  · cases h
  have hsession : (Op.authenticateUser user password code e x).session k cr ca =
      some (ed, xp, account) := by
    rw [Op.session, hed, hx, haccount]
    simp [Except.toOption, httl]
  have hclear := hsafe _ hsession
  unfold recordSession at h ⊢
  rcases attempt_mutate (noteSigned _ _) commits.final _ _ with hm | hm <;> rw [hm] at h ⊢
  · cases h
  · obtain rfl := UserAuthOutcome.issued.inj (Except.ok.inj h)
    refine ⟨⟨hdesk.revocations, hdesk.nowUnix⟩, ?_⟩
    exact ca.clear_of_startsNow ⟨rfl, rfl⟩ hnow hclear

theorem approveCsr_born {commits : Commits} {nodeMac : Bytes} {ttl : Option Nat}
    {signed : Nat × MembershipCert} (hnow : ca.nowUnix < 2 ^ 64)
    (hsafe : ∀ mac ∈ Mac.tryFrom nodeMac, (ca.swept.approvable k mac).isOk = true →
      ca.Clear mac ca.nowUnix)
    (h : (ca.approveCsr k commits nodeMac ttl).1 = .ok ())
    (hsigned : (ca.approveCsr k commits nodeMac ttl).2.history.signed.head? = some signed) :
    ca.KeepsRevocations (ca.approveCsr k commits nodeMac ttl).2 ∧
      ca.Clear signed.2.nodeMac signed.2.notBefore.get := by
  unfold approveCsr at h hsigned ⊢
  rcases attempt_check ca (ca.approvalTtl ttl) _ with ⟨e, hm⟩ | ⟨ttlSecs, _, hm⟩ <;>
    rw [hm] at h hsigned ⊢
  · cases h
  split at h
  · cases h
  rename_i hclock
  rw [if_neg hclock] at hsigned ⊢
  rcases attempt_check ca (nodeMacOf nodeMac) _ with ⟨e, hm⟩ | ⟨mac, hmac, hm⟩ <;>
    rw [hm] at h hsigned ⊢
  · cases h
  rcases ca.attempt_evictExpired commits.onTheWay _ with hm | hm <;> rw [hm] at h hsigned ⊢
  · cases h
  rcases attempt_check ca.swept (ca.swept.approvable k mac) _ with ⟨e, hm⟩ | ⟨id, hid, hm⟩ <;>
    rw [hm] at h hsigned ⊢
  · cases h
  have hclear : ca.Clear mac ca.nowUnix :=
    hsafe mac (mac_of_nodeMacOf hmac) (by rw [hid]; rfl)
  obtain ⟨rfl, _, _⟩ := approvable_ok hid
  rcases ca.swept.recordApproval_cases (k := k) commits.final id ttlSecs with hm | hm <;>
    rw [hm] at h hsigned ⊢
  · cases h
  · refine ⟨⟨rfl, rfl⟩, ?_⟩
    rw [← Option.some.inj hsigned]
    exact ca.clear_of_startsNow ⟨rfl, rfl⟩ hnow hclear

theorem born_clear {req : Request} {cert : MembershipCert} (hnow : req.now < 2 ^ 64)
    (hsafe : ca.Unrevoked k cr req) (hborn : ca.born k cr req = some cert) :
    (ca.step k cr req).Clear cert.nodeMac cert.notBefore.get := by
  obtain ⟨now, commits, op⟩ := req
  unfold born at hborn
  unfold Unrevoked at hsafe
  have hstep : ∀ {since : Nat} {mac : Mac},
      (ca.setNowUnix now).KeepsRevocations (ca.step k cr ⟨now, commits, op⟩) ∧
        (ca.setNowUnix now).Clear mac since →
      (ca.step k cr ⟨now, commits, op⟩).Clear mac since := fun h => h.1.clear h.2
  apply hstep
  split at hborn
  · rename_i m e x token data hop hreply
    obtain rfl := Option.some.inj hborn
    obtain rfl : op = _ := hop
    exact submitCsr_born hnow hsafe (Reply.csr.inj hreply)
  · rename_i m e x cert' hop hreply
    obtain rfl := Option.some.inj hborn
    obtain rfl : op = _ := hop
    exact renewHolder_born hnow hsafe (Reply.renewal.inj hreply)
  · rename_i user password code e x data hop hreply
    obtain rfl := Option.some.inj hborn
    obtain rfl : op = _ := hop
    exact authenticateUser_born hnow hsafe (Reply.session.inj hreply)
  · rename_i nodeMac ttl hop hreply
    obtain ⟨signed, hsigned, rfl⟩ := Option.map_eq_some_iff.mp hborn
    obtain rfl : op = _ := hop
    exact approveCsr_born hnow hsafe (Reply.done.inj hreply) hsigned
  · cases hborn

/-- In a run in which no request is about to give what a revocation in force reaches, no
certificate is cancelled in the second it is given. -/
theorem readmission_effective (k : Crypto) (cr : Credentials) (start : CertAuthority)
    (reqs : List Request) (hclock : Timely reqs)
    (hsafe : Run.AllSafe (step k cr) (Unrevoked k cr) start reqs) :
    ∀ before req later, reqs = before ++ req :: later →
      ∀ cert, (start.after k cr before).born k cr req = some cert →
        ∀ r ∈ (start.after k cr (before ++ [req])).liveRevocations,
          r.cancelsCertFor cert.nodeMac cert.notBefore.get req.now = false := by
  rintro before req later rfl cert hborn r hr
  have hnow : req.now < 2 ^ 64 := (hclock.1 req (by simp)).2
  have hrest := hsafe.after
  rw [Run.allSafe_cons] at hrest
  rw [after, Run.run_append_singleton] at hr
  exact (born_clear hnow hrest.1 hborn).cancels_false hr req.now

end Born

end CertAuthority

namespace SmallMesh

/-- Node 2 asks, is revoked, and is approved in a later second. -/
def readmission2 : List CertAuthority.Request :=
  [atSecs 0 (submits id2), atSecs 5 (.revoke mac2.asBytes),
    atSecs 10 (.approveCsr mac2.asBytes none)]

theorem readmission_effective_hour2 :
    (((started provider).after rootCrypto accounts readmission2).liveRevocations.all fun r =>
      !r.cancelsCertFor hour2.nodeMac hour2.notBefore.get (epoch + 10)) = true := by
  rw [List.all_eq_true]
  intro r hr
  have hopen : r.cancelsCertFor hour2.nodeMac hour2.notBefore.get (epoch + 10) = false :=
    CertAuthority.readmission_effective rootCrypto accounts (started provider) readmission2
      (by decide +kernel) (by decide +kernel)
      [atSecs 0 (submits id2), atSecs 5 (.revoke mac2.asBytes)]
      (atSecs 10 (.approveCsr mac2.asBytes none)) [] rfl hour2 (by decide +kernel) r hr
  rw [hopen]
  rfl

/-- Node 2, approved but never collected, is revoked. Its next submission is answered with the
certificate of the approval, which the revocation cancels. -/
theorem collected_revoked :
    CertAuthority.fromConfig root provider none epoch = .ok (started provider) ∧
      CertAuthority.Timely (approval2 none ++ [revoke2, atSecs 200 (submits id2)]) ∧
      ((started provider).after rootCrypto accounts (approval2 none ++ [revoke2])).born rootCrypto
        accounts (atSecs 200 (submits id2)) = some hour2 ∧
      ejected2 ∈ ((started provider).after rootCrypto accounts
        (approval2 none ++ [revoke2, atSecs 200 (submits id2)])).liveRevocations ∧
      ejected2.cancelsCertFor hour2.nodeMac hour2.notBefore.get (epoch + 200) = true := by
  refine ⟨rfl, by decide +kernel, by decide +kernel, by decide +kernel, by decide +kernel⟩

end SmallMesh

end Wayfinder
