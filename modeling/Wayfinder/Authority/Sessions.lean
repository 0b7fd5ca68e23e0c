import Wayfinder.Authority.Admission

/-!
# Ending the sessions of an account

A session certificate is cancelled by a record that ends with the window its row has in the
log. The row is the address's, not the certificate's: another sign-in or an enrolment with
the same key writes over it. And a record stops being enforced in the second a certificate
is last accepted in.
-/

namespace Wayfinder

set_option autoImplicit false

open Table Fallible

namespace CertAuthority

/-- The account whose sessions a call has ended, and the records it was answered with. -/
def Op.ended (ca : CertAuthority) : Op → Reply → Option (AccountId × List RevocationRecord)
  | .revokeUserSessions username, .revocations (.ok records)
  | .removeUser username, .revocations (.ok records)
  | .setUserRole username .viewer, .changed (.ok (records, true))
  | .setUserEnabled username false, .changed (.ok (records, true)) =>
    (ca.accountIdOf username).toOption.map fun account => (account, records)
  | _, _ => none

/-! ### What the log and the history agree on -/

/-- Every revocation on file starts by `last`, every record's end fits its field, and every
session certificate was signed here. -/
structure Dated (last : Nat) (ca : CertAuthority) : Prop where
  revocations : ∀ r ∈ ca.log.revocations, r.notBefore.get ≤ last
  rows : ∀ row ∈ ca.log.issued, row.notAfter < 2 ^ 64
  sessions : ∀ s ∈ ca.history.sessions, ∃ t, (t, s.2) ∈ ca.history.signed

section Dated
variable {k : Crypto} {cr : Credentials} {ca : CertAuthority} {last : Nat}

theorem Dated.mono {last' : Nat} (h : Dated last ca) (hle : last ≤ last') : Dated last' ca where
  revocations r hr := Nat.le_trans (h.revocations r hr) hle
  rows := h.rows
  sessions := h.sessions

theorem Dated.desk {ca' : CertAuthority} (h : Dated last ca) (hdesk : Desk ca ca') :
    Dated last ca' where
  revocations := by
    rw [hdesk.revocations]
    exact h.revocations
  rows := by
    rw [hdesk.issued]
    exact h.rows
  sessions := by
    rw [hdesk.history]
    exact h.sessions

theorem Dated.grow {ca' : CertAuthority} (h : Dated last ca)
    (hrows : ∀ row ∈ ca'.log.issued, row.notAfter < 2 ^ 64 ∨ row ∈ ca.log.issued)
    (hrevocations : ca'.log.revocations = ca.log.revocations)
    (hsigned : ∀ s ∈ ca.history.signed, s ∈ ca'.history.signed)
    (hsessions : ∀ s ∈ ca'.history.sessions,
      s ∈ ca.history.sessions ∨ ∃ t, (t, s.2) ∈ ca'.history.signed) : Dated last ca' where
  revocations := by
    rw [hrevocations]
    exact h.revocations
  rows row hrow := (hrows row hrow).elim id (h.rows row)
  sessions s hs := by
    rcases hsessions s hs with hs | hs
    · obtain ⟨t, ht⟩ := h.sessions s hs
      exact ⟨t, hsigned _ ht⟩
    · exact hs

theorem Dated.noteSigned (h : Dated last ca) (cert : MembershipCert) :
    Dated last (ca.noteSigned cert) :=
  h.grow (fun _ hrow => Or.inr hrow) rfl (fun _ hs => List.mem_cons_of_mem _ hs)
    (fun _ hs => Or.inl hs)

theorem fits_of_mem_upsert {record : IssuedCertData} {issued : List IssuedCertData}
    (hrecord : record.notAfter < 2 ^ 64) :
    ∀ row ∈ upsert IssuedCertData.nodeMac record issued,
      row.notAfter < 2 ^ 64 ∨ row ∈ issued := by
  intro row hrow
  rcases mem_upsert hrow with rfl | hrow
  · exact Or.inl hrecord
  · exact Or.inr hrow

theorem Dated.revoke (h : Dated last ca) {records : List RevocationRecord} {log : CaLog}
    (hrecords : ∀ r ∈ records, r.notBefore.get ≤ last)
    (hrevocations : log.revocations =
      (ca.log.recordRevocations records ca.nowUnix).revocations)
    (hmarked : List.Forall₂ Marked ca.log.issued log.issued) : Dated last { ca with log := log } where
  revocations := by
    intro r hr
    rw [hrevocations] at hr
    rcases List.mem_append.mp hr with hr | hr
    · exact h.revocations r (List.mem_filter.mp hr).1
    · exact hrecords r hr
  rows := by
    intro row' hrow'
    obtain ⟨row, hrow, rfl | rfl⟩ := exists_of_forall₂_right hmarked hrow'
    · exact h.rows row' hrow
    · exact h.rows row hrow
  sessions := h.sessions

theorem Effect.dated {op : Op} {reply : Reply} {ca' : CertAuthority}
    (heffect : Effect k cr ca op reply ca') (h : Dated ca.nowUnix ca)
    (hnow : ca.nowUnix < 2 ^ 64) : Dated ca.nowUnix ca' := by
  have hstarts : ∀ mac last, (ca.authority.revoke k mac ca.nowUnix last).notBefore.get ≤
      ca.nowUnix := fun _ _ => Nat.le_of_eq (Be64.get_ofNat hnow)
  cases heffect with
  | desk hdesk => exact h.desk hdesk
  | collect => exact h.desk ca.desk_swept
  | @issue _ _ ca₁ id ttlSecs commits hdesk =>
    have hdated := h.desk hdesk
    rcases ca₁.issue_cases (k := k) commits id ttlSecs with hcase | hcase <;> rw [hcase]
    · exact hdated.noteSigned _
    · exact hdated.grow (fits_of_mem_upsert (saturatingAdd64_lt _ _)) rfl
        (fun _ hs => List.mem_cons_of_mem _ hs) (fun _ hs => Or.inl hs)
  | @approve _ _ mac id ttlSecs commits =>
    have hdated := h.desk ca.desk_swept
    rcases ca.swept.recordApproval_cases (k := k) commits id ttlSecs with hcase | hcase <;>
      rw [hcase]
    · exact hdated.noteSigned _
    · exact hdated.grow (fits_of_mem_upsert (saturatingAdd64_lt _ _)) rfl
        (fun _ hs => List.mem_cons_of_mem _ hs) (fun _ hs => Or.inl hs)
  | @session _ _ ca₁ ed x user commits hdesk =>
    have hdated := h.desk hdesk
    rcases ca₁.recordSession_cases (k := k) commits ed x user with hcase | hcase <;> rw [hcase]
    · exact hdated.noteSigned _
    · refine hdated.grow ?_ rfl (fun _ hs => List.mem_cons_of_mem _ hs) ?_
      · intro row hrow
        exact (fits_of_mem_upsert (saturatingAdd64_lt _ _) row hrow).imp_right
          fun hrow => (List.mem_filter.mp hrow).1
      · intro s hs
        rcases List.mem_cons.mp hs with rfl | hs
        · exact Or.inr ⟨ca₁.nowUnix, List.mem_cons_self⟩
        · exact Or.inl hs
  | revoke _ hrecord =>
    refine h.revoke ?_ rfl (marked_markFirstRevoked _)
    intro r hr
    rw [List.mem_singleton.mp hr, hrecord]
    exact hstarts _ _
  | endSessions =>
    refine h.revoke ?_ rfl (marked_markRevoked _ _)
    intro r hr
    obtain ⟨s, _, rfl⟩ := List.mem_map.mp hr
    exact hstarts _ _

theorem dated_after {reqs : List Request} (hclock : Timely reqs)
    (hle : ∀ req ∈ reqs, req.now ≤ last) (h : ∀ last, Dated last ca) :
    Dated last (ca.after k cr reqs) := by
  induction reqs using List.reverseRecOn generalizing last with
  | nil => exact h last
  | append_singleton reqs req ih =>
    obtain ⟨husable, horder⟩ := hclock
    obtain ⟨hpairwise, _, hlast⟩ := List.pairwise_append.mp horder
    rw [after, Run.run_append_singleton]
    have hbefore : Dated req.now (ca.after k cr reqs) := by
      refine ih ⟨fun req' hreq' => husable req' (List.mem_append_left _ hreq'), hpairwise⟩ ?_
      intro req' hreq'
      exact hlast req' hreq' req (List.mem_singleton.mpr rfl)
    refine Dated.mono ?_ (hle req (by simp))
    exact (serve_effect k cr (ca.after k cr reqs) req).dated
      ⟨hbefore.revocations, hbefore.rows, hbefore.sessions⟩ (husable req (by simp)).2

theorem dated_fromConfig {a : Authority} {cfg : ProviderConfig} {t₀ : Nat}
    (h : fromConfig a cfg none t₀ = .ok ca) (last : Nat) : Dated last ca := by
  obtain ⟨_, _, h⟩ := exists_of_bind_ok h
  obtain rfl := Except.ok.inj h
  constructor
  · intro r hr
    cases hr
  · intro row hrow
    cases hrow
  · intro s hs
    cases hs

end Dated

/-! ### The records of a call -/

section Calls
variable {k : Crypto} {cr : Credentials} {ca : CertAuthority}

theorem exists_of_attempt {α β : Type} {r : Except String α × CertAuthority}
    {f : α → CertAuthority → Except String β × CertAuthority} {b : β}
    (h : (attempt r f).1 = .ok b) : ∃ a, r.1 = .ok a ∧ (f a r.2).1 = .ok b := by
  obtain ⟨x, ca⟩ := r
  cases x with
  | error e => cases h
  | ok a => exact ⟨a, rfl, h⟩

theorem revokeSessions_ok {commits : Bool} {sessions : List (Mac × Nat)} {change : CaLog → CaLog}
    {records : List RevocationRecord}
    (h : (ca.revokeSessions k commits sessions change).1 = .ok records) :
    records = sessions.map fun s => ca.authority.revoke k s.1 ca.nowUnix s.2 := by
  unfold revokeSessions at h
  split at h
  · cases h
  · obtain ⟨_, _, h⟩ := exists_of_attempt h
    exact (Except.ok.inj h).symm

theorem revokeUserSessions_ok {commits : Commits} {username : String}
    {records : List RevocationRecord}
    (h : (ca.revokeUserSessions k commits username).1 = .ok records) :
    ∃ account, ca.accountIdOf username = .ok account ∧
      records = (ca.liveSessionsOf account).map fun s =>
        ca.authority.revoke k s.1 ca.nowUnix s.2 := by
  obtain ⟨account, haccount, h⟩ := exists_of_attempt h
  exact ⟨account, haccount, revokeSessions_ok h⟩

theorem removeUser_ok {commits : Commits} {username : String} {records : List RevocationRecord}
    (h : (ca.removeUser k commits username).1 = .ok records) :
    ∃ account, ca.accountIdOf username = .ok account ∧
      records = (ca.liveSessionsOf account).map fun s =>
        ca.authority.revoke k s.1 ca.nowUnix s.2 := by
  obtain ⟨_, _, h⟩ := exists_of_attempt h
  obtain ⟨account, haccount, h⟩ := exists_of_attempt h
  exact ⟨account, haccount, revokeSessions_ok h⟩

theorem accountIdOf_ok {username : String} {user : UserRecord}
    (h : ca.userRecord username = .ok user) : ca.accountIdOf username = .ok user.id := by
  rw [accountIdOf, h]
  rfl

theorem setUserRole_ok {commits : Commits} {username : String} {records : List RevocationRecord}
    (h : (ca.setUserRole k commits username .viewer).1 = .ok (records, true)) :
    ∃ account, ca.accountIdOf username = .ok account ∧
      records = (ca.liveSessionsOf account).map fun s =>
        ca.authority.revoke k s.1 ca.nowUnix s.2 := by
  obtain ⟨_, _, h⟩ := exists_of_attempt h
  obtain ⟨user, huser, h⟩ := exists_of_attempt h
  dsimp only at huser h
  split at h
  · cases h
  · obtain ⟨records', hrecords, h⟩ := exists_of_attempt h
    obtain ⟨rfl, _⟩ := Prod.mk.inj (Except.ok.inj h)
    exact ⟨user.id, accountIdOf_ok huser, revokeSessions_ok hrecords⟩

theorem setUserEnabled_ok {commits : Commits} {username : String}
    {records : List RevocationRecord}
    (h : (ca.setUserEnabled k commits username false).1 = .ok (records, true)) :
    ∃ account, ca.accountIdOf username = .ok account ∧
      records = (ca.liveSessionsOf account).map fun s =>
        ca.authority.revoke k s.1 ca.nowUnix s.2 := by
  obtain ⟨_, _, h⟩ := exists_of_attempt h
  obtain ⟨user, huser, h⟩ := exists_of_attempt h
  dsimp only at huser h
  split at h
  · cases h
  · obtain ⟨records', hrecords, h⟩ := exists_of_attempt h
    obtain ⟨rfl, _⟩ := Prod.mk.inj (Except.ok.inj h)
    exact ⟨user.id, accountIdOf_ok huser, revokeSessions_ok hrecords⟩

/-- Whichever call ends an account's sessions, it signs a record for each that the log
still shows live. -/
theorem ended_records (ca : CertAuthority) {commits : Commits} {op : Op} {account : AccountId}
    {records : List RevocationRecord}
    (h : op.ended ca (ca.perform k cr commits op).1 = some (account, records)) :
    records = (ca.liveSessionsOf account).map fun s =>
      ca.authority.revoke k s.1 ca.nowUnix s.2 := by
  have hnamed : ∀ {username : String} {account' : AccountId} {records' : List RevocationRecord},
      ca.accountIdOf username = .ok account' →
      (ca.accountIdOf username).toOption.map (fun a => (a, records')) = some (account, records) →
      account' = account ∧ records' = records := by
    intro username account' records' hok h
    rw [hok] at h
    exact Prod.mk.inj (Option.some.inj h)
  unfold Op.ended at h
  split at h
  · rename_i username records' hreply
    obtain ⟨account', haccount, hrecords⟩ := revokeUserSessions_ok (Reply.revocations.inj hreply)
    obtain ⟨rfl, rfl⟩ := hnamed haccount h
    exact hrecords
  · rename_i username records' hreply
    obtain ⟨account', haccount, hrecords⟩ := removeUser_ok (Reply.revocations.inj hreply)
    obtain ⟨rfl, rfl⟩ := hnamed haccount h
    exact hrecords
  · rename_i username records' hreply
    obtain ⟨account', haccount, hrecords⟩ := setUserRole_ok (Reply.changed.inj hreply)
    obtain ⟨rfl, rfl⟩ := hnamed haccount h
    exact hrecords
  · rename_i username records' hreply
    obtain ⟨account', haccount, hrecords⟩ := setUserEnabled_ok (Reply.changed.inj hreply)
    obtain ⟨rfl, rfl⟩ := hnamed haccount h
    exact hrecords
  · cases h

end Calls

/-! ### What ends with them -/

/-- From the second `t` on a certificate is refused as expired, or one of the records
cancels it. -/
def EndedByOneOf (k : Crypto) (anchor : TrustAnchor) (records : List RevocationRecord)
    (cert : MembershipCert) (t : Nat) : Prop :=
  ∀ t', t ≤ t' → anchor.verifyCert k cert (.at t') = .error .expired ∨
    ∃ r ∈ records, r.cancelsCertFor cert.nodeMac cert.notBefore.get t' = true

/-- The record is aimed at the certificate, and is enforced past its last second. -/
def RevocationRecord.Outlives (r : RevocationRecord) (cert : MembershipCert) : Prop :=
  r.nodeMac = cert.nodeMac ∧ cert.notBefore.get ≤ r.notBefore.get ∧
    cert.notAfter.get < r.notAfter.get

/-- The account's own session under the certificate's address, as the log has it, ends
after the certificate. -/
def SessionOutlives (account : AccountId) (cert : MembershipCert) (row : IssuedCertData) : Prop :=
  (row.user = true ∧ row.revoked = false ∧ row.accountId = some account) ∧
    row.nodeMac = cert.nodeMac ∧ cert.notAfter.get < row.notAfter

instance (r : RevocationRecord) (cert : MembershipCert) :
    Decidable (RevocationRecord.Outlives r cert) :=
  inferInstanceAs (Decidable (_ ∧ _))

instance (account : AccountId) (cert : MembershipCert) (row : IssuedCertData) :
    Decidable (SessionOutlives account cert row) :=
  inferInstanceAs (Decidable (_ ∧ _))

section Ending
variable {k : Crypto} {a : Authority} {cert : MembershipCert} {t : Nat}

theorem endedByOneOf_iff {records : List RevocationRecord}
    (hissued : (a.trustAnchor k).Issued k cert) (hbefore : cert.notBefore.get ≤ t)
    (hforce : ∀ r ∈ records, r.notBefore.get ≤ t) :
    EndedByOneOf k (a.trustAnchor k) records cert t ↔
      cert.notAfter.get < t ∨ ∃ r ∈ records, RevocationRecord.Outlives r cert := by
  constructor
  · intro h
    by_cases hover : cert.notAfter.get < t
    · exact Or.inl hover
    right
    have hlast : t ≤ cert.notAfter.get := by omega
    rcases h cert.notAfter.get hlast with hexpired | ⟨r, hr, hcancels⟩
    · rw [verifyCert_expired_iff hissued (by omega)] at hexpired
      omega
    · simp only [RevocationRecord.cancelsCertFor, RevocationRecord.namesCert, Bool.and_eq_true,
        decide_eq_true_eq] at hcancels
      exact ⟨r, hr, hcancels.1.1, hcancels.1.2, hcancels.2.2⟩
  · rintro (hover | ⟨r, hr, hmac, hcut, hlast⟩) t' ht'
    · left
      exact (verifyCert_expired_iff hissued (by omega)).mpr (by omega)
    by_cases hin : t' ≤ cert.notAfter.get
    · right
      refine ⟨r, hr, ?_⟩
      have hstarted : r.notBefore.get ≤ t' := Nat.le_trans (hforce r hr) ht'
      have hopen : t' < r.notAfter.get := by omega
      simp [RevocationRecord.cancelsCertFor, RevocationRecord.namesCert, hmac, hcut, hstarted,
        hopen]
    · left
      exact (verifyCert_expired_iff hissued (by omega)).mpr (by omega)

theorem session_outlives_iff (ca : CertAuthority) (account : AccountId)
    (hrows : ∀ row ∈ ca.log.issued, row.notAfter < 2 ^ 64) (hnow : ca.nowUnix < 2 ^ 64)
    (hbefore : cert.notBefore.get ≤ ca.nowUnix) (hlive : ca.nowUnix ≤ cert.notAfter.get) :
    (∃ r ∈ (ca.liveSessionsOf account).map fun s => ca.authority.revoke k s.1 ca.nowUnix s.2,
      RevocationRecord.Outlives r cert) ↔
      ∃ row ∈ ca.log.issued, SessionOutlives account cert row := by
  constructor
  · rintro ⟨r, hr, hmac, _, hlast⟩
    obtain ⟨s, hs, rfl⟩ := List.mem_map.mp hr
    obtain ⟨row, hrow, rfl⟩ := List.mem_map.mp hs
    obtain ⟨hrow, hsession⟩ := List.mem_filter.mp hrow
    simp only [Bool.and_eq_true, Bool.not_eq_true', decide_eq_true_eq] at hsession
    have hend : (ca.authority.revoke k row.nodeMac ca.nowUnix row.notAfter).notAfter.get =
        row.notAfter := Be64.get_ofNat (hrows row hrow)
    rw [hend] at hlast
    exact ⟨row, hrow, ⟨hsession.1.1.1, hsession.1.1.2, hsession.2⟩, hmac, hlast⟩
  · rintro ⟨row, hrow, ⟨huser, hrevoked, haccount⟩, hmac, hlast⟩
    have hsession : (row.nodeMac, row.notAfter) ∈ ca.liveSessionsOf account := by
      refine List.mem_map.mpr ⟨row, List.mem_filter.mpr ⟨hrow, ?_⟩, rfl⟩
      have hopen : ca.nowUnix < row.notAfter := by omega
      simp [huser, hrevoked, haccount, hopen]
    refine ⟨_, List.mem_map.mpr ⟨_, hsession, rfl⟩, hmac, ?_, ?_⟩
    · exact Nat.le_trans hbefore (Nat.le_of_eq (Be64.get_ofNat hnow).symm)
    · exact Nat.lt_of_lt_of_le hlast (Nat.le_of_eq (Be64.get_ofNat (hrows row hrow)).symm)

end Ending

/-- Ending an account's sessions ends every session certificate issued to it by then
exactly if each is over, or outlived by a revocation already on file or by what the log has
as the account's session under the same address. -/
theorem sessions_ended_iff (k : Crypto) (cr : Credentials) (a : Authority)
    (hsigns : SignsFor k a.root) (cfg : ProviderConfig) (t₀ : Nat) (start : CertAuthority)
    (hstart : fromConfig a cfg none t₀ = .ok start) (before later : List Request) (req : Request)
    (hclock : Timely (before ++ req :: later)) (account : AccountId)
    (records : List RevocationRecord)
    (hended : req.op.ended (start.after k cr before)
      ((start.after k cr before).serve k cr req).1 = some (account, records)) :
    (∀ s ∈ (start.after k cr (before ++ req :: later)).history.sessions,
      s.1 = account → s.2.notBefore.get ≤ req.now →
        EndedByOneOf k (a.trustAnchor k)
          (records ++ (start.after k cr before).log.revocations) s.2 req.now) ↔
    (∀ s ∈ (start.after k cr (before ++ req :: later)).history.sessions,
      s.1 = account → s.2.notBefore.get ≤ req.now →
        s.2.notAfter.get < req.now ∨
        (∃ r ∈ (start.after k cr before).log.revocations, RevocationRecord.Outlives r s.2) ∨
        ∃ row ∈ (start.after k cr before).log.issued, SessionOutlives account s.2 row) := by
  have hinit : SignedByAnchor k a start := signedByAnchor_fromConfig hstart
  have hnow : req.now < 2 ^ 64 := (hclock.1 req (by simp)).2
  obtain ⟨horder, _, hcross⟩ := List.pairwise_append.mp hclock.2
  have hbeforeClock : Timely before :=
    ⟨fun req' hreq' => hclock.1 req' (List.mem_append_left _ hreq'), horder⟩
  have hroot : (start.after k cr before).authority = a :=
    (signedByAnchor_after hsigns hinit hbeforeClock).1
  have hdated : Dated req.now (start.after k cr before) :=
    dated_after hbeforeClock (fun req' hreq' => hcross req' hreq' req List.mem_cons_self)
      (dated_fromConfig hstart)
  have hissued : ∀ s ∈ (start.after k cr (before ++ req :: later)).history.sessions,
      (a.trustAnchor k).Issued k s.2 := by
    intro s hs
    have hall : Dated (2 ^ 64) (start.after k cr (before ++ req :: later)) :=
      dated_after hclock (fun req' hreq' => Nat.le_of_lt (hclock.1 req' hreq').2)
        (dated_fromConfig hstart)
    obtain ⟨t, ht⟩ := hall.sessions s hs
    exact ((signedByAnchor_after hsigns hinit hclock).2 (t, s.2) ht).1
  have hrecords : records = (((start.after k cr before).setNowUnix req.now).liveSessionsOf
      account).map fun s => a.revoke k s.1 req.now s.2 := by
    rw [← hroot]
    exact ended_records ((start.after k cr before).setNowUnix req.now) hended
  have hforce : ∀ r ∈ records ++ (start.after k cr before).log.revocations,
      r.notBefore.get ≤ req.now := by
    intro r hr
    rcases List.mem_append.mp hr with hr | hr
    · rw [hrecords] at hr
      obtain ⟨s, _, rfl⟩ := List.mem_map.mp hr
      exact Nat.le_of_eq (Be64.get_ofNat hnow)
    · exact hdated.revocations r hr
  have hexact : ∀ s ∈ (start.after k cr (before ++ req :: later)).history.sessions,
      s.2.notBefore.get ≤ req.now →
        (EndedByOneOf k (a.trustAnchor k)
          (records ++ (start.after k cr before).log.revocations) s.2 req.now ↔
        s.2.notAfter.get < req.now ∨
        (∃ r ∈ (start.after k cr before).log.revocations, RevocationRecord.Outlives r s.2) ∨
        ∃ row ∈ (start.after k cr before).log.issued, SessionOutlives account s.2 row) := by
    intro s hs hle
    have hlive : ¬ s.2.notAfter.get < req.now →
        ((∃ r ∈ records, RevocationRecord.Outlives r s.2) ↔
          ∃ row ∈ (start.after k cr before).log.issued, SessionOutlives account s.2 row) := by
      intro hover
      rw [hrecords, ← hroot]
      exact session_outlives_iff ((start.after k cr before).setNowUnix req.now) account
        hdated.rows hnow hle (Nat.le_of_not_lt hover)
    rw [endedByOneOf_iff (hissued s hs) hle hforce]
    by_cases hover : s.2.notAfter.get < req.now
    · simp [hover]
    · simp only [hover, false_or, ← hlive hover, List.mem_append, or_and_right, exists_or]
      exact Or.comm
  constructor
  · intro h s hs haccount hle
    exact (hexact s hs hle).mp (h s hs haccount hle)
  · intro h s hs haccount hle
    exact (hexact s hs hle).mpr (h s hs haccount hle)

end CertAuthority

namespace SmallMesh

def dayProvider : ProviderConfig := { provider with certTtlSecs := 86400 }

def signIn2 : List CertAuthority.Request :=
  [atSecs 0 (.manageUsers [viewer]), atSecs 200 (signsIn id2)]

/-- The address of the session was revoked for a day before the account's sessions were
ended, and that record is the one that cancels its certificate. -/
theorem sessions_ended_iff_day :
    CertAuthority.EndedByOneOf rootCrypto (root.trustAnchor rootCrypto) [dayEjected2] session2
      (epoch + 500) := by
  have hiff := CertAuthority.sessions_ended_iff rootCrypto accounts root root_signs dayProvider
    epoch (started dayProvider) rfl (signIn2 ++ [atSecs 400 (.revoke mac2.asBytes)]) []
    (atSecs 500 (.revokeUserSessions "alice")) (by decide +kernel) viewer.id [] (by decide +kernel)
  have hrevocations : ((started dayProvider).after rootCrypto accounts
      (signIn2 ++ [atSecs 400 (.revoke mac2.asBytes)])).log.revocations = [dayEjected2] := by
    decide +kernel
  rw [hrevocations] at hiff
  exact hiff.mpr (by decide +kernel) (viewer.id, session2) (by decide +kernel) rfl
    (by decide +kernel)

/-- The record of a session is not enforced in the last second of its certificate. And
where the key enrolled meanwhile, the log has no session of the account to end at all. -/
theorem session_outlives_its_end :
    CertAuthority.fromConfig root provider none epoch = .ok (started provider) ∧
      CertAuthority.Timely (signIn2 ++ [atSecs 300 (submits id2),
        atSecs 400 (.revokeUserSessions "alice")]) ∧
      ((started provider).after rootCrypto accounts signIn2).history.sessions =
        [(viewer.id, session2)] ∧
      (((started provider).after rootCrypto accounts signIn2).serve rootCrypto accounts
        (atSecs 400 (.revokeUserSessions "alice"))).1 = .revocations (.ok [ended2]) ∧
      ((started provider).after rootCrypto accounts signIn2).log.revocations = [] ∧
      (root.trustAnchor rootCrypto).verifyCert rootCrypto session2 (.at (epoch + 29000)) =
        .ok session2.facts ∧
      ended2.cancelsCertFor session2.nodeMac session2.notBefore.get (epoch + 29000) = false ∧
      (((started provider).after rootCrypto accounts
        (signIn2 ++ [atSecs 300 (submits id2)])).serve rootCrypto accounts
          (atSecs 400 (.revokeUserSessions "alice"))).1 = .revocations (.ok []) ∧
      ((started provider).after rootCrypto accounts
        (signIn2 ++ [atSecs 300 (submits id2)])).log.revocations = [] ∧
      (root.trustAnchor rootCrypto).verifyCert rootCrypto session2 (.at (epoch + 400)) =
        .ok session2.facts := by
  refine ⟨rfl, ?_, ?_, ?_, ?_, ?_, ?_, ?_, ?_, ?_⟩ <;> decide +kernel

end SmallMesh

end Wayfinder
