import Wayfinder.Authority.Run

/-!
# Who gets a device certificate

A certificate goes out at once on the strength of a row in the issued log, which devices
and signed-in people share, or of an approval still on file. What keeps a revoked address
out is the flag on its row, and the row is whoever's wrote it last; what a row says of an
identity is its address and its Ed25519 key.
-/

namespace Wayfinder

set_option autoImplicit false

open Table Fallible

namespace CertAuthority

def recordOf (ca : CertAuthority) (mac : Mac) : Option IssuedCertData :=
  ca.log.issued.find? fun c => c.nodeMac = mac

/-- The row both doors to a re-issue go by. -/
def liveRow (ca : CertAuthority) (mac : Mac) : Option IssuedCertData :=
  ca.log.issued.find? fun c => c.nodeMac = mac && ca.nowUnix ≤ c.notAfter

section Rows
variable {k : Crypto} {cr : Credentials} {ca : CertAuthority} {mac : Mac} {row : IssuedCertData}

theorem liveRow_of_recordOf (h : ca.recordOf mac = some row) (hlive : ca.nowUnix ≤ row.notAfter) :
    ca.liveRow mac = some row :=
  find?_and h (decide_eq_true hlive)

theorem not_grants_of_revoked (h : ca.recordOf mac = some row)
    (hlive : ca.nowUnix ≤ row.notAfter) (hrevoked : row.revoked = true) {id : Identity}
    (hid : id.nodeMac = mac) (ttlSecs : Option Nat) : ¬ ca.Grants id ttlSecs := by
  have hholder : ca.liveHolder id.nodeMac id.edPubkey =
      some (decide (row.edPubkey = id.edPubkey), true, row.notAfter - row.notBefore) := by
    rw [hid, ← hrevoked]
    exact congrArg (Option.map _) (liveRow_of_recordOf h hlive)
  rintro (⟨held, hgood, _⟩ | ⟨hnone, _⟩)
  · rw [hholder] at hgood
    simp at hgood
  · rw [hholder] at hnone
    cases hnone

theorem liveRow_of_liveHolder {ed : Octets 32} {held : Nat}
    (h : ca.liveHolder mac ed = some (true, false, held)) :
    ∃ row, ca.liveRow mac = some row ∧ row.edPubkey = ed ∧ row.revoked = false := by
  obtain ⟨row, hrow, hfacts⟩ := Option.map_eq_some_iff.mp h
  simp only [Prod.mk.injEq, decide_eq_true_eq] at hfacts
  exact ⟨row, hrow, hfacts.1, hfacts.2.1⟩

/-- Marking rows revoked changes nothing else about them. -/
def Marked (row row' : IssuedCertData) : Prop := row' = row ∨ row' = { row with revoked := true }

theorem marked_markFirstRevoked (log : CaLog) :
    List.Forall₂ Marked log.issued (log.markFirstRevoked mac).issued := by
  refine forall₂_lookmap ?_ ?_
  · intro row
    exact Or.inl rfl
  · intro row row' h
    split at h
    · exact Or.inr (Option.some.inj h).symm
    · cases h

theorem marked_markRevoked (log : CaLog) (macs : List Mac) :
    List.Forall₂ Marked log.issued (log.markRevoked macs).issued := by
  rw [CaLog.markRevoked, List.forall₂_map_right_iff, List.forall₂_same]
  intro row _
  unfold Marked
  split
  · exact Or.inr rfl
  · exact Or.inl rfl

theorem find?_marked {issued issued' : List IssuedCertData}
    (h : List.Forall₂ Marked issued issued')
    (hrow : issued.find? (fun c => c.nodeMac = mac) = some row) :
    ∃ row', issued'.find? (fun c => c.nodeMac = mac) = some row' ∧ Marked row row' := by
  refine find?_of_forall₂ h ?_ hrow
  rintro row _ (rfl | rfl) <;> rfl

theorem find?_markFirstRevoked {log : CaLog}
    (hrow : log.issued.find? (fun c => c.nodeMac = mac) = some row) :
    (log.markFirstRevoked mac).issued.find? (fun c => c.nodeMac = mac) =
      some { row with revoked := true } := by
  have hmac : row.nodeMac = mac := by simpa using List.find?_some hrow
  obtain ⟨row', hrow', hfound⟩ := find?_lookmap_self (f := fun c : IssuedCertData =>
    if c.nodeMac = mac then some { c with revoked := true } else none)
    (fun c => by by_cases hc : c.nodeMac = mac <;> simp [hc])
    (fun c c' hc => by
      split at hc
      · rw [← Option.some.inj hc]
        simpa using ‹c.nodeMac = mac›
      · cases hc) hrow
  rw [if_pos hmac] at hrow'
  rw [CaLog.markFirstRevoked, hfound, ← Option.some.inj hrow']

end Rows

/-! ### Approvals on file -/

/-- Every approval on file is for the address it is filed under, and was made. -/
def Filed (held : List HeldCsr) (approved : List Identity) : Prop :=
  ∀ h ∈ held, ∀ cert, h.status = .approved cert →
    cert.nodeMac = h.nodeMac ∧ cert.identity ∈ approved

section Filed
variable {k : Crypto} {cr : Credentials} {ca : CertAuthority}

theorem Filed.desk {ca' : CertAuthority} (h : Filed ca.log.held ca.history.approved)
    (hdesk : Desk ca ca') : Filed ca'.log.held ca'.history.approved := by
  intro row hrow cert hcert
  rw [hdesk.history]
  exact h row (hdesk.held row hrow cert hcert) cert hcert

theorem Effect.filed {op : Op} {reply : Reply} {ca' : CertAuthority}
    (heffect : Effect k cr ca op reply ca') (h : Filed ca.log.held ca.history.approved) :
    Filed ca'.log.held ca'.history.approved := by
  cases heffect with
  | desk hdesk => exact h.desk hdesk
  | collect => exact h.desk ca.desk_swept
  | @issue _ _ ca₁ id ttlSecs commits hdesk =>
    have hfiled := h.desk hdesk
    rcases ca₁.issue_cases (k := k) commits id ttlSecs with hcase | hcase <;> rw [hcase]
    · exact hfiled
    · exact hfiled
  | @approve _ _ mac id ttlSecs commits _ hid =>
    have hswept := h.desk ca.desk_swept
    rcases ca.swept.recordApproval_cases (k := k) commits id ttlSecs with hcase | hcase <;>
      rw [hcase]
    · exact hswept
    · intro row hrow cert hcert
      rcases mem_settle hrow with hrow | ⟨row', _, hmac, _, rfl⟩
      · obtain ⟨hnamed, happroved⟩ := hswept row hrow cert hcert
        exact ⟨hnamed, List.mem_cons_of_mem id happroved⟩
      · obtain rfl := CsrStatus.approved.inj hcert
        exact ⟨hmac.symm, List.mem_cons_self⟩
  | @session _ _ ca₁ ed x user commits hdesk =>
    have hfiled := h.desk hdesk
    rcases ca₁.recordSession_cases (k := k) commits ed x user with hcase | hcase <;> rw [hcase]
    · exact hfiled
    · exact hfiled
  | revoke => exact h
  | endSessions => exact h

theorem filed_after (h : Filed ca.log.held ca.history.approved) (reqs : List Request) :
    Filed (ca.after k cr reqs).log.held (ca.after k cr reqs).history.approved := by
  refine @Run.invariant CertAuthority Request (step k cr)
    (fun ca => Filed ca.log.held ca.history.approved) ca reqs h ?_
  intro ca req h
  exact (serve_effect k cr ca req).filed h

theorem filed_fromConfig {a : Authority} {cfg : ProviderConfig} {t₀ : Nat}
    (h : fromConfig a cfg none t₀ = .ok ca) : Filed ca.log.held ca.history.approved := by
  obtain ⟨_, _, h⟩ := exists_of_bind_ok h
  obtain rfl := Except.ok.inj h
  intro row hrow
  cases hrow

end Filed

/-! ### A revoked address -/

def Barred (mac : Mac) (last : Nat) (issued : List IssuedCertData) : Prop :=
  ∃ row, issued.find? (fun c => c.nodeMac = mac) = some row ∧ row.revoked = true ∧
    row.notAfter = last

def Readmits (k : Crypto) (cr : Credentials) (mac : Mac) (ca : CertAuthority) (req : Request) :
    Prop :=
  (∃ ttl, req.op = .approveCsr mac.asBytes ttl) ∧ (ca.serve k cr req).1 = .done (.ok ())

instance (status : CsrStatus) : Decidable (∀ cert, status ≠ .approved cert) :=
  match status with
  | .approved cert => .isFalse fun h => h cert rfl
  | .pending => .isTrue CsrStatus.pending_ne_approved
  | .denied reason => .isTrue (CsrStatus.denied_ne_approved reason)

/-- No accepted sign-in presents a key of the address or takes its record for a session
that is over, and no submission for it is answered by an approval on file. -/
def KeepsOut (k : Crypto) (cr : Credentials) (mac : Mac) (ca : CertAuthority) (req : Request) :
    Prop :=
  (∀ s ∈ req.op.session k cr (ca.setNowUnix req.now), k.deriveMac s.1 ≠ mac ∧
    ∀ row ∈ ca.recordOf mac, row.user = true → req.now < row.notAfter) ∧
  ∀ id ∈ req.op.submitted k (ca.setNowUnix req.now), id.nodeMac = mac →
    ∀ h ∈ (ca.setNowUnix req.now).swept.heldFor mac,
      h.edPubkey = id.edPubkey → h.xPubkey = id.xPubkey → ∀ cert, h.status ≠ .approved cert

instance (k : Crypto) (cr : Credentials) (mac : Mac) (ca : CertAuthority) (req : Request) :
    Decidable (KeepsOut k cr mac ca req) :=
  inferInstanceAs (Decidable (_ ∧ _))

section Barred
variable {k : Crypto} {cr : Credentials} {ca : CertAuthority} {mac : Mac} {last : Nat}

theorem Barred.marked {issued issued' : List IssuedCertData} (h : Barred mac last issued)
    (hmarked : List.Forall₂ Marked issued issued') : Barred mac last issued' := by
  obtain ⟨row, hrow, hrevoked, hlast⟩ := h
  obtain ⟨row', hrow', hmark⟩ := find?_marked hmarked hrow
  refine ⟨row', hrow', ?_⟩
  rcases hmark with rfl | rfl
  · exact ⟨hrevoked, hlast⟩
  · exact ⟨rfl, hlast⟩

theorem Barred.upsert {issued : List IssuedCertData} (h : Barred mac last issued)
    {record : IssuedCertData} (hne : record.nodeMac ≠ mac) :
    Barred mac last (upsert IssuedCertData.nodeMac record issued) := by
  obtain ⟨row, hrow, hrest⟩ := h
  exact ⟨row, (find?_upsert_of_ne hne.symm).trans hrow, hrest⟩

theorem asBytes_of_tryFrom {bytes : Bytes} (h : Mac.tryFrom bytes = some mac) :
    bytes = mac.asBytes := by
  unfold Mac.tryFrom at h
  split at h
  · rw [← Option.some.inj h]
    rfl
  · cases h

theorem Effect.barred {op : Op} {reply : Reply} {ca' : CertAuthority}
    (heffect : Effect k cr ca op reply ca') (h : Barred mac last ca.log.issued)
    (hnow : ca.nowUnix ≤ last)
    (hsession : ∀ s ∈ op.session k cr ca, k.deriveMac s.1 ≠ mac ∧
      ∀ row ∈ ca.recordOf mac, row.user = true → ca.nowUnix < row.notAfter)
    (hnot : ∀ ttl, op = .approveCsr mac.asBytes ttl → reply ≠ .done (.ok ())) :
    Barred mac last ca'.log.issued := by
  cases heffect with
  | desk hdesk =>
    rw [hdesk.issued]
    exact h
  | collect => exact h
  | @issue _ _ ca₁ id ttlSecs commits hdesk _ hgrants =>
    have hne : id.nodeMac ≠ mac := by
      intro hid
      obtain ⟨row, hrow, hrevoked, rfl⟩ := h
      exact not_grants_of_revoked hrow hnow hrevoked hid ttlSecs hgrants
    rw [← hdesk.issued] at h
    rcases ca₁.issue_cases (k := k) commits id ttlSecs with hcase | hcase <;> rw [hcase]
    · exact h
    · exact h.upsert hne
  | @approve nodeMac _ mac' id ttlSecs commits hmac hid =>
    obtain ⟨rfl, _⟩ := approvable_ok hid
    rcases ca.swept.recordApproval_cases (k := k) commits id ttlSecs with hcase | hcase
    · rw [hcase]
      exact h
    · have hne : id.nodeMac ≠ mac := by
        rintro rfl
        refine hnot _ (by rw [asBytes_of_tryFrom hmac]) ?_
        rw [hcase]
      rw [hcase]
      exact h.upsert hne
  | @session _ _ ca₁ ed x user commits hdesk hpresented =>
    obtain ⟨hne, hkept⟩ := hsession _ hpresented
    rcases ca₁.recordSession_cases (k := k) commits ed x user with hcase | hcase <;> rw [hcase]
    · rw [← hdesk.issued] at h
      exact h
    · apply Barred.upsert _ hne
      obtain ⟨row, hrow, hrest⟩ := h
      -- The row is not one of the sessions that are over.
      have hover : (!(row.user && decide (row.notAfter ≤ ca₁.nowUnix))) = true := by
        rw [hdesk.nowUnix]
        by_cases huser : row.user = true
        · simpa [huser] using hkept row hrow huser
        · simp [huser]
      rw [← hdesk.issued] at hrow
      exact ⟨row, find?_filter_of_mem hrow hover, hrest⟩
  | revoke hmac => exact h.marked (marked_markFirstRevoked _)
  | endSessions => exact h.marked (marked_markRevoked _ _)

theorem Effect.cert_of_barred {op : Op} {reply : Reply} {ca' : CertAuthority}
    (heffect : Effect k cr ca op reply ca') (h : Barred mac last ca.log.issued)
    (hnow : ca.nowUnix ≤ last) (hfiled : Filed ca.log.held ca.history.approved)
    (happroval : ∀ id ∈ op.submitted k ca, id.nodeMac = mac → ∀ h ∈ ca.swept.heldFor mac,
      h.edPubkey = id.edPubkey → h.xPubkey = id.xPubkey → ∀ cert, h.status ≠ .approved cert)
    {cert : MembershipCert} (hcert : reply.cert? = some cert) : cert.nodeMac ≠ mac := by
  cases heffect with
  | desk _ hreply =>
    rw [hreply] at hcert
    cases hcert
  | @collect _ id row data hid hheld hkeys hstatus =>
    obtain rfl := Option.some.inj hcert
    have hrow : row ∈ ca.swept.log.held ∧ row.nodeMac = id.nodeMac :=
      ⟨List.mem_of_find?_eq_some hheld, by simpa using List.find?_some hheld⟩
    rw [(hfiled row (List.mem_filter.mp hrow.1).1 data.cert hstatus).1, hrow.2]
    rintro rfl
    exact happroval id hid rfl row hheld hkeys.1 hkeys.2 data.cert hstatus
  | @issue _ _ ca₁ id ttlSecs commits _ _ hgrants hreply =>
    have hid : cert.nodeMac = id.nodeMac := congrArg Identity.nodeMac (hreply cert hcert)
    obtain ⟨row, hrow, hrevoked, rfl⟩ := h
    rw [hid]
    intro hmac
    exact not_grants_of_revoked hrow hnow hrevoked hmac ttlSecs hgrants
  | approve => cases hcert
  | session _ _ hreply =>
    rw [hreply] at hcert
    cases hcert
  | revoke => cases hcert
  | endSessions hreply =>
    rw [hreply] at hcert
    cases hcert

theorem barred_step {req : Request} (h : Barred mac last ca.log.issued) (hnow : req.now ≤ last)
    (hkeeps : KeepsOut k cr mac ca req) (hnot : ¬ Readmits k cr mac ca req) :
    Barred mac last (ca.step k cr req).log.issued := by
  refine (serve_effect k cr ca req).barred h hnow hkeeps.1 ?_
  intro ttl hop hreply
  exact hnot ⟨⟨ttl, hop⟩, hreply⟩

theorem barred_after {reqs : List Request} (h : Barred mac last ca.log.issued)
    (hnow : ∀ req ∈ reqs, req.now ≤ last)
    (hkeeps : Run.AllSafe (step k cr) (KeepsOut k cr mac) ca reqs)
    (hnot : Run.AllSafe (step k cr) (fun ca req => ¬ Readmits k cr mac ca req) ca reqs) :
    Barred mac last (ca.after k cr reqs).log.issued := by
  induction reqs generalizing ca with
  | nil => exact h
  | cons req reqs ih =>
    obtain ⟨hkeep, hkeeps⟩ := Run.allSafe_cons.mp hkeeps
    obtain ⟨hrefused, hnot⟩ := Run.allSafe_cons.mp hnot
    exact ih (barred_step h (hnow req List.mem_cons_self) hkeep hrefused)
      (fun req' hreq' => hnow req' (List.mem_cons_of_mem req hreq')) hkeeps hnot

/-- A revocation that succeeds bars the address for the rest of its record's window. -/
theorem barred_of_revoke (ca : CertAuthority) {commits : Commits} {row : IssuedCertData} {r : RevocationRecord}
    (hrow : ca.recordOf mac = some row)
    (h : (ca.revoke k commits mac.asBytes).1 = .ok r) :
    Barred mac row.notAfter (ca.revoke k commits mac.asBytes).2.log.issued := by
  unfold revoke at h ⊢
  split at h
  · cases h
  rename_i hclock
  rw [if_neg hclock]
  rw [show nodeMacOf mac.asBytes = .ok mac by simp [nodeMacOf]] at h ⊢
  dsimp only [attempt] at h ⊢
  rcases ca.mutate_cases commits.final _ with hm | hm <;> rw [hm] at h ⊢
  · exact ⟨_, find?_markFirstRevoked hrow, rfl, rfl⟩
  · cases h

end Barred

/-- A revoked device stays out for the rest of its record's window, or until an operator
approves it again, where no step of the run after the revocation lets it in by another
door. -/
theorem revoked_stays_out (k : Crypto) (cr : Credentials) (a : Authority) (cfg : ProviderConfig)
    (t₀ : Nat) (start : CertAuthority) (hstart : fromConfig a cfg none t₀ = .ok start)
    (before later : List Request) (t : Nat) (commits : Commits) (req : Request) (mac : Mac)
    (hclock : Timely (before ++ ⟨t, commits, .revoke mac.asBytes⟩ :: (later ++ [req])))
    (row : IssuedCertData) (hrow : (start.after k cr before).recordOf mac = some row)
    (r : RevocationRecord)
    (hrevoked : ((start.after k cr before).serve k cr ⟨t, commits, .revoke mac.asBytes⟩).1 =
      .revocation (.ok r))
    (hopen : req.now ≤ row.notAfter)
    (hunapproved : Run.AllSafe (step k cr) (fun ca req => ¬ Readmits k cr mac ca req)
      (start.after k cr (before ++ [⟨t, commits, .revoke mac.asBytes⟩])) later)
    (hkeeps : Run.AllSafe (step k cr) (KeepsOut k cr mac)
      (start.after k cr (before ++ [⟨t, commits, .revoke mac.asBytes⟩])) (later ++ [req])) :
    ∀ cert, ((start.after k cr
        (before ++ ⟨t, commits, .revoke mac.asBytes⟩ :: later)).serve k cr req).1.cert? =
      some cert → ¬ (cert.isDevice = true ∧ cert.nodeMac = mac) := by
  intro cert hcert hdevice
  have hbarred : Barred mac row.notAfter
      (start.after k cr (before ++ [⟨t, commits, .revoke mac.asBytes⟩])).log.issued := by
    have hok : (((start.after k cr before).setNowUnix t).revoke k commits mac.asBytes).1 =
        .ok r := by
      simpa [serve, perform] using hrevoked
    rw [after, Run.run_append_singleton]
    exact barred_of_revoke ((start.after k cr before).setNowUnix t) hrow hok
  have htimes : ∀ req' ∈ later, req'.now ≤ row.notAfter := by
    intro req' hreq'
    obtain ⟨_, horder, _⟩ := List.pairwise_append.mp hclock.2
    obtain ⟨_, horder⟩ := List.pairwise_cons.mp horder
    have hle := (List.pairwise_append.mp horder).2.2 req' hreq' req (List.mem_singleton.mpr rfl)
    exact Nat.le_trans hle hopen
  have hlater : start.after k cr (before ++ ⟨t, commits, .revoke mac.asBytes⟩ :: later) =
      (start.after k cr (before ++ [⟨t, commits, .revoke mac.asBytes⟩])).after k cr later := by
    rw [after, after, after, ← Run.run_append, List.append_assoc]
    rfl
  have hstill := barred_after hbarred htimes
    (fun pre req' hpre => hkeeps pre req' (hpre.trans (List.prefix_append later [req])))
    hunapproved
  have hkept := hkeeps later req (List.prefix_refl _)
  rw [hlater] at hcert
  refine (serve_effect k cr _ req).cert_of_barred hstill hopen ?_ hkept.2 hcert hdevice.2
  rw [← hlater]
  exact filed_after (filed_fromConfig hstart) _

/-! ### Approved keys -/

/-- What an operator last approved of an address. -/
def lastApproval (mac : Mac) (approved : List Identity) : Option Identity :=
  approved.find? fun id => id.nodeMac = mac

/-- Every device's record is of a key an operator approved, the last one for its address,
and no address has two records. -/
structure Backed (issued : List IssuedCertData) (approved : List Identity) : Prop where
  nodup : (issued.map IssuedCertData.nodeMac).Nodup
  approval : ∀ row ∈ issued, row.user = false →
    ∃ x, lastApproval row.nodeMac approved = some ⟨row.nodeMac, row.edPubkey, x⟩

/-- What the log would answer at once goes by a device's record, and presents the X25519
key approved with it. -/
def Op.KeepsKeys (k : Crypto) (ca : CertAuthority) (op : Op) : Prop :=
  ∀ id ∈ op.identity k ca, ∀ row ∈ ca.liveRow id.nodeMac,
    row.edPubkey = id.edPubkey → row.revoked = false →
      row.user = false ∧
        ∀ approval ∈ lastApproval id.nodeMac ca.history.approved, approval.xPubkey = id.xPubkey

def KeepsKeys (k : Crypto) (ca : CertAuthority) (req : Request) : Prop :=
  req.op.KeepsKeys k (ca.setNowUnix req.now)

instance (k : Crypto) (ca : CertAuthority) (op : Op) : Decidable (op.KeepsKeys k ca) :=
  inferInstanceAs (Decidable (∀ id ∈ op.identity k ca, ∀ row ∈ ca.liveRow id.nodeMac,
    row.edPubkey = id.edPubkey → row.revoked = false → row.user = false ∧
      ∀ approval ∈ lastApproval id.nodeMac ca.history.approved, approval.xPubkey = id.xPubkey))

instance (k : Crypto) (ca : CertAuthority) (req : Request) : Decidable (KeepsKeys k ca req) :=
  inferInstanceAs (Decidable (Op.KeepsKeys k _ _))

section Backed
variable {k : Crypto} {cr : Credentials} {ca : CertAuthority} {issued : List IssuedCertData}
  {approved : List Identity}

theorem Backed.marked {issued' : List IssuedCertData} (h : Backed issued approved)
    (hmarked : List.Forall₂ Marked issued issued') : Backed issued' approved := by
  have hkept : ∀ row row', Marked row row' → row'.nodeMac = row.nodeMac ∧
      row'.edPubkey = row.edPubkey ∧ row'.user = row.user := by
    rintro row _ (rfl | rfl) <;> exact ⟨rfl, rfl, rfl⟩
  constructor
  · have hmacs : issued'.map IssuedCertData.nodeMac = issued.map IssuedCertData.nodeMac := by
      rw [← List.forall₂_eq_eq_eq, List.forall₂_map_left_iff, List.forall₂_map_right_iff]
      refine hmarked.flip.imp ?_
      intro row' row hrow
      exact (hkept row row' hrow).1
    rw [hmacs]
    exact h.nodup
  · intro row' hrow' huser
    obtain ⟨row, hrow, hmark⟩ := exists_of_forall₂_right hmarked hrow'
    obtain ⟨hmac, hed, hsame⟩ := hkept row row' hmark
    rw [hmac, hed]
    exact h.approval row hrow (hsame.symm.trans huser)

theorem Backed.upsert (h : Backed issued approved) {record : IssuedCertData}
    (hrecord : record.user = false →
      ∃ x, lastApproval record.nodeMac approved = some ⟨record.nodeMac, record.edPubkey, x⟩) :
    Backed (upsert IssuedCertData.nodeMac record issued) approved := by
  refine ⟨nodup_upsert h.nodup, ?_⟩
  intro row hrow huser
  rcases mem_upsert hrow with rfl | hrow
  · exact hrecord huser
  · exact h.approval row hrow huser

theorem Backed.filter (h : Backed issued approved) (keep : IssuedCertData → Bool) :
    Backed (issued.filter keep) approved :=
  ⟨h.nodup.sublist (List.filter_sublist.map _),
    fun row hrow => h.approval row (List.mem_filter.mp hrow).1⟩

/-- An approval and the record it writes. The record takes the place of the one its address
had, so none is left under the approval before. -/
theorem Backed.approve (h : Backed issued approved) {id : Identity} {record : IssuedCertData}
    (hmac : record.nodeMac = id.nodeMac) (hed : record.edPubkey = id.edPubkey) :
    Backed (Table.upsert IssuedCertData.nodeMac record issued) (id :: approved) := by
  refine ⟨nodup_upsert h.nodup, ?_⟩
  intro row hrow huser
  by_cases hown : row.nodeMac = id.nodeMac
  · obtain rfl : row = record := 
      List.inj_on_of_nodup_map (nodup_upsert h.nodup) hrow mem_upsert_self (hown.trans hmac.symm)
    refine ⟨id.xPubkey, ?_⟩
    rw [lastApproval, List.find?_cons_of_pos (by simpa using hmac.symm), hmac, hed]
  · rw [lastApproval, List.find?_cons_of_neg (by simpa using Ne.symm hown)]
    rcases mem_upsert hrow with rfl | hrow
    · exact absurd hmac hown
    · exact h.approval row hrow huser

theorem lastApproval_of_grants (h : Backed ca.log.issued ca.history.approved)
    (hasked : ca.autoApprove = false) {op : Op} {id : Identity} {ttlSecs : Option Nat}
    (hid : op.identity k ca = some id) (hgrants : ca.Grants id ttlSecs)
    (hkeys : op.KeepsKeys k ca) :
    lastApproval id.nodeMac ca.history.approved = some id := by
  rcases hgrants with ⟨held, hholder, _⟩ | ⟨_, hauto, _⟩
  · obtain ⟨row, hrow, hed, hrevoked⟩ := liveRow_of_liveHolder hholder
    obtain ⟨huser, hx⟩ := hkeys id hid row hrow hed hrevoked
    have hfound : row.nodeMac = id.nodeMac ∧ ca.nowUnix ≤ row.notAfter := by
      simpa using List.find?_some hrow
    obtain ⟨x, happroval⟩ := h.approval row (List.mem_of_find?_eq_some hrow) huser
    rw [hfound.1, hed] at happroval
    rw [happroval, show x = id.xPubkey from hx _ happroval]
  · rw [hasked] at hauto
    cases hauto

theorem Effect.backed {op : Op} {reply : Reply} {ca' : CertAuthority}
    (heffect : Effect k cr ca op reply ca') (h : Backed ca.log.issued ca.history.approved)
    (hasked : ca.autoApprove = false)
    (hkeys : op.KeepsKeys k ca) :
    Backed ca'.log.issued ca'.history.approved := by
  cases heffect with
  | desk hdesk =>
    rw [hdesk.issued, hdesk.history]
    exact h
  | collect => exact h
  | @issue _ _ ca₁ id ttlSecs commits hdesk hid hgrants =>
    have hlast := lastApproval_of_grants h hasked hid hgrants hkeys
    rw [← hdesk.issued, ← hdesk.history] at h
    rw [← hdesk.history] at hlast
    rcases ca₁.issue_cases (k := k) commits id ttlSecs with hcase | hcase <;> rw [hcase]
    · exact h
    · exact h.upsert fun _ => ⟨id.xPubkey, hlast⟩
  | @approve _ _ mac id ttlSecs commits =>
    rcases ca.swept.recordApproval_cases (k := k) commits id ttlSecs with hcase | hcase <;>
      rw [hcase]
    · exact h
    · exact h.approve rfl rfl
  | @session _ _ ca₁ ed x user commits hdesk =>
    rw [← hdesk.issued, ← hdesk.history] at h
    rcases ca₁.recordSession_cases (k := k) commits ed x user with hcase | hcase <;> rw [hcase]
    · exact h
    · refine (h.filter _).upsert ?_
      intro huser
      cases huser
  | revoke => exact h.marked (marked_markFirstRevoked _)
  | endSessions => exact h.marked (marked_markRevoked _ _)

theorem Effect.cert_of_backed {op : Op} {reply : Reply} {ca' : CertAuthority}
    (heffect : Effect k cr ca op reply ca') (h : Backed ca.log.issued ca.history.approved)
    (hfiled : Filed ca.log.held ca.history.approved) (hasked : ca.autoApprove = false)
    (hkeys : op.KeepsKeys k ca)
    {cert : MembershipCert} (hcert : reply.cert? = some cert) :
    cert.identity ∈ ca.history.approved := by
  cases heffect with
  | desk _ hreply =>
    rw [hreply] at hcert
    cases hcert
  | @collect _ id row data hid hheld hkeys hstatus =>
    obtain rfl := Option.some.inj hcert
    have hrow : row ∈ ca.log.held :=
      (List.mem_filter.mp (List.mem_of_find?_eq_some hheld)).1
    exact (hfiled row hrow data.cert hstatus).2
  | @issue _ _ ca₁ id ttlSecs commits _ hid hgrants hreply =>
    rw [hreply cert hcert]
    exact List.mem_of_find?_eq_some (lastApproval_of_grants h hasked hid hgrants hkeys)
  | approve => cases hcert
  | session _ _ hreply =>
    rw [hreply] at hcert
    cases hcert
  | revoke => cases hcert
  | endSessions hreply =>
    rw [hreply] at hcert
    cases hcert

theorem backed_after {reqs : List Request} (h : Backed ca.log.issued ca.history.approved)
    (hasked : Run.AllSafe (step k cr) (fun ca _ => ca.autoApprove = false) ca reqs)
    (hkeys : Run.AllSafe (step k cr) (KeepsKeys k) ca reqs) :
    Backed (ca.after k cr reqs).log.issued (ca.after k cr reqs).history.approved := by
  induction reqs generalizing ca with
  | nil => exact h
  | cons req reqs ih =>
    obtain ⟨hask, hasked⟩ := Run.allSafe_cons.mp hasked
    obtain ⟨hkey, hkeys⟩ := Run.allSafe_cons.mp hkeys
    exact ih ((serve_effect k cr ca req).backed h hask hkey) hasked hkeys

theorem backed_fromConfig {a : Authority} {cfg : ProviderConfig} {t₀ : Nat}
    (h : fromConfig a cfg none t₀ = .ok ca) : Backed ca.log.issued ca.history.approved := by
  obtain ⟨_, _, h⟩ := exists_of_bind_ok h
  obtain rfl := Except.ok.inj h
  refine ⟨List.nodup_nil, ?_⟩
  intro row hrow
  cases hrow

end Backed

/-- While no certificate is given without asking an operator, every device certificate is
for an address and keys one has approved, in every run that asks for a re-issue only under
a device's record and with the X25519 key approved with it. -/
theorem devices_are_approved (k : Crypto) (cr : Credentials) (a : Authority)
    (cfg : ProviderConfig) (t₀ : Nat) (start : CertAuthority)
    (hstart : fromConfig a cfg none t₀ = .ok start) (reqs : List Request)
    (hasked : Run.AllSafe (step k cr) (fun ca _ => ca.autoApprove = false) start reqs)
    (hkeys : Run.AllSafe (step k cr) (KeepsKeys k) start reqs) :
    Run.AllSafe (step k cr) (fun ca req => ∀ cert, (ca.serve k cr req).1.cert? = some cert →
      cert.isDevice = true → cert.identity ∈ ca.history.approved) start reqs := by
  intro pre req hpre cert hcert _
  have hbefore : pre <+: reqs := (List.prefix_append pre [req]).trans hpre
  have hbacked : Backed (start.after k cr pre).log.issued (start.after k cr pre).history.approved :=
    backed_after (backed_fromConfig hstart)
      (fun pre' req' hpre' => hasked pre' req' (hpre'.trans hbefore))
      (fun pre' req' hpre' => hkeys pre' req' (hpre'.trans hbefore))
  exact (serve_effect k cr (start.after k cr pre) req).cert_of_backed hbacked
    (filed_after (filed_fromConfig hstart) pre) (hasked pre req hpre) (hkeys pre req hpre) hcert

end CertAuthority

namespace SmallMesh

/-! ### Doors of the small mesh -/

def openProvider : ProviderConfig := { provider with autoApprove := true }

/-- Enrolled without asking, node 2 is revoked, and asks again while its window is open. -/
theorem revoked_stays_out_open :
    (((started openProvider).after rootCrypto accounts
      [atSecs 0 (submits id2), revoke2]).serve rootCrypto accounts
        (atSecs 200 (submits id2))).1 = .csr (.ok .pending) ∧
    ∀ cert, (((started openProvider).after rootCrypto accounts
        [atSecs 0 (submits id2), revoke2]).serve rootCrypto accounts
          (atSecs 200 (submits id2))).1.cert? = some cert →
      ¬ (cert.isDevice = true ∧ cert.nodeMac = mac2) :=
  ⟨by decide +kernel, CertAuthority.revoked_stays_out rootCrypto accounts root openProvider epoch
    (started openProvider) rfl [atSecs 0 (submits id2)] [] (epoch + 100) ⟨true, true⟩
    (atSecs 200 (submits id2)) mac2 (by decide +kernel)
    ⟨mac2, id2.edPubkey, epoch, epoch + 3600, false, false, false, false, none⟩
    (by decide +kernel) ejected2 (by decide +kernel) (by decide) Run.allSafe_nil
    (by decide +kernel)⟩

/-- Revoked, node 2 collects the approval still on file; or it signs in with its own key,
and the session's record takes the place of the revoked one. -/
theorem revoked_comes_back :
    CertAuthority.fromConfig root provider none epoch = .ok (started provider) ∧
      CertAuthority.Timely (atSecs 0 (.manageUsers [viewer]) :: approval2 none ++
        [revoke2, atSecs 200 (signsIn id2), atSecs 300 (renews id2)]) ∧
      ((started provider).after rootCrypto accounts (atSecs 0 (.manageUsers [viewer]) ::
        approval2 none)).recordOf mac2 =
          some ⟨mac2, id2.edPubkey, epoch + 10, epoch + 3610, false, false, false, false, none⟩ ∧
      (((started provider).after rootCrypto accounts (atSecs 0 (.manageUsers [viewer]) ::
        approval2 none)).serve rootCrypto accounts revoke2).1 = .revocation (.ok ejected2) ∧
      (((started provider).after rootCrypto accounts (atSecs 0 (.manageUsers [viewer]) ::
        approval2 none ++ [revoke2])).serve rootCrypto accounts (atSecs 200 (submits id2))).1 =
          .csr (.ok (.issued ⟨hour2, root.trustAnchor rootCrypto⟩)) ∧
      (((started provider).after rootCrypto accounts (atSecs 0 (.manageUsers [viewer]) ::
        approval2 none ++ [revoke2, atSecs 200 (signsIn id2)])).serve rootCrypto accounts
          (atSecs 300 (renews id2))).1 = .renewal (.ok (.issued renewed2)) ∧
      hour2.isDevice = true ∧ renewed2.isDevice = true ∧ hour2.nodeMac = mac2 ∧
      renewed2.nodeMac = mac2 := by
  refine ⟨rfl, ?_, ?_, ?_, ?_, ?_, rfl, rfl, rfl, rfl⟩ <;> decide +kernel

theorem devices_are_approved_reissued2 :
    (((started provider).after rootCrypto accounts (approval2 none)).serve rootCrypto accounts
      (atSecs 20 (submits id2))).1.cert? = some reissued2 ∧
    reissued2.identity ∈
      ((started provider).after rootCrypto accounts (approval2 none)).history.approved := by
  have hanswer : (((started provider).after rootCrypto accounts (approval2 none)).serve rootCrypto
      accounts (atSecs 20 (submits id2))).1.cert? = some reissued2 := by decide +kernel
  refine ⟨hanswer, ?_⟩
  exact CertAuthority.devices_are_approved rootCrypto accounts root provider epoch
    (started provider) rfl (approval2 none ++ [atSecs 20 (submits id2)]) (by decide +kernel)
    (by decide +kernel) (approval2 none) (atSecs 20 (submits id2)) (List.prefix_refl _) reissued2
    hanswer rfl

/-- A key nobody approved signs in as a person and is renewed as a device; and an approved
device enrols again with another X25519 key. -/
theorem unapproved_devices :
    CertAuthority.fromConfig root provider none epoch = .ok (started provider) ∧
      Run.AllSafe (CertAuthority.step rootCrypto accounts) (fun ca _ => ca.autoApprove = false)
        (started provider) [atSecs 0 (.manageUsers [viewer]), atSecs 0 (signsIn id4),
          atSecs 20 (renews id4)] ∧
      (((started provider).after rootCrypto accounts [atSecs 0 (.manageUsers [viewer]),
        atSecs 0 (signsIn id4)]).serve rootCrypto accounts (atSecs 20 (renews id4))).1.cert? =
          some renewed4 ∧
      renewed4.isDevice = true ∧
      ((started provider).after rootCrypto accounts [atSecs 0 (.manageUsers [viewer]),
        atSecs 0 (signsIn id4)]).history.approved = [] ∧
      Run.AllSafe (CertAuthority.step rootCrypto accounts) (fun ca _ => ca.autoApprove = false)
        (started provider) (approval2 none ++ [atSecs 20 (submits swapped2.identity)]) ∧
      (((started provider).after rootCrypto accounts (approval2 none)).serve rootCrypto accounts
        (atSecs 20 (submits swapped2.identity))).1.cert? = some swapped2 ∧
      swapped2.isDevice = true ∧
      swapped2.identity ∉
        ((started provider).after rootCrypto accounts (approval2 none)).history.approved := by
  refine ⟨rfl, ?_, ?_, rfl, ?_, ?_, ?_, rfl, ?_⟩ <;> decide +kernel

end SmallMesh

end Wayfinder
