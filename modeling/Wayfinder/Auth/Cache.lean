import Wayfinder.Auth.Run

/-!
# Cached credentials and revocations

A pairwise key is used for every neighbor the cache holds live. Certificates enter
the cache by an OGM, a request or a reply; of the three doors the reply alone does
not ask the revocation set. And a record held ahead of its window comes into force
by the clock, which evicts nobody.
-/

namespace Wayfinder

set_option autoImplicit false

open Table

namespace OgmAuth

variable {c : AuthCapacities} {k : Crypto} {s s' : OgmAuth c}

/-- No key in use belongs to a certificate that a held record cancels. -/
def NoCancelledKey (s : OgmAuth c) : Prop :=
  ∀ mac n, s.liveNeighbor mac = some n → s.isRevoked n.cert = false

/-- A reply must not bring a certificate that is cancelled already, and the clock must
not bring into force a record held against a certificate that stays cached. -/
def Enforced (k : Crypto) (s : OgmAuth c) : AuthOp → Prop
  | .ingestCertReply body => ∀ cert, s.answer k body = some cert → s.isRevoked cert.facts = false
  | .setTime _ wall => ∀ n ∈ s.neighbors.toList, ∀ slot ∈ s.revocations.toList,
      wall.provesPast n.cert.notAfter = false →
      slot.record.namesCert n.cert.mac n.cert.notBefore = true →
      slot.record.inForce wall = true → slot.record.inForce s.wall = true
  | _ => True

theorem noCancelledKey_iff (hs : s.CacheSound k) :
    s.NoCancelledKey ↔ ∀ n ∈ s.neighbors.toList, s.isRevoked n.cert = false := by
  constructor
  · intro hgood n hn
    exact hgood n.cert.mac n (liveNeighbor_eq_some_iff.mpr ⟨hn, rfl, (hs n hn).live⟩)
  · intro hall mac n hn
    exact hall n (liveNeighbor_eq_some_iff.mp hn).1

theorem Checked.unrevoked (h : Checked k s s')
    (hs : ∀ n ∈ s.neighbors.toList, s.isRevoked n.cert = false) :
    ∀ n ∈ s'.neighbors.toList, s'.isRevoked n.cert = false := by
  induction h with
  | kept hkept =>
    intro n hn
    rw [hkept.neighbors] at hn
    rw [hkept.isRevoked]
    exact hs n hn
  | @store s keys _ hkeys =>
    obtain ⟨hkept, hadds⟩ := s.cacheNeighbor_adds keys
    intro n hn
    have hsame : (s.cacheNeighbor keys).1.isRevoked n.cert = s.isRevoked n.cert :=
      hkept.isRevoked n.cert
    rw [hsame]
    rcases hadds n hn with rfl | hn
    · exact hkeys
    · exact hs n hn
  | @revoke s record =>
    obtain ⟨hwall, _, hshrinks, hslots⟩ := ingestRevocation_adds k s record
    intro n hn
    rw [isRevoked_eq_false_iff, hwall]
    intro slot hslot
    rcases hslots slot hslot with hslot | ⟨hrecord, hevicted⟩
    · exact isRevoked_eq_false_iff.mp (hs n (hshrinks n hn)) slot hslot
    · -- The subject of the new record is out of the cache.
      rw [hrecord, ← Bool.not_eq_true, RevocationRecord.cancelsUnder_iff]
      rintro ⟨hmac, _⟩
      exact hevicted n hn hmac.symm
  | trans _ _ ih ih' => exact ih' (ih hs)

theorem ingestCertReply_unrevoked_iff (hs : ∀ n ∈ s.neighbors.toList, s.isRevoked n.cert = false)
    (body : Bytes) :
    (∀ n ∈ (s.ingestCertReply k body).1.neighbors.toList,
        (s.ingestCertReply k body).1.isRevoked n.cert = false) ↔
      ∀ cert, s.answer k body = some cert → s.isRevoked cert.facts = false := by
  have hspec := ingestCertReply_spec k s body
  cases hanswer : s.answer k body with
  | none =>
    rw [hanswer] at hspec
    refine iff_of_true (Checked.unrevoked (.kept hspec : Checked k s _) hs) ?_
    intro cert hcert
    cases hcert
  | some cert =>
    rw [hanswer] at hspec
    obtain ⟨hroom, _, _, _, hkept, pairwiseKey, hput⟩ := hspec
    have hsame : ∀ cert, (s.ingestCertReply k body).1.isRevoked cert = s.isRevoked cert :=
      hkept.isRevoked
    simp only [hsame, hput]
    constructor
    · intro hall cert' hcert'
      obtain rfl := Option.some.inj hcert'
      refine hall _ (KeyedVec.mem_put_self hroom ?_ ?_)
      · intro l hl
        exact List.head?_eq_none_iff.mp hl
      · intro l y hy
        exact List.mem_of_head? hy
    · intro hcert n hn
      rcases KeyedVec.mem_put hn with rfl | ⟨hn, _⟩
      · exact hcert cert rfl
      · exact hs n hn

theorem lt_notAfter_of_inForce {record : RevocationRecord} {wall : Clocked}
    (hjudges : wall.judgesWindows = true) (hforce : record.inForce wall = true) :
    wall.unixOrZero < record.notAfter.get := by
  cases wall with
  | unknown => cases hjudges
  | «at» t =>
    simp only [RevocationRecord.inForce, Bool.and_eq_true, decide_eq_true_eq] at hforce
    exact hforce.2
  | atLeast t =>
    simpa [RevocationRecord.inForce, Clocked.provesReached, Clocked.unixOrZero] using hforce

theorem pruneExpired_unrevoked (hs : ∀ n ∈ s.neighbors.toList, s.isRevoked n.cert = false) :
    ∀ n ∈ s.pruneExpired.neighbors.toList, s.pruneExpired.isRevoked n.cert = false := by
  have hprune := s.pruneExpired_kept
  have hneighbors : s.pruneExpired.neighbors = s.neighbors := hprune.neighbors
  have hwall : s.pruneExpired.wall = s.wall := hprune.wall
  intro n hn
  rw [hneighbors] at hn
  rw [isRevoked_eq_false_iff, hwall]
  intro slot hslot
  exact isRevoked_eq_false_iff.mp (hs n hn) slot (mem_pruneExpired.mp hslot).1

theorem setTime_unrevoked_iff (hs : ∀ n ∈ s.neighbors.toList, s.isRevoked n.cert = false)
    (now : Duration) (wall : Clocked) :
    (∀ n ∈ (s.setTime now wall).neighbors.toList,
        (s.setTime now wall).isRevoked n.cert = false) ↔ Enforced k s (.setTime now wall) := by
  obtain ⟨hwall, _, hneighbors, hslots⟩ := s.setTime_spec now wall
  constructor
  · intro hall n hn slot hslot hlive hnames hforce
    -- A record in force under the new clock is not one the new clock drops.
    have hheld := (hslots slot).mpr ⟨hslot, fun _ => lt_notAfter_of_inForce ‹_› hforce⟩
    have hfalse := isRevoked_eq_false_iff.mp (hall n ((hneighbors n).mpr ⟨hn, hlive⟩)) slot hheld
    rw [hwall] at hfalse
    simp [RevocationRecord.cancelsUnder, hnames, hforce] at hfalse
  · intro henforced n hn
    obtain ⟨hn, hlive⟩ := (hneighbors n).mp hn
    rw [isRevoked_eq_false_iff, hwall]
    intro slot hslot
    have hheld := ((hslots slot).mp hslot).1
    have hbefore := isRevoked_eq_false_iff.mp (hs n hn) slot hheld
    unfold RevocationRecord.cancelsUnder at hbefore ⊢
    cases hnames : slot.record.namesCert n.cert.mac n.cert.notBefore with
    | false => rfl
    | true =>
      rw [hnames] at hbefore
      cases hforce : slot.record.inForce wall with
      | false => rfl
      | true =>
        have hold := henforced n hn slot hheld hlive hnames hforce
        rw [hold] at hbefore
        cases hbefore

/-- From a state in order, exactly the enforced steps lead to a state in order. -/
theorem step_noCancelledKey_iff (hs : s.CacheSound k) (hgood : s.NoCancelledKey) (op : AuthOp) :
    (s.step k op).NoCancelledKey ↔ Enforced k s op := by
  rw [noCancelledKey_iff (step_sound hs op)]
  rw [noCancelledKey_iff hs] at hgood
  have hchecked : Checked k s (s.step k op) → Enforced k s op →
      ((∀ n ∈ (s.step k op).neighbors.toList, (s.step k op).isRevoked n.cert = false) ↔
        Enforced k s op) :=
    fun hstep henforced => iff_of_true (hstep.unrevoked hgood) henforced
  cases op with
  | verifyOgm payload => exact hchecked (verifyOgm_checked hs payload) trivial
  | ingestCertReply body => exact ingestCertReply_unrevoked_iff hgood body
  | verifyCertRequest body => exact hchecked (verifyCertRequest_checked k s body) trivial
  | buildCertRequest orig fp firstHop bufLen =>
    exact hchecked (.kept (s.buildCertRequest_kept k orig fp firstHop bufLen)) trivial
  | ingestRevocation record => exact hchecked (.revoke record) trivial
  | takeSelfRevoked => exact hchecked (.kept s.takeSelfRevoked_kept) trivial
  | setTime now wall => exact setTime_unrevoked_iff hgood now wall
  | pruneExpired => exact iff_of_true (pruneExpired_unrevoked hgood) trivial

/-- A run never uses the key of a cancelled certificate, exactly when every reply it
takes and every move of its clock is enforced. -/
theorem run_noCancelledKey_iff (c : AuthCapacities) (k : Crypto) (keypair : Keypair)
    (cert : MembershipCert) (anchor : TrustAnchor) (ops : List AuthOp) :
    Run.AllGood (step k) NoCancelledKey (withCapacities c keypair cert anchor) ops ↔
      Run.AllSafe (step k) (Enforced k) (withCapacities c keypair cert anchor) ops := by
  have hinit := withCapacities_sound (c := c) k keypair cert anchor
  apply Run.allGood_iff_allSafe
  · intro mac n hn
    cases hn
  · intro pre op hgood
    exact step_noCancelledKey_iff (run_sound hinit pre) hgood op

section SmallMesh
open SmallMesh

/-- Node 3 asks for the certificate of node 2, learns that it is revoked, and takes it
from the reply. -/
def repliedTo : List AuthOp :=
  [.setTime (Duration.ofSecs 600) (.at 600), .buildCertRequest mac2 (.zero 8) mac2 1500,
    .ingestRevocation revoked500, .ingestCertReply cert2.asBytes]

def overtaken : List AuthOp :=
  [.setTime (Duration.ofSecs 400) (.at 400), .ingestRevocation revoked500,
    .verifyOgm (ogm7 228), .setTime (Duration.ofSecs 600) (.at 600)]

theorem not_allGood_of_any {ops : List AuthOp} (mac : Mac)
    (h : ((s.run k ops).liveNeighbor mac).any (fun n => (s.run k ops).isRevoked n.cert) = true) :
    ¬ Run.AllGood (step k) NoCancelledKey s ops := by
  intro hgood
  obtain ⟨n, hn, hrevoked⟩ := (Option.any_eq_true _ _).mp h
  have hfalse := hgood ops (List.prefix_refl ops) mac n hn
  exact Bool.noConfusion (hrevoked.symm.trans hfalse)

theorem revoked_key_in_use :
    ¬ Run.AllGood (step crypto) NoCancelledKey
        (withCapacities capacities (SmallMesh.keypair 3) cert3 SmallMesh.anchor) repliedTo ∧
      ¬ Run.AllGood (step crypto) NoCancelledKey
        (withCapacities capacities (SmallMesh.keypair 3) cert3 SmallMesh.anchor) overtaken := by
  constructor
  · exact not_allGood_of_any mac2 (by decide +kernel)
  · exact not_allGood_of_any mac2 (by decide +kernel)

end SmallMesh

end OgmAuth

end Wayfinder
