import Wayfinder.Auth.State
import Wayfinder.Lib.Latest

/-!
# Merging revocations

Ingesting a record is a merge by subject: for each address the set keeps the first
of the records with the latest `not_before`. A record replaces an earlier one
whatever either does at the present clock, so a future-dated record lifts the
enforcement of the one it supersedes until its own instant arrives; and of two
records with one instant the order of arrival decides which is held.
-/

namespace Wayfinder

set_option autoImplicit false

open Table Latest

namespace OgmAuth

variable {c : AuthCapacities} {k : Crypto} {s : OgmAuth c} {record : RevocationRecord}

/-- The record verifies under the present clock and names another node. -/
def enforceable (k : Crypto) (s : OgmAuth c) (record : RevocationRecord) : Bool :=
  match s.anchor.verifyRevocation k record s.wall.unixOrZero with
  | .ok mac => mac ≠ s.cert.nodeMac
  | .error _ => false

theorem enforceable_iff : s.enforceable k record = true ↔ s.anchor.Revokes k record ∧
    s.wall.unixOrZero < record.notAfter.get ∧ record.nodeMac ≠ s.cert.nodeMac := by
  unfold enforceable
  cases hverify : s.anchor.verifyRevocation k record s.wall.unixOrZero with
  | error e =>
    simp only [Bool.false_eq_true, false_iff]
    rintro ⟨hsigned, hlive, _⟩
    rw [TrustAnchor.verifyRevocation_ok.mpr ⟨hsigned, hlive, rfl⟩] at hverify
    cases hverify
  | ok mac =>
    obtain ⟨hsigned, hlive, rfl⟩ := TrustAnchor.verifyRevocation_ok.mp hverify
    simp [hsigned, hlive]

def IsNews (s : OgmAuth c) (record : RevocationRecord) : Prop :=
  ∀ slot ∈ s.revocations.toList, slot.mac = record.nodeMac →
    slot.record.notBefore.get < record.notBefore.get

/-- No other record has to make room for this one. -/
def HasRoom (s : OgmAuth c) (record : RevocationRecord) : Prop :=
  (∃ slot ∈ s.revocations.toList, slot.mac = record.nodeMac) ∨
    s.revocations.toList.length < c.maxRevoked

/-- All an ingestion can do: hold the record, or at most latch it. -/
theorem ingestRevocation_cases (k : Crypto) (s : OgmAuth c) (record : RevocationRecord) :
    (s.enforceable k record = true ∧ s.IsNews record ∧
        s.ingestRevocation k record = (s.holdRevocation record record.nodeMac, true)) ∨
      ((s.enforceable k record = false ∨ ¬ s.IsNews record) ∧
        ∃ latch, s.ingestRevocation k record = ({ s with selfRevocation := latch }, false)) := by
  unfold ingestRevocation enforceable
  cases hverify : s.anchor.verifyRevocation k record s.wall.unixOrZero with
  | error e => exact Or.inr ⟨Or.inl rfl, s.selfRevocation, rfl⟩
  | ok mac =>
    obtain ⟨_, _, rfl⟩ := TrustAnchor.verifyRevocation_ok.mp hverify
    dsimp only
    by_cases hself : record.nodeMac = s.cert.nodeMac
    · rw [if_pos hself]
      refine Or.inr ⟨Or.inl (by simp [hself]), ?_⟩
      unfold latchSelfRevocation
      split
      · exact ⟨s.selfRevocation, rfl⟩
      · split
        · exact ⟨s.selfRevocation, rfl⟩
        · exact ⟨some record, rfl⟩
    · rw [if_neg hself]
      cases hfind : s.revocations.find? record.nodeMac with
      | none =>
        have hnone := KeyedVec.find?_eq_none_iff.mp hfind
        exact Or.inl ⟨by simp [hself], fun slot hslot hmac => absurd hmac (hnone slot hslot), rfl⟩
      | some slot =>
        obtain ⟨hslot, hmac⟩ := KeyedVec.find?_eq_some_iff.mp hfind
        dsimp only
        by_cases hle : record.notBefore.get ≤ slot.record.notBefore.get
        · rw [if_pos hle]
          refine Or.inr ⟨Or.inr ?_, s.selfRevocation, rfl⟩
          intro hnews
          exact Nat.not_lt.mpr hle (hnews slot hslot hmac)
        · rw [if_neg hle]
          refine Or.inl ⟨by simp [hself], ?_, rfl⟩
          intro slot' hslot' hmac'
          obtain rfl := KeyedVec.eq_of_key hslot hslot' (hmac.trans hmac'.symm)
          exact Nat.lt_of_not_le hle

/-! ### Enforcement under one more record -/

theorem isRevoked_iff {cert : VerifiedCert} : s.isRevoked cert = true ↔
    ∃ slot ∈ s.revocations.toList, slot.record.cancelsUnder cert s.wall = true := by
  simp [isRevoked]

/-- A held record that cancels the certificate is superseded by one that is not yet
in force. -/
def SupersededEarly (s : OgmAuth c) (record : RevocationRecord) (cert : VerifiedCert) : Prop :=
  record.nodeMac ≠ s.cert.nodeMac ∧
    (∃ slot ∈ s.revocations.toList, slot.mac = record.nodeMac ∧
      slot.record.cancelsUnder cert s.wall = true ∧
      slot.record.notBefore.get < record.notBefore.get) ∧
    ∃ t, s.wall = .at t ∧ t < record.notBefore.get ∧ t < record.notAfter.get

theorem mem_holdRevocation (hroom : s.HasRoom record) {slot : KnownRevocation} :
    slot ∈ (s.holdRevocation record record.nodeMac).revocations.toList ↔
      slot = ⟨record, revokeFloodBudget⟩ ∨
        slot ∈ s.revocations.toList ∧ slot.mac ≠ record.nodeMac :=
  KeyedVec.mem_put_iff (x := (⟨record, revokeFloodBudget⟩ : KnownRevocation)) hroom

theorem inForce_of_live (hlive : s.wall.unixOrZero < record.notAfter.get)
    (hnot : record.inForce s.wall = false) :
    ∃ t, s.wall = .at t ∧ t < record.notBefore.get := by
  cases hwall : s.wall with
  | «at» t =>
    rw [hwall] at hlive hnot
    refine ⟨t, rfl, ?_⟩
    simp only [RevocationRecord.inForce, Bool.and_eq_false_iff, decide_eq_false_iff_not] at hnot
    simp only [Clocked.unixOrZero] at hlive
    omega
  | atLeast t =>
    rw [hwall] at hlive hnot
    simp only [RevocationRecord.inForce, Clocked.provesReached, Bool.not_eq_false',
      decide_eq_true_eq] at hnot
    simp only [Clocked.unixOrZero] at hlive
    omega
  | unknown =>
    rw [hwall] at hnot
    simp [RevocationRecord.inForce, Clocked.provesReached] at hnot

/-- A certificate stays cancelled by a held record after one more validly signed
record is ingested, exactly when that record does not supersede the one that cancels
it before its own instant. -/
theorem isRevoked_after_ingest_iff (hsigned : s.anchor.Revokes k record)
    (hroom : s.HasRoom record) (cert : VerifiedCert) :
    (s.isRevoked cert = true → (s.ingestRevocation k record).1.isRevoked cert = true) ↔
      ¬ s.SupersededEarly record cert := by
  rcases ingestRevocation_cases k s record with ⟨henf, hnews, heq⟩ | ⟨hnot, latch, heq⟩
  · obtain ⟨_, hlive, hother⟩ := enforceable_iff.mp henf
    rw [heq]
    constructor
    · rintro hkeep ⟨_, ⟨slot, hslot, hmac, hcancels, hearlier⟩, t, hwall, hbefore, _⟩
      obtain ⟨slot', hslot', hcancels'⟩ := isRevoked_iff.mp
        (hkeep (isRevoked_iff.mpr ⟨slot, hslot, hcancels⟩))
      have hcert := (RevocationRecord.cancelsUnder_iff.mp hcancels).1
      obtain ⟨hcert', _, hforce⟩ := RevocationRecord.cancelsUnder_iff.mp hcancels'
      rcases (mem_holdRevocation hroom).mp hslot' with rfl | ⟨hheld, hne⟩
      · have hwall' : (s.holdRevocation record record.nodeMac).wall = .at t := hwall
        rw [hwall'] at hforce
        simp only [RevocationRecord.inForce, Bool.and_eq_true, decide_eq_true_eq] at hforce
        omega
      · exact hne (hcert'.trans (hcert.symm.trans hmac))
    · intro hsafe hrevoked
      obtain ⟨slot, hslot, hcancels⟩ := isRevoked_iff.mp hrevoked
      by_cases hmac : slot.mac = record.nodeMac
      · have hearlier := hnews slot hslot hmac
        refine isRevoked_iff.mpr ⟨⟨record, revokeFloodBudget⟩,
          (mem_holdRevocation hroom).mpr (Or.inl rfl), ?_⟩
        obtain ⟨hcert, hcut, _⟩ := RevocationRecord.cancelsUnder_iff.mp hcancels
        refine RevocationRecord.cancelsUnder_iff.mpr
          ⟨hmac.symm.trans hcert, Nat.le_trans hcut (Nat.le_of_lt hearlier), ?_⟩
        by_contra hforce
        obtain ⟨t, hwall, hbefore⟩ := inForce_of_live hlive (Bool.eq_false_iff.mpr hforce)
        rw [hwall] at hlive
        exact hsafe ⟨hother, ⟨slot, hslot, hmac, hcancels, hearlier⟩, t, hwall, hbefore, hlive⟩
      · exact isRevoked_iff.mpr ⟨slot, (mem_holdRevocation hroom).mpr (Or.inr ⟨hslot, hmac⟩),
          hcancels⟩
  · rw [heq]
    refine iff_of_true id ?_
    rintro ⟨hother, ⟨slot, hslot, hmac, _, hearlier⟩, t, hwall, _, hlive⟩
    rcases hnot with hnot | hnot
    · have henf := (enforceable_iff (s := s)).mpr ⟨hsigned, by rw [hwall]; exact hlive, hother⟩
      rw [henf] at hnot
      cases hnot
    · apply hnot
      intro slot' hslot' hmac'
      obtain rfl := KeyedVec.eq_of_key hslot hslot' (hmac.trans hmac'.symm)
      exact hearlier

section SmallMesh
open SmallMesh

theorem revoked700_signed : SmallMesh.anchor.Revokes crypto revoked700 :=
  ⟨rfl, rfl, by decide +kernel, by decide +kernel⟩

theorem isRevoked_after_ingest_at800 :
    (((node3 800).ingestRevocation crypto revoked500).1.ingestRevocation crypto
      revoked700).1.isRevoked cert2.facts = true := by
  have hanchor : ((node3 800).ingestRevocation crypto revoked500).1.anchor = SmallMesh.anchor := by
    decide +kernel
  refine (isRevoked_after_ingest_iff ?_ ?_ cert2.facts).mpr ?_ (by decide +kernel)
  · rw [hanchor]
    exact revoked700_signed
  · exact Or.inr (by decide +kernel)
  · rintro ⟨_, _, t, hwall, hbefore, _⟩
    have hclock : ((node3 800).ingestRevocation crypto revoked500).1.wall = .at 800 := by
      decide +kernel
    obtain rfl := Clocked.at.inj (hclock.symm.trans hwall)
    exact absurd hbefore (by decide +kernel)

/-- At 600 it is not, and ingesting it lifts the revocation. -/
theorem isRevoked_lifted_at600 :
    SmallMesh.anchor.Revokes crypto revoked700 ∧
      ((node3 600).ingestRevocation crypto revoked500).1.HasRoom revoked700 ∧
      ((node3 600).ingestRevocation crypto revoked500).1.isRevoked cert2.facts = true ∧
      (((node3 600).ingestRevocation crypto revoked500).1.ingestRevocation crypto
        revoked700).1.isRevoked cert2.facts = false :=
  ⟨revoked700_signed, Or.inr (by decide +kernel), by decide +kernel, by decide +kernel⟩

end SmallMesh

/-! ### Orders of arrival -/

def ingestAll (k : Crypto) (s : OgmAuth c) (order : List RevocationRecord) : OgmAuth c :=
  order.foldl (fun s record => (s.ingestRevocation k record).1) s

def heldRecords (s : OgmAuth c) : List RevocationRecord :=
  s.revocations.toList.map KnownRevocation.record

def heldFor (s : OgmAuth c) (mac : Mac) : Option RevocationRecord :=
  (s.revocations.find? mac).map KnownRevocation.record

def instant (record : RevocationRecord) : Nat := record.notBefore.get

/-- The records of a set that ingestion would hold for an address. -/
def about (k : Crypto) (s : OgmAuth c) (mac : Mac) (records : List RevocationRecord) :
    List RevocationRecord :=
  records.filter fun r => s.enforceable k r && r.nodeMac = mac

/-- The subjects of the held records and of the set fit in the table together. -/
def Fits (k : Crypto) (s : OgmAuth c) (records : List RevocationRecord) : Prop :=
  ∃ macs : List Mac, macs.length ≤ c.maxRevoked ∧
    (∀ slot ∈ s.revocations.toList, slot.mac ∈ macs) ∧
    ∀ r ∈ records, s.enforceable k r = true → r.nodeMac ∈ macs

theorem mem_heldRecords {r : RevocationRecord} :
    r ∈ s.heldRecords ↔ s.heldFor r.nodeMac = some r := by
  rw [heldRecords, heldFor, List.mem_map, Option.map_eq_some_iff]
  simp only [KeyedVec.find?_eq_some_iff]
  constructor
  · rintro ⟨slot, hslot, rfl⟩
    exact ⟨slot, ⟨hslot, rfl⟩, rfl⟩
  · rintro ⟨slot, ⟨hslot, _⟩, rfl⟩
    exact ⟨slot, hslot, rfl⟩

theorem isNews_iff : s.IsNews record ↔
    ∀ h, s.heldFor record.nodeMac = some h → instant h < instant record := by
  constructor
  · intro hnews h hh
    obtain ⟨slot, hslot, rfl⟩ := Option.map_eq_some_iff.mp hh
    obtain ⟨hmem, hmac⟩ := KeyedVec.find?_eq_some_iff.mp hslot
    exact hnews slot hmem hmac
  · intro hall slot hslot hmac
    apply hall
    rw [heldFor, KeyedVec.find?_eq_some_iff.mpr ⟨hslot, hmac⟩]
    rfl

theorem Fits.hasRoom {records : List RevocationRecord} (h : s.Fits k records)
    (hmem : record ∈ records) (henf : s.enforceable k record = true) : s.HasRoom record := by
  obtain ⟨macs, hlen, hheld, hset⟩ := h
  by_cases hknown : ∃ slot ∈ s.revocations.toList, slot.mac = record.nodeMac
  · exact Or.inl hknown
  · right
    have hnodup : (record.nodeMac :: s.revocations.toList.map KnownRevocation.mac).Nodup := by
      refine List.nodup_cons.mpr ⟨?_, s.revocations.nodup⟩
      intro hin
      obtain ⟨slot, hslot, hmac⟩ := List.mem_map.mp hin
      exact hknown ⟨slot, hslot, hmac⟩
    have hsub : record.nodeMac :: s.revocations.toList.map KnownRevocation.mac ⊆ macs := by
      intro m hm
      rcases List.mem_cons.mp hm with rfl | hm
      · exact hset record hmem henf
      · obtain ⟨slot, hslot, rfl⟩ := List.mem_map.mp hm
        exact hheld slot hslot
    have hle := (List.subperm_of_subset hnodup hsub).length_le
    simp only [List.length_cons, List.length_map] at hle
    omega

theorem heldFor_holdRevocation (hroom : s.HasRoom record) (mac : Mac) :
    (s.holdRevocation record record.nodeMac).heldFor mac =
      if mac = record.nodeMac then some record else s.heldFor mac := by
  have hput : (s.holdRevocation record record.nodeMac).revocations.find? mac =
      if mac = record.nodeMac then some ⟨record, revokeFloodBudget⟩
      else s.revocations.find? mac :=
    KeyedVec.find?_put (x := (⟨record, revokeFloodBudget⟩ : KnownRevocation)) hroom mac
  rw [heldFor, hput]
  split <;> rfl

/-- What an ingestion does at one address: the record held there and the cached
neighbor are those of a register, and the neighbor goes when the register moves. -/
theorem ingestRevocation_at (hroom : s.enforceable k record = true → s.HasRoom record)
    (mac : Mac) :
    let s' := (s.ingestRevocation k record).1
    (s'.cert = s.cert ∧ s'.anchor = s.anchor ∧ s'.wall = s.wall) ∧
      s'.heldFor mac = latest instant (s.heldFor mac) (s.about k mac [record]) ∧
      s'.neighbors.find? mac =
        if s'.heldFor mac = s.heldFor mac then s.neighbors.find? mac else none := by
  intro s'
  rcases ingestRevocation_cases k s record with ⟨henf, hnews, heq⟩ | ⟨hnot, latch, heq⟩
  · have hs' : s' = s.holdRevocation record record.nodeMac := congrArg Prod.fst heq
    have hheld : s'.heldFor mac =
        if mac = record.nodeMac then some record else s.heldFor mac := by
      rw [hs']
      exact heldFor_holdRevocation (hroom henf) mac
    have hnbr : s'.neighbors.find? mac =
        if mac = record.nodeMac then none else s.neighbors.find? mac := by
      rw [hs']
      exact KeyedVec.find?_remove mac
    refine ⟨by rw [hs']; exact ⟨rfl, rfl, rfl⟩, ?_, ?_⟩
    · rw [hheld, about]
      by_cases hmac : mac = record.nodeMac
      · rw [if_pos hmac, List.filter_cons_of_pos (by simp [henf, hmac]), List.filter_nil]
        refine (keepLatest_of_lt ?_).symm
        rw [hmac]
        exact isNews_iff.mp hnews
      · rw [if_neg hmac, List.filter_cons_of_neg (by simpa [henf] using Ne.symm hmac)]
        rfl
    · rw [hnbr, hheld]
      by_cases hmac : mac = record.nodeMac
      · rw [if_pos hmac, if_pos hmac]
        split
        · rename_i heq'
          subst hmac
          exact absurd (isNews_iff.mp hnews record heq'.symm) (Nat.lt_irrefl _)
        · rfl
      · rw [if_neg hmac, if_neg hmac, if_pos rfl]
  · have hs' : s' = { s with selfRevocation := latch } := congrArg Prod.fst heq
    have hheld : s'.heldFor mac = s.heldFor mac := by rw [hs']; rfl
    refine ⟨by rw [hs']; exact ⟨rfl, rfl, rfl⟩, ?_, by rw [if_pos hheld, hs']⟩
    rw [hheld, about]
    by_cases hmac : s.enforceable k record = true ∧ record.nodeMac = mac
    · rw [List.filter_cons_of_pos (by simpa using hmac), List.filter_nil]
      obtain ⟨henf, rfl⟩ := hmac
      have hold : ¬ s.IsNews record := by
        rcases hnot with hnot | hnot
        · rw [henf] at hnot
          cases hnot
        · exact hnot
      rw [isNews_iff] at hold
      push Not at hold
      obtain ⟨h, hh, hle⟩ := hold
      rw [hh]
      exact (keepLatest_of_le hle).symm
    · rw [List.filter_cons_of_neg (by simpa using hmac)]
      rfl

theorem about_congr {s' : OgmAuth c} (hcert : s'.cert = s.cert) (hanchor : s'.anchor = s.anchor)
    (hwall : s'.wall = s.wall) (mac : Mac) (records : List RevocationRecord) :
    s'.about k mac records = s.about k mac records := by
  unfold about enforceable
  rw [hcert, hanchor, hwall]

theorem Fits.step {rest : List RevocationRecord} (h : s.Fits k (record :: rest)) :
    (s.ingestRevocation k record).1.Fits k rest := by
  obtain ⟨macs, hlen, hheld, hset⟩ := h
  rcases ingestRevocation_cases k s record with ⟨henf, _, heq⟩ | ⟨_, latch, heq⟩
  · rw [heq]
    refine ⟨macs, hlen, ?_, fun r hr => hset r (List.mem_cons_of_mem _ hr)⟩
    intro slot hslot
    rcases KeyedVec.mem_put hslot with rfl | ⟨hslot, _⟩
    · exact hset record (List.mem_cons_self ..) henf
    · exact hheld slot hslot
  · rw [heq]
    exact ⟨macs, hlen, hheld, fun r hr => hset r (List.mem_cons_of_mem _ hr)⟩

theorem ingestAll_at {order : List RevocationRecord} (hfits : s.Fits k order) (mac : Mac) :
    (s.ingestAll k order).wall = s.wall ∧
      (s.ingestAll k order).heldFor mac =
        latest instant (s.heldFor mac) (s.about k mac order) ∧
      (s.ingestAll k order).neighbors.find? mac =
        if (s.ingestAll k order).heldFor mac = s.heldFor mac then s.neighbors.find? mac
        else none := by
  induction order generalizing s with
  | nil => exact ⟨rfl, rfl, (if_pos rfl).symm⟩
  | cons record rest ih =>
    obtain ⟨⟨hcert, hanchor, hwall⟩, hheld, hnbr⟩ := ingestRevocation_at
      (fun henf => hfits.hasRoom (List.mem_cons_self ..) henf) mac
    obtain ⟨hwall', hheld', hnbr'⟩ := ih hfits.step
    have hsplit : s.about k mac (record :: rest) =
        s.about k mac [record] ++ s.about k mac rest := List.filter_append [record] rest
    have hlast : (s.ingestAll k (record :: rest)).heldFor mac =
        latest instant (s.heldFor mac) (s.about k mac (record :: rest)) := by
      rw [hsplit, latest, List.foldl_append]
      refine hheld'.trans ?_
      rw [about_congr hcert hanchor hwall, hheld]
      rfl
    refine ⟨hwall'.trans hwall, hlast, hnbr'.trans ?_⟩
    rw [hnbr]
    by_cases hmoved : (s.ingestRevocation k record).1.heldFor mac = s.heldFor mac
    · rw [hmoved, if_pos rfl]
      rfl
    · -- The neighbor is gone for good once the register has moved: it only moves up.
      have hgone : (s.ingestAll k (record :: rest)).heldFor mac ≠ s.heldFor mac := by
        intro hsame
        rw [hlast, hsplit] at hsame
        exact hmoved (hheld.trans (latest_eq_held_of_append hsame))
      rw [if_neg hmoved, if_neg hgone]
      exact ite_self none

/-! ### Convergence -/

/-- The two states hold the same records, and answer alike for every certificate and
every neighbor. -/
structure SameView (s s' : OgmAuth c) : Prop where
  held : ∀ r, r ∈ s.heldRecords ↔ r ∈ s'.heldRecords
  revoked : ∀ cert, s.isRevoked cert = s'.isRevoked cert
  shunned : ∀ mac, s.isShunned mac = s'.isShunned mac

theorem isRevoked_eq_any (cert : VerifiedCert) :
    s.isRevoked cert = s.heldRecords.any fun r => r.cancelsUnder cert s.wall := by
  simp [isRevoked, heldRecords, Function.comp_def]

theorem isShunned_iff {mac : Mac} : s.isShunned mac = true ↔
    ∃ r, s.heldFor mac = some r ∧
      ∀ n, s.neighbors.find? mac = some n → r.cancelsUnder n.cert s.wall = true := by
  unfold isShunned
  rw [List.any_eq_true]
  have hfind : (s.neighbors.toList.find? fun n => n.cert.mac = mac) = s.neighbors.find? mac := rfl
  rw [hfind]
  constructor
  · rintro ⟨slot, hslot, hcancels⟩
    obtain ⟨hmem, hmac⟩ := List.mem_filter.mp hslot
    have hheld : s.revocations.find? mac = some slot :=
      KeyedVec.find?_eq_some_iff.mpr ⟨hmem, of_decide_eq_true hmac⟩
    refine ⟨slot.record, by rw [heldFor, hheld]; rfl, ?_⟩
    intro n hn
    rw [hn] at hcancels
    exact hcancels
  · rintro ⟨r, hr, hcancels⟩
    obtain ⟨slot, hslot, rfl⟩ := Option.map_eq_some_iff.mp hr
    obtain ⟨hmem, hmac⟩ := KeyedVec.find?_eq_some_iff.mp hslot
    refine ⟨slot, List.mem_filter.mpr ⟨hmem, decide_eq_true hmac⟩, ?_⟩
    cases hn : s.neighbors.find? mac with
    | none => rfl
    | some n => exact hcancels n hn

theorem sameView_of_heldFor {s s' : OgmAuth c} (hheld : ∀ mac, s.heldFor mac = s'.heldFor mac)
    (hnbr : ∀ mac, s.neighbors.find? mac = s'.neighbors.find? mac) (hwall : s.wall = s'.wall) :
    SameView s s' := by
  have hrecords : ∀ r, r ∈ s.heldRecords ↔ r ∈ s'.heldRecords := by
    intro r
    rw [mem_heldRecords, mem_heldRecords, hheld]
  refine ⟨hrecords, ?_, ?_⟩
  · intro cert
    rw [isRevoked_eq_any, isRevoked_eq_any, hwall, Bool.eq_iff_iff, List.any_eq_true,
      List.any_eq_true]
    simp only [hrecords]
  · intro mac
    rw [Bool.eq_iff_iff, isShunned_iff, isShunned_iff, hheld, hnbr, hwall]

def IsOrderOf (order records : List RevocationRecord) : Prop := ∀ r, r ∈ order ↔ r ∈ records

theorem Fits.of_order {records order : List RevocationRecord} (h : s.Fits k records)
    (ho : IsOrderOf order records) : s.Fits k order := by
  obtain ⟨macs, hlen, hheld, hset⟩ := h
  exact ⟨macs, hlen, hheld, fun r hr => hset r ((ho r).mp hr)⟩

theorem mem_about {mac : Mac} {records : List RevocationRecord} {r : RevocationRecord} :
    r ∈ s.about k mac records ↔ r ∈ records ∧ s.enforceable k r = true ∧ r.nodeMac = mac := by
  simp [about]

/-- Any two orders of a set of records that fits, with repetitions, leave the same
view, exactly when for every address the latest instant of the set is carried by one
record, or is no later than what was held before. -/
theorem ingestAll_converges_iff {records : List RevocationRecord} (hfits : s.Fits k records) :
    (∀ order order', IsOrderOf order records → IsOrderOf order' records →
        SameView (s.ingestAll k order) (s.ingestAll k order')) ↔
      ∀ mac, UniqueLatest instant (s.heldFor mac) (s.about k mac records) := by
  constructor
  · intro hsame mac x y hx hy
    have hfirst : ∀ z, Leads instant (s.heldFor mac) (s.about k mac records) z →
        IsOrderOf (z :: records) records ∧
          (s.ingestAll k (z :: records)).heldFor mac = some z := by
      intro z hz
      obtain ⟨hmem, henf, hmac⟩ := mem_about.mp hz.1
      have horder : IsOrderOf (z :: records) records := by
        intro r
        constructor
        · intro hr
          rcases List.mem_cons.mp hr with rfl | hr
          · exact hmem
          · exact hr
        · exact List.mem_cons_of_mem _
      refine ⟨horder, ?_⟩
      rw [(ingestAll_at (hfits.of_order horder) mac).2.1, about,
        List.filter_cons_of_pos (by simp [henf, hmac])]
      exact latest_of_first hz.2.1 hz.2.2
    obtain ⟨hox, hheldx⟩ := hfirst x hx
    obtain ⟨hoy, hheldy⟩ := hfirst y hy
    have hmacx := (mem_about.mp hx.1).2.2
    have hin : x ∈ (s.ingestAll k (x :: records)).heldRecords := by
      rw [mem_heldRecords, hmacx]
      exact hheldx
    rw [(hsame _ _ hox hoy).held x, mem_heldRecords, hmacx, hheldy] at hin
    exact (Option.some.inj hin).symm
  · intro hunique order order' ho ho'
    have hheld : ∀ mac, (s.ingestAll k order).heldFor mac = (s.ingestAll k order').heldFor mac := by
      intro mac
      rw [(ingestAll_at (hfits.of_order ho) mac).2.1, (ingestAll_at (hfits.of_order ho') mac).2.1]
      have hcongr : ∀ o, IsOrderOf o records →
          latest instant (s.heldFor mac) (s.about k mac records) =
            latest instant (s.heldFor mac) (s.about k mac o) := by
        intro o hord
        apply latest_congr (hunique mac)
        intro r
        rw [mem_about, mem_about, hord r]
      rw [← hcongr order ho, ← hcongr order' ho']
    refine sameView_of_heldFor hheld ?_ ?_
    · intro mac
      rw [(ingestAll_at (hfits.of_order ho) mac).2.2, (ingestAll_at (hfits.of_order ho') mac).2.2,
        hheld mac]
    · rw [(ingestAll_at (hfits.of_order ho) Mac.zero).1,
        (ingestAll_at (hfits.of_order ho') Mac.zero).1]

section SmallMesh
open SmallMesh

theorem node3_fits (records : List RevocationRecord)
    (h : ∀ r ∈ records, r.nodeMac = mac2) : (node3 600).Fits crypto records := by
  refine ⟨[mac2], by decide, ?_, ?_⟩
  · have hempty : (node3 600).revocations.toList = [] := by decide +kernel
    rw [hempty]
    simp
  · intro r hr _
    exact List.mem_singleton.mpr (h r hr)

theorem ingestAll_converges_two_instants :
    SameView ((node3 600).ingestAll crypto [revoked500, revoked700])
      ((node3 600).ingestAll crypto [revoked700, revoked500]) := by
  refine (ingestAll_converges_iff
    (node3_fits [revoked500, revoked700] (by simp [revoked500, revoked700, revocationOf2]))).mpr ?_ _ _ ?_ ?_
  · intro mac
    have hlast : ∀ z, Leads instant ((node3 600).heldFor mac)
        ((node3 600).about crypto mac [revoked500, revoked700]) z → z = revoked700 := by
      intro z hz
      obtain ⟨hmem, henf, hmac⟩ := mem_about.mp hz.1
      rcases List.mem_cons.mp hmem with rfl | hmem
      · have hlater : revoked700 ∈
            (node3 600).about crypto mac [revoked500, revoked700] :=
          mem_about.mpr ⟨by simp, by decide +kernel, hmac⟩
        exact absurd (hz.2.1 _ hlater) (by decide +kernel)
      · exact List.mem_singleton.mp hmem
    intro x y hx hy
    rw [hlast x hx, hlast y hy]
  · exact fun r => Iff.rfl
  · intro r
    simp [or_comm]

/-- Two records of one instant: whichever comes first is held, and when the clock
has passed the end of the shorter one the two orders disagree about node 2. -/
theorem ingestAll_diverges_one_instant :
    (node3 600).Fits crypto [revoked500, revoked500Longer] ∧
      IsOrderOf [revoked500Longer, revoked500] [revoked500, revoked500Longer] ∧
      ¬ SameView ((node3 600).ingestAll crypto [revoked500, revoked500Longer])
        ((node3 600).ingestAll crypto [revoked500Longer, revoked500]) ∧
      (((node3 600).ingestAll crypto [revoked500, revoked500Longer]).setTime
        (Duration.ofSecs 1500) (.at 1500)).isRevoked cert2.facts = false ∧
      (((node3 600).ingestAll crypto [revoked500Longer, revoked500]).setTime
        (Duration.ofSecs 1500) (.at 1500)).isRevoked cert2.facts = true := by
  refine ⟨node3_fits _ (by simp [revoked500, revoked500Longer, revocationOf2]), ?_, ?_,
    by decide +kernel, by decide +kernel⟩
  · intro r
    simp [or_comm]
  · intro hsame
    have hin := (hsame.held revoked500).mp (by decide +kernel)
    exact absurd hin (by decide +kernel)

end SmallMesh

end OgmAuth

end Wayfinder
