import Wayfinder.Auth.Merge
import Wayfinder.Auth.Verify
import Wayfinder.Lib.Run

/-!
# Runs of the authentication state

The operations that write the neighbor cache or the revocation set, as steps. In
every state of a run each cached entry is sound: its certificate was issued by the
anchor, its facts are those of the certificate, and the agreement with its key is
contributory. Sound caches change no verdict: an OGM is verified exactly when it is
authentic, but for the signature a memo stands in for.
-/

namespace Wayfinder

set_option autoImplicit false

open Table

inductive AuthOp where
  | verifyOgm (payload : Bytes)
  | ingestCertReply (body : Bytes)
  | verifyCertRequest (body : Bytes)
  | buildCertRequest (orig : Mac) (fp : Octets 8) (firstHop : Mac) (bufLen : Nat)
  | ingestRevocation (record : RevocationRecord)
  | takeSelfRevoked
  | setTime (now : Duration) (wall : Clocked)
  | pruneExpired

namespace OgmAuth

variable {c : AuthCapacities}

def step (k : Crypto) (s : OgmAuth c) : AuthOp → OgmAuth c
  | .verifyOgm payload => (s.verifyOgm k payload).1
  | .ingestCertReply body => (s.ingestCertReply k body).1
  | .verifyCertRequest body => (s.verifyCertRequest k body).1
  | .buildCertRequest orig fp firstHop bufLen => (s.buildCertRequest k orig fp firstHop bufLen).1
  | .ingestRevocation record => (s.ingestRevocation k record).1
  | .takeSelfRevoked => s.takeSelfRevoked.1
  | .setTime now wall => s.setTime now wall
  | .pruneExpired => s.pruneExpired

def run (k : Crypto) (s : OgmAuth c) (ops : List AuthOp) : OgmAuth c := Run.run (step k) s ops

/-- Agreement with this key is contributory, for one secret and so for all. -/
def Contributory (k : Crypto) (peer : Octets 32) : Prop :=
  ∃ keypair key, k.pairwiseKey keypair peer = .ok key

structure SoundEntry (k : Crypto) (anchor : TrustAnchor) (wall : Clocked) (n : NeighborKeys) :
    Prop where
  issued : anchor.Issued k n.rawCert
  facts : n.cert = n.rawCert.facts
  contributory : Contributory k n.rawCert.xPubkey
  live : wall.provesPast n.cert.notAfter = false

def CacheSound (k : Crypto) (s : OgmAuth c) : Prop :=
  ∀ n ∈ s.neighbors.toList, SoundEntry k s.anchor s.wall n

/-- The cache and what it is judged by are left alone. -/
structure CacheKept (s s' : OgmAuth c) : Prop where
  neighbors : s'.neighbors = s.neighbors
  revocations : s'.revocations = s.revocations
  wall : s'.wall = s.wall
  anchor : s'.anchor = s.anchor
  cert : s'.cert = s.cert

theorem CacheKept.refl (s : OgmAuth c) : CacheKept s s := ⟨rfl, rfl, rfl, rfl, rfl⟩

theorem CacheKept.trans {s s' s'' : OgmAuth c} (h : CacheKept s s') (h' : CacheKept s' s'') :
    CacheKept s s'' :=
  ⟨h'.neighbors.trans h.neighbors, h'.revocations.trans h.revocations, h'.wall.trans h.wall,
    h'.anchor.trans h.anchor, h'.cert.trans h.cert⟩

theorem CacheKept.isRevoked {s s' : OgmAuth c} (h : CacheKept s s') (cert : VerifiedCert) :
    s'.isRevoked cert = s.isRevoked cert := by
  rw [OgmAuth.isRevoked, h.revocations, h.wall]
  rfl

theorem countCryptoOp_kept (s : OgmAuth c) : CacheKept s s.countCryptoOp :=
  ⟨rfl, rfl, rfl, rfl, rfl⟩

/-! ### The verdict on an OGM -/

section Verdict
variable {k : Crypto} {s : OgmAuth c} {ogm : BatmanOgmPacket} {certBytes rest : Bytes}
  {cert : MembershipCert} {signature : Octets 64}

/-- This very signature stands in the cache as the last one checked. -/
def Remembers (s : OgmAuth c) (ogm : BatmanOgmPacket) (certBytes : Bytes)
    (signature : Octets 64) : Prop :=
  ∃ n, s.knownCert ogm.orig certBytes = some n ∧ n.lastOgm = some (ogm.seqno, signature)

/-- The holder of the certificate signed this originator and number. -/
def SignedOgm (k : Crypto) (ogm : BatmanOgmPacket) (certBytes : Bytes) (edPubkey : Octets 32)
    (signature : Octets 64) : Prop :=
  ∃ msg, signedMessage ogm.orig ogm.seqno certBytes = some msg ∧
    k.verifySignature edPubkey msg signature = true

@[mk_iff authentic_iff] structure Authentic (k : Crypto) (s : OgmAuth c) (ogm : BatmanOgmPacket) (certBytes : Bytes)
    (cert : MembershipCert) (signature : Octets 64) : Prop where
  issued : s.anchor.Issued k cert
  window : cert.InWindow s.wall
  contributory : Contributory k cert.xPubkey
  names : cert.nodeMac = ogm.orig
  unrevoked : s.isRevoked cert.facts = false
  signed : Remembers s ogm certBytes signature ∨
    SignedOgm k ogm certBytes cert.edPubkey signature

theorem knownCert_mem {orig : Mac} {n : NeighborKeys} (h : s.knownCert orig certBytes = some n) :
    n ∈ s.neighbors.toList ∧ n.cert.mac = orig ∧ n.rawCert.asBytes = certBytes := by
  have hpred := List.find?_some h
  simp only [Bool.and_eq_true, decide_eq_true_eq] at hpred
  exact ⟨List.mem_of_find?_eq_some h, hpred.1, hpred.2⟩

/-- A cached copy of the certificate on the wire is that certificate. -/
theorem knownCert_rawCert {orig : Mac} {n : NeighborKeys}
    (h : s.knownCert orig certBytes = some n)
    (hread : MembershipCert.readFromPrefix certBytes = some (cert, rest)) : n.rawCert = cert := by
  obtain ⟨_, _, hbytes⟩ := knownCert_mem h
  have hraw := MembershipCert.readFromPrefix_asBytes n.rawCert []
  rw [List.append_nil, hbytes, hread] at hraw
  exact (Prod.mk.inj (Option.some.inj hraw)).1.symm

/-- Judging a certificate, cached or not, answers by what it is. -/
theorem judgeCert_spec (ogm : BatmanOgmPacket) (signature : Octets 64) (hsound : s.CacheSound k)
    (hread : MembershipCert.readFromPrefix certBytes = some (cert, rest)) :
    CacheKept s (s.judgeCert k ogm.orig ogm.seqno signature certBytes cert).1 ∧
      match (s.judgeCert k ogm.orig ogm.seqno signature certBytes cert).2 with
      | none => ¬ (s.anchor.Issued k cert ∧ cert.InWindow s.wall ∧ Contributory k cert.xPubkey)
      | some (verified, _, checked) =>
        s.anchor.Issued k cert ∧ cert.InWindow s.wall ∧ Contributory k cert.xPubkey ∧
          verified = cert.facts ∧ (checked = true ↔ Remembers s ogm certBytes signature) := by
  unfold judgeCert
  cases hknown : s.knownCert ogm.orig certBytes with
  | some known =>
    have hraw := knownCert_rawCert hknown hread
    have hentry := hsound known (knownCert_mem hknown).1
    rw [← hraw]
    dsimp only
    split
    · rename_i hout
      refine ⟨.refl s, ?_⟩
      rintro ⟨_, ⟨hnb, hna⟩, _⟩
      simp [hnb, hna] at hout
    · rename_i hin
      have hwindow : known.rawCert.InWindow s.wall := by
        simpa [MembershipCert.InWindow] using hin
      refine ⟨.refl s, hentry.issued, hwindow, hentry.contributory, hentry.facts, ?_⟩
      rw [decide_eq_true_eq]
      constructor
      · intro hlast
        exact ⟨known, hknown, hlast⟩
      · rintro ⟨n, hn, hlast⟩
        rw [hknown] at hn
        obtain rfl := Option.some.inj hn
        exact hlast
  | none =>
    have hforget : ¬ Remembers s ogm certBytes signature := by
      rintro ⟨n, hn, _⟩
      rw [hknown] at hn
      cases hn
    dsimp only
    cases hverify : s.countCryptoOp.anchor.verifyCert k cert s.countCryptoOp.wall with
    | error e =>
      refine ⟨s.countCryptoOp_kept, ?_⟩
      rintro ⟨hissued, hwindow, _⟩
      have hok : s.countCryptoOp.anchor.verifyCert k cert s.countCryptoOp.wall = .ok cert.facts :=
        TrustAnchor.verifyCert_ok.mpr ⟨hissued, hwindow, rfl⟩
      rw [hok] at hverify
      cases hverify
    | ok verified =>
      obtain ⟨hissued, hwindow, rfl⟩ := TrustAnchor.verifyCert_ok.mp hverify
      dsimp only
      cases hkey : k.pairwiseKey s.countCryptoOp.countCryptoOp.keypair cert.facts.xPubkey with
      | error e =>
        refine ⟨s.countCryptoOp_kept.trans (countCryptoOp_kept _), ?_⟩
        rintro ⟨_, _, keypair, key, hok⟩
        obtain ⟨key', hok'⟩ := k.pairwiseKey_ok hok s.countCryptoOp.countCryptoOp.keypair
        have hsame : k.pairwiseKey s.countCryptoOp.countCryptoOp.keypair cert.facts.xPubkey =
            .ok key' := hok'
        rw [hsame] at hkey
        cases hkey
      | ok key =>
        exact ⟨s.countCryptoOp_kept.trans (countCryptoOp_kept _), hissued, hwindow,
          ⟨_, key, hkey⟩, rfl, by simp [hforget]⟩

theorem checkOgmSignature_spec (k : Crypto) (s : OgmAuth c) (ogm : BatmanOgmPacket)
    (certBytes : Bytes) (signature : Octets 64) (edPubkey : Octets 32) (checked : Bool) :
    CacheKept s (s.checkOgmSignature k ogm certBytes signature edPubkey checked).1 ∧
      ((s.checkOgmSignature k ogm certBytes signature edPubkey checked).2 = true ↔
        checked = true ∨ SignedOgm k ogm certBytes edPubkey signature) := by
  unfold checkOgmSignature SignedOgm
  split
  · rename_i hchecked
    exact ⟨.refl s, by simp [hchecked]⟩
  · rename_i hunchecked
    split
    · rename_i hmsg
      exact ⟨.refl s, by simp [hunchecked, hmsg]⟩
    · rename_i msg hmsg
      exact ⟨s.countCryptoOp_kept, by simp [hunchecked, hmsg]⟩

/-- What a verified OGM leaves: its certificate offered to the cache, then the
revocations it carries. -/
def Admits (k : Crypto) (s s' : OgmAuth c) (ogm : BatmanOgmPacket) (tail : Bytes)
    (cert : MembershipCert) (signature : Octets 64) : Prop :=
  ∃ s₁ pairwiseKey, CacheKept s s₁ ∧ s' = OgmAuth.ingestRevocationsFromTail k
    (s₁.cacheNeighbor ⟨cert.facts, pairwiseKey, cert, some (ogm.seqno, signature)⟩).1 tail

theorem verifyOgmWith_spec (ogm : BatmanOgmPacket) (signature : Octets 64)
    (hsound : s.CacheSound k)
    (hread : MembershipCert.readFromPrefix certBytes = some (cert, rest)) (tail : Bytes) :
    let r := s.verifyOgmWith k ogm tail certBytes cert signature
    (r.2 = .verified ∧ Authentic k s ogm certBytes cert signature ∧
        Admits k s r.1 ogm tail cert signature) ∨
      (r.2 = .rejected ∧ ¬ Authentic k s ogm certBytes cert signature ∧ CacheKept s r.1) := by
  have hjudge := judgeCert_spec ogm signature hsound hread
  unfold verifyOgmWith
  generalize s.judgeCert k ogm.orig ogm.seqno signature certBytes cert = judged at hjudge
  obtain ⟨s₁, _ | ⟨verified, pairwiseKey, checked⟩⟩ := judged
  · refine Or.inr ⟨rfl, ?_, hjudge.1⟩
    intro hauth
    exact hjudge.2 ⟨hauth.issued, hauth.window, hauth.contributory⟩
  · obtain ⟨hkept, hissued, hwindow, hcontrib, rfl, hchecked⟩ := hjudge
    dsimp only at hkept ⊢
    by_cases hnames : cert.facts.mac ≠ ogm.orig
    · rw [if_pos hnames]
      exact Or.inr ⟨rfl, fun hauth => hnames hauth.names, hkept⟩
    rw [if_neg hnames, hkept.isRevoked]
    by_cases hrevoked : s.isRevoked cert.facts = true
    · rw [if_pos hrevoked]
      refine Or.inr ⟨rfl, ?_, hkept⟩
      intro hauth
      rw [hauth.unrevoked] at hrevoked
      cases hrevoked
    rw [if_neg hrevoked]
    obtain ⟨hkept₂, hsig⟩ := checkOgmSignature_spec k s₁ ogm certBytes signature
      cert.facts.edPubkey checked
    generalize s₁.checkOgmSignature k ogm certBytes signature cert.facts.edPubkey checked = result
      at hkept₂ hsig
    obtain ⟨s₂, _ | _⟩ := result
    · refine Or.inr ⟨rfl, ?_, hkept.trans hkept₂⟩
      intro hauth
      have hok : checked = true ∨ SignedOgm k ogm certBytes cert.facts.edPubkey signature :=
        hauth.signed.imp_left hchecked.mpr
      exact absurd (hsig.mpr hok) (by simp)
    · refine Or.inl ⟨rfl, ⟨hissued, hwindow, hcontrib, not_not.mp hnames,
        Bool.eq_false_iff.mpr hrevoked, (hsig.mp rfl).imp_left hchecked.mp⟩,
        s₂, pairwiseKey, hkept.trans hkept₂, rfl⟩

/-- The OGM of a payload, with what it is checked against. -/
structure Parses (k : Crypto) (s : OgmAuth c) (payload : Bytes) (ogm : BatmanOgmPacket)
    (tail certBytes : Bytes) (cert : MembershipCert) (signature : Octets 64) : Prop where
  header : BatmanOgmPacket.readFromPrefix payload = some (ogm, tail)
  sigFound : (findTvlv tail .ogmSig >>= Octets.tryFrom) = some signature
  certFound : s.certBytesFor k ogm.orig tail = .ok certBytes
  certRead : ∃ rest, MembershipCert.readFromPrefix certBytes = some (cert, rest)

theorem certBytesFor_ne_verified {orig : Mac} {tail : Bytes} {verdict : OgmVerdict}
    (h : s.certBytesFor k orig tail = .error verdict) : verdict ≠ .verified := by
  unfold certBytesFor at h
  rintro rfl
  repeat' split at h
  all_goals cases h

theorem verifyOgm_spec (hsound : s.CacheSound k) (payload : Bytes) :
    let r := s.verifyOgm k payload
    (r.2 = .verified ∧ ∃ ogm tail certBytes cert signature,
        Parses k s payload ogm tail certBytes cert signature ∧
        Authentic k s ogm certBytes cert signature ∧ Admits k s r.1 ogm tail cert signature) ∨
      (r.2 ≠ .verified ∧ CacheKept s r.1 ∧ ∀ ogm tail certBytes cert signature,
        Parses k s payload ogm tail certBytes cert signature →
          ¬ Authentic k s ogm certBytes cert signature) := by
  unfold verifyOgm
  cases hheader : BatmanOgmPacket.readFromPrefix payload with
  | none =>
    refine Or.inr ⟨by simp, .refl s, ?_⟩
    intro ogm tail certBytes cert signature hparse
    rw [hparse.header] at hheader
    cases hheader
  | some header =>
    obtain ⟨ogm, tail⟩ := header
    dsimp only
    cases hsig : findTvlv tail .ogmSig >>= Octets.tryFrom with
    | none =>
      refine Or.inr ⟨by simp, .refl s, ?_⟩
      intro ogm' tail' certBytes cert signature hparse
      obtain ⟨rfl, rfl⟩ := Prod.mk.inj (Option.some.inj (hparse.header.symm.trans hheader))
      cases hparse.sigFound.symm.trans hsig
    | some signature =>
      dsimp only
      cases hbytes : s.certBytesFor k ogm.orig tail with
      | error verdict =>
        refine Or.inr ⟨certBytesFor_ne_verified hbytes, .refl s, ?_⟩
        intro ogm' tail' certBytes cert signature' hparse
        obtain ⟨rfl, rfl⟩ := Prod.mk.inj (Option.some.inj (hparse.header.symm.trans hheader))
        cases hparse.certFound.symm.trans hbytes
      | ok certBytes =>
        dsimp only
        cases hcert : MembershipCert.readFromPrefix certBytes with
        | none =>
          refine Or.inr ⟨by simp, .refl s, ?_⟩
          intro ogm' tail' certBytes' cert signature' hparse
          obtain ⟨rfl, rfl⟩ := Prod.mk.inj (Option.some.inj (hparse.header.symm.trans hheader))
          obtain rfl := Except.ok.inj (hparse.certFound.symm.trans hbytes)
          obtain ⟨rest, hrest⟩ := hparse.certRead
          cases hrest.symm.trans hcert
        | some parsed =>
          obtain ⟨cert, rest⟩ := parsed
          dsimp only
          have hparse : Parses k s payload ogm tail certBytes cert signature :=
            ⟨hheader, hsig, hbytes, rest, hcert⟩
          rcases verifyOgmWith_spec ogm signature hsound hcert tail with
            ⟨hverdict, hauth, hadmits⟩ | ⟨hverdict, hnot, hkept⟩
          · exact Or.inl ⟨hverdict, ogm, tail, certBytes, cert, signature, hparse, hauth, hadmits⟩
          · refine Or.inr ⟨by rw [hverdict]; simp, hkept, ?_⟩
            intro ogm' tail' certBytes' cert' signature' hparse'
            obtain ⟨rfl, rfl⟩ := Prod.mk.inj (Option.some.inj (hparse'.header.symm.trans hheader))
            obtain rfl := Except.ok.inj (hparse'.certFound.symm.trans hbytes)
            obtain rfl := Option.some.inj (hparse'.sigFound.symm.trans hsig)
            obtain ⟨rest', hrest'⟩ := hparse'.certRead
            obtain ⟨rfl, _⟩ := Prod.mk.inj (Option.some.inj (hrest'.symm.trans hcert))
            exact hnot

/-- With a sound cache, the verdict is a matter of what the payload says. -/
theorem verifyOgm_verified_iff (hsound : s.CacheSound k) {payload : Bytes} :
    (s.verifyOgm k payload).2 = .verified ↔ ∃ ogm tail certBytes cert signature,
      Parses k s payload ogm tail certBytes cert signature ∧
        Authentic k s ogm certBytes cert signature := by
  rcases verifyOgm_spec hsound payload with
    ⟨hverdict, ogm, tail, certBytes, cert, signature, hparse, hauth, _⟩ | ⟨hverdict, _, hnone⟩
  · exact iff_of_true hverdict ⟨ogm, tail, certBytes, cert, signature, hparse, hauth⟩
  · refine iff_of_false hverdict ?_
    rintro ⟨ogm, tail, certBytes, cert, signature, hparse, hauth⟩
    exact hnone ogm tail certBytes cert signature hparse hauth

end Verdict

/-! ### What operations do to the cache -/

section Cache
variable {k : Crypto} {s s' : OgmAuth c}

theorem isRevoked_eq_false_iff {cert : VerifiedCert} :
    s.isRevoked cert = false ↔
      ∀ slot ∈ s.revocations.toList, slot.record.cancelsUnder cert s.wall = false := by
  simp [isRevoked]

theorem liveNeighbor_eq_some_iff {mac : Mac} {n : NeighborKeys} :
    s.liveNeighbor mac = some n ↔ n ∈ s.neighbors.toList ∧ n.cert.mac = mac ∧
      s.wall.provesPast n.cert.notAfter = false := by
  constructor
  · intro h
    have hn := List.find?_some h
    simp only [Bool.and_eq_true, decide_eq_true_eq, Bool.not_eq_true'] at hn
    exact ⟨List.mem_of_find?_eq_some h, hn⟩
  · rintro ⟨hmem, hmac, hlive⟩
    cases hfind : s.liveNeighbor mac with
    | none =>
      have hmiss := List.find?_eq_none.mp hfind n hmem
      simp [hmac, hlive] at hmiss
    | some m =>
      have hm := List.find?_some hfind
      simp only [Bool.and_eq_true, decide_eq_true_eq] at hm
      rw [s.neighbors.eq_of_key (List.mem_of_find?_eq_some hfind) hmem (hm.1.trans hmac.symm)]

theorem cacheNeighbor_cases (s : OgmAuth c) (keys : NeighborKeys) :
    (s.identityConflict keys.cert.mac keys.cert.edPubkey = true ∧
        s.cacheNeighbor keys = (s, .refusedLiveIdentity)) ∨
      (s.identityConflict keys.cert.mac keys.cert.edPubkey = false ∧
        ∃ s₁, s.cacheNeighbor keys = (s₁, .stored) ∧
          CacheKept s { s₁ with neighbors := s.neighbors } ∧
          s₁.neighbors = s.neighbors.put keys List.head?) := by
  unfold cacheNeighbor
  by_cases hconflict : s.identityConflict keys.cert.mac keys.cert.edPubkey = true
  · rw [if_pos hconflict]
    exact Or.inl ⟨hconflict, rfl⟩
  · rw [if_neg hconflict]
    exact Or.inr ⟨Bool.eq_false_iff.mpr hconflict, _, rfl, ⟨rfl, rfl, rfl, rfl, rfl⟩, rfl⟩

/-- Caching changes nothing a cache is judged by, and adds at most the one entry. -/
theorem cacheNeighbor_adds (s : OgmAuth c) (keys : NeighborKeys) :
    CacheKept s { (s.cacheNeighbor keys).1 with neighbors := s.neighbors } ∧
      ∀ n ∈ (s.cacheNeighbor keys).1.neighbors.toList, n = keys ∨ n ∈ s.neighbors.toList := by
  rcases s.cacheNeighbor_cases keys with ⟨_, heq⟩ | ⟨_, s₁, heq, hkept, hput⟩
  · rw [heq]
    exact ⟨.refl s, fun n hn => Or.inr hn⟩
  · rw [heq]
    refine ⟨hkept, ?_⟩
    intro n hn
    rw [hput] at hn
    exact (KeyedVec.mem_put hn).imp_right And.left

/-- Ingesting a revocation adds at most that record, and evicts its subject with it. -/
theorem ingestRevocation_adds (k : Crypto) (s : OgmAuth c) (record : RevocationRecord) :
    let s' := (s.ingestRevocation k record).1
    s'.wall = s.wall ∧ s'.anchor = s.anchor ∧
      (∀ n ∈ s'.neighbors.toList, n ∈ s.neighbors.toList) ∧
      ∀ slot ∈ s'.revocations.toList, slot ∈ s.revocations.toList ∨
        slot.record = record ∧ ∀ n ∈ s'.neighbors.toList, n.cert.mac ≠ record.nodeMac := by
  intro s'
  rcases ingestRevocation_cases k s record with ⟨_, _, heq⟩ | ⟨_, latch, heq⟩
  · have hs' : s' = s.holdRevocation record record.nodeMac := congrArg Prod.fst heq
    rw [hs']
    refine ⟨rfl, rfl, ?_, ?_⟩
    · intro n hn
      exact (KeyedVec.mem_remove.mp hn).1
    · intro slot hslot
      rcases KeyedVec.mem_put hslot with rfl | ⟨hold, _⟩
      · exact Or.inr ⟨rfl, fun n hn => (KeyedVec.mem_remove.mp hn).2⟩
      · exact Or.inl hold
  · have hs' : s' = { s with selfRevocation := latch } := congrArg Prod.fst heq
    rw [hs']
    exact ⟨rfl, rfl, fun n hn => hn, fun slot hslot => Or.inl hslot⟩

/-- The changes of operations that check a certificate against the revocation set
before they cache it. -/
inductive Checked (k : Crypto) : OgmAuth c → OgmAuth c → Prop
  | kept {s s' : OgmAuth c} : CacheKept s s' → Checked k s s'
  | store {s : OgmAuth c} {keys : NeighborKeys} : SoundEntry k s.anchor s.wall keys →
      s.isRevoked keys.cert = false → Checked k s (s.cacheNeighbor keys).1
  | revoke {s : OgmAuth c} (record : RevocationRecord) :
      Checked k s (s.ingestRevocation k record).1
  | trans {s s' s'' : OgmAuth c} : Checked k s s' → Checked k s' s'' → Checked k s s''

theorem CacheKept.sound (h : CacheKept s s') (hs : s.CacheSound k) : s'.CacheSound k := by
  intro n hn
  rw [h.neighbors] at hn
  rw [h.anchor, h.wall]
  exact hs n hn

theorem cacheNeighbor_sound {keys : NeighborKeys} (hs : s.CacheSound k)
    (hkeys : SoundEntry k s.anchor s.wall keys) : (s.cacheNeighbor keys).1.CacheSound k := by
  obtain ⟨hkept, hadds⟩ := s.cacheNeighbor_adds keys
  have hanchor : (s.cacheNeighbor keys).1.anchor = s.anchor := hkept.anchor
  have hwall : (s.cacheNeighbor keys).1.wall = s.wall := hkept.wall
  intro n hn
  rw [hanchor, hwall]
  rcases hadds n hn with rfl | hn
  · exact hkeys
  · exact hs n hn

theorem Checked.sound (h : Checked k s s') (hs : s.CacheSound k) : s'.CacheSound k := by
  induction h with
  | kept hkept => exact hkept.sound hs
  | store hkeys _ => exact cacheNeighbor_sound hs hkeys
  | @revoke s record =>
    obtain ⟨hwall, hanchor, hshrinks, _⟩ := ingestRevocation_adds k s record
    intro n hn
    rw [hanchor, hwall]
    exact hs n (hshrinks n hn)
  | trans _ _ ih ih' => exact ih' (ih hs)

theorem ingestRevocationsFromTail_checked (k : Crypto) (s : OgmAuth c) (tail : Bytes) :
    Checked k s (s.ingestRevocationsFromTail k tail) := by
  unfold ingestRevocationsFromTail
  induction iterTvlv tail .revoke generalizing s with
  | nil => exact .kept (.refl s)
  | cons value rest ih =>
    rw [List.foldl_cons]
    refine .trans ?_ (ih _)
    split
    · exact .revoke _
    · exact .kept (.refl s)

theorem soundEntry_of_issued {cert : MembershipCert} {pairwiseKey : Octets 32}
    {lastOgm : Option (Be32 × Octets 64)} (hissued : s.anchor.Issued k cert)
    (hwindow : cert.InWindow s.wall) (hcontrib : Contributory k cert.xPubkey) :
    SoundEntry k s.anchor s.wall ⟨cert.facts, pairwiseKey, cert, lastOgm⟩ :=
  ⟨hissued, rfl, hcontrib, hwindow.2⟩

theorem verifyOgm_checked (hs : s.CacheSound k) (payload : Bytes) :
    Checked k s (s.verifyOgm k payload).1 := by
  rcases verifyOgm_spec hs payload with
    ⟨_, ogm, tail, certBytes, cert, signature, _, hauth, s₁, pairwiseKey, hkept, heq⟩ |
      ⟨_, hkept, _⟩
  · rw [heq]
    refine .trans (.kept hkept) (.trans ?_ (ingestRevocationsFromTail_checked k _ tail))
    apply Checked.store
    · rw [hkept.anchor, hkept.wall]
      exact soundEntry_of_issued hauth.issued hauth.window hauth.contributory
    · rw [hkept.isRevoked]
      exact hauth.unrevoked
  · exact .kept hkept

theorem acceptCertRequestRate_kept (s : OgmAuth c) (requester : Mac) :
    CacheKept s (s.acceptCertRequestRate requester).1 := by
  unfold acceptCertRequestRate
  split
  · split
    · exact .refl s
    · exact ⟨rfl, rfl, rfl, rfl, rfl⟩
  · exact ⟨rfl, rfl, rfl, rfl, rfl⟩

theorem verifyCertRequest_checked (k : Crypto) (s : OgmAuth c) (body : Bytes) :
    Checked k s (s.verifyCertRequest k body).1 := by
  have hsame : Checked k s s := .kept (.refl s)
  unfold verifyCertRequest
  split
  · exact hsame
  split
  · exact hsame
  rename_i cert sigBytes _
  split
  · exact hsame
  split
  · exact hsame
  rename_i verified hverify
  obtain ⟨hissued, hwindow, rfl⟩ := TrustAnchor.verifyCert_ok.mp hverify
  split
  · exact hsame
  rename_i hrevoked
  split
  · exact hsame
  split
  · exact hsame
  have hkept := s.acceptCertRequestRate_kept cert.facts.mac
  generalize s.acceptCertRequestRate cert.facts.mac = rated at hkept
  obtain ⟨s₁, _ | _⟩ := rated
  · exact .kept hkept
  dsimp only at hkept ⊢
  split
  · exact .kept hkept
  rename_i pairwiseKey hkey
  refine .trans (.kept hkept) (.store ?_ ?_)
  · rw [hkept.anchor, hkept.wall]
    exact soundEntry_of_issued hissued hwindow ⟨_, _, hkey⟩
  · rw [hkept.isRevoked]
    exact Bool.eq_false_iff.mpr hrevoked

theorem buildCertRequest_kept (k : Crypto) (s : OgmAuth c) (orig : Mac) (fp : Octets 8)
    (firstHop : Mac) (bufLen : Nat) :
    CacheKept s (s.buildCertRequest k orig fp firstHop bufLen).1 := by
  have htrack : CacheKept s (s.trackCertRequest orig fp firstHop).1 := by
    unfold trackCertRequest
    split
    · dsimp only
      split <;> split <;> exact ⟨rfl, rfl, rfl, rfl, rfl⟩
    · split
      · exact ⟨rfl, rfl, rfl, rfl, rfl⟩
      · exact .refl s
  unfold buildCertRequest
  generalize s.trackCertRequest orig fp firstHop = tracked at htrack
  obtain ⟨s₁, _ | _⟩ := tracked
  · exact htrack
  · exact htrack

theorem takeSelfRevoked_kept (s : OgmAuth c) : CacheKept s s.takeSelfRevoked.1 := by
  unfold takeSelfRevoked
  split
  · exact .refl s
  · repeat' split
    all_goals exact ⟨rfl, rfl, rfl, rfl, rfl⟩

/-- The certificate a reply would put in the cache. -/
def answer (k : Crypto) (s : OgmAuth c) (body : Bytes) : Option MembershipCert :=
  match MembershipCert.readFromPrefix body with
  | none => none
  | some (cert, _) =>
    match s.anchor.verifyCert k cert s.wall with
    | .error _ => none
    | .ok verified =>
      if (s.inFlight.find? verified.mac).isNone ||
          s.identityConflict verified.mac verified.edPubkey ||
          decide (c.maxNeighborKeys = 0) then none
      else
        match k.pairwiseKey s.keypair verified.xPubkey with
        | .error _ => none
        | .ok _ => some cert

theorem ingestCertReply_spec (k : Crypto) (s : OgmAuth c) (body : Bytes) :
    match s.answer k body with
    | none => CacheKept s (s.ingestCertReply k body).1
    | some cert => 0 < c.maxNeighborKeys ∧ s.anchor.Issued k cert ∧ cert.InWindow s.wall ∧
        Contributory k cert.xPubkey ∧
        CacheKept s { (s.ingestCertReply k body).1 with neighbors := s.neighbors } ∧
        ∃ pairwiseKey, (s.ingestCertReply k body).1.neighbors =
          s.neighbors.put ⟨cert.facts, pairwiseKey, cert, none⟩ List.head? := by
  unfold ingestCertReply answer
  cases hread : MembershipCert.readFromPrefix body with
  | none => exact .refl s
  | some parsed =>
    obtain ⟨cert, rest⟩ := parsed
    dsimp only
    cases hverify : s.anchor.verifyCert k cert s.wall with
    | error e => exact .refl s
    | ok verified =>
      obtain ⟨hissued, hwindow, rfl⟩ := TrustAnchor.verifyCert_ok.mp hverify
      dsimp only
      by_cases hasked : (s.inFlight.find? cert.facts.mac).isNone = true
      · simp only [hasked, Bool.true_or, if_true]
        exact .refl s
      rw [if_neg hasked]
      cases hkey : k.pairwiseKey s.keypair cert.facts.xPubkey with
      | error e =>
        simp only [ite_self]
        exact .refl s
      | ok pairwiseKey =>
        dsimp only
        rcases s.cacheNeighbor_cases ⟨cert.facts, pairwiseKey, cert, none⟩ with
          ⟨hconflict, heq⟩ | ⟨hconflict, s₁, heq, hkept, hput⟩
        · rw [heq]
          have hconf : s.identityConflict cert.facts.mac cert.facts.edPubkey = true := hconflict
          simp only [hconf, Bool.or_true, Bool.true_or, if_true]
          exact .refl s
        · rw [heq]
          have hconf : s.identityConflict cert.facts.mac cert.facts.edPubkey = false := hconflict
          have hasked' : (s.inFlight.find? cert.facts.mac).isNone = false :=
            Bool.eq_false_iff.mpr hasked
          simp only [hconf, hasked', Bool.or_false, Bool.false_or, decide_eq_true_eq]
          by_cases hzero : c.maxNeighborKeys = 0
          · -- A cache without slots takes nothing, whoever is to make room.
            rw [if_pos hzero]
            have hnil : s.neighbors.toList = [] := by
              have hbound := s.neighbors.bounded
              exact List.eq_nil_of_length_eq_zero (by omega)
            have hsame : s.neighbors.put ⟨cert.facts, pairwiseKey, cert, none⟩ List.head? =
                s.neighbors := by
              simp [KeyedVec.put, hnil, hzero]
            exact ⟨hput.trans hsame, hkept.revocations, hkept.wall, hkept.anchor, hkept.cert⟩
          · rw [if_neg hzero]
            exact ⟨Nat.pos_of_ne_zero hzero, hissued, hwindow, ⟨_, _, hkey⟩,
              ⟨rfl, hkept.revocations, hkept.wall, hkept.anchor, hkept.cert⟩, pairwiseKey, hput⟩

theorem pruneExpired_kept (s : OgmAuth c) :
    CacheKept s { s.pruneExpired with revocations := s.revocations } := by
  unfold pruneExpired
  split
  · exact .refl s
  · exact ⟨rfl, rfl, rfl, rfl, rfl⟩

theorem mem_pruneExpired {slot : KnownRevocation} :
    slot ∈ s.pruneExpired.revocations.toList ↔ slot ∈ s.revocations.toList ∧
      (s.wall.judgesWindows = true → s.wall.unixOrZero < slot.record.notAfter.get) := by
  unfold pruneExpired
  cases s.wall.judgesWindows with
  | false => simp
  | true => simp [KeyedVec.mem_swapRetain]

theorem evictExpiredNeighbors_kept (s : OgmAuth c) :
    CacheKept s { s.evictExpiredNeighbors with neighbors := s.neighbors } := by
  unfold evictExpiredNeighbors
  split
  · exact .refl s
  · exact ⟨rfl, rfl, rfl, rfl, rfl⟩

theorem mem_evictExpiredNeighbors {n : NeighborKeys} :
    n ∈ s.evictExpiredNeighbors.neighbors.toList ↔
      n ∈ s.neighbors.toList ∧ s.wall.provesPast n.cert.notAfter = false := by
  unfold evictExpiredNeighbors
  cases hwall : s.wall with
  | unknown => simp [Clocked.judgesWindows, Clocked.provesPast]
  | «at» t => simp [Clocked.judgesWindows, KeyedVec.mem_retain]
  | atLeast t => simp [Clocked.judgesWindows, KeyedVec.mem_retain]

/-- What a change of the clock leaves in the cache and in the revocation set. -/
theorem setTime_spec (s : OgmAuth c) (now : Duration) (wall : Clocked) :
    let s' := s.setTime now wall
    s'.wall = wall ∧ s'.anchor = s.anchor ∧
      (∀ n, n ∈ s'.neighbors.toList ↔
        n ∈ s.neighbors.toList ∧ wall.provesPast n.cert.notAfter = false) ∧
      ∀ slot, slot ∈ s'.revocations.toList ↔ slot ∈ s.revocations.toList ∧
        (wall.judgesWindows = true → wall.unixOrZero < slot.record.notAfter.get) := by
  let s₁ : OgmAuth c := OgmAuth.reclaimBookkeeping { s with now := now, wall := wall }
  have hprune := s₁.pruneExpired_kept
  have hevict := s₁.pruneExpired.evictExpiredNeighbors_kept
  have hwall : s₁.pruneExpired.wall = wall := hprune.wall
  have hneighbors : s₁.pruneExpired.neighbors = s.neighbors := hprune.neighbors
  have hrevocations : s₁.pruneExpired.evictExpiredNeighbors.revocations =
      s₁.pruneExpired.revocations := hevict.revocations
  refine ⟨hevict.wall.trans hwall, hevict.anchor.trans hprune.anchor, ?_, ?_⟩
  · intro n
    refine mem_evictExpiredNeighbors.trans ?_
    rw [hneighbors, hwall]
  · intro slot
    refine Iff.trans ?_ (mem_pruneExpired (s := s₁))
    change slot ∈ s₁.pruneExpired.evictExpiredNeighbors.revocations.toList ↔ _
    rw [hrevocations]

theorem setTime_sound (hs : s.CacheSound k) (now : Duration) (wall : Clocked) :
    (s.setTime now wall).CacheSound k := by
  obtain ⟨hwall, hanchor, hneighbors, _⟩ := s.setTime_spec now wall
  intro n hn
  obtain ⟨hn, hlive⟩ := (hneighbors n).mp hn
  have hentry := hs n hn
  rw [hwall, hanchor]
  exact ⟨hentry.issued, hentry.facts, hentry.contributory, hlive⟩

theorem pruneExpired_sound (hs : s.CacheSound k) : s.pruneExpired.CacheSound k := by
  have hprune := s.pruneExpired_kept
  have hneighbors : s.pruneExpired.neighbors = s.neighbors := hprune.neighbors
  have hanchor : s.pruneExpired.anchor = s.anchor := hprune.anchor
  have hwall : s.pruneExpired.wall = s.wall := hprune.wall
  intro n hn
  rw [hneighbors] at hn
  rw [hanchor, hwall]
  exact hs n hn

theorem ingestCertReply_sound (hs : s.CacheSound k) (body : Bytes) :
    (s.ingestCertReply k body).1.CacheSound k := by
  have hspec := ingestCertReply_spec k s body
  cases hanswer : s.answer k body with
  | none =>
    rw [hanswer] at hspec
    exact CacheKept.sound hspec hs
  | some cert =>
    rw [hanswer] at hspec
    obtain ⟨_, hissued, hwindow, hcontrib, hkept, pairwiseKey, hput⟩ := hspec
    have hanchor : (s.ingestCertReply k body).1.anchor = s.anchor := hkept.anchor
    have hwall : (s.ingestCertReply k body).1.wall = s.wall := hkept.wall
    intro n hn
    rw [hput] at hn
    rw [hanchor, hwall]
    rcases KeyedVec.mem_put hn with rfl | ⟨hn, _⟩
    · exact soundEntry_of_issued hissued hwindow hcontrib
    · exact hs n hn

theorem step_sound (hs : s.CacheSound k) (op : AuthOp) : (s.step k op).CacheSound k := by
  cases op with
  | verifyOgm payload => exact (verifyOgm_checked hs payload).sound hs
  | ingestCertReply body => exact ingestCertReply_sound hs body
  | verifyCertRequest body => exact (verifyCertRequest_checked k s body).sound hs
  | buildCertRequest orig fp firstHop bufLen =>
    exact (s.buildCertRequest_kept k orig fp firstHop bufLen).sound hs
  | ingestRevocation record => exact (Checked.revoke record).sound hs
  | takeSelfRevoked => exact s.takeSelfRevoked_kept.sound hs
  | setTime now wall => exact setTime_sound hs now wall
  | pruneExpired => exact pruneExpired_sound hs

theorem withCapacities_sound (k : Crypto) (keypair : Keypair) (cert : MembershipCert)
    (anchor : TrustAnchor) : (withCapacities c keypair cert anchor).CacheSound k := by
  intro n hn
  cases hn

theorem run_sound (hs : s.CacheSound k) (ops : List AuthOp) : (s.run k ops).CacheSound k :=
  Run.invariant hs fun _ op hs => step_sound hs op

/-- A state some run from a fresh node leads to. -/
def Reachable (k : Crypto) (s : OgmAuth c) : Prop :=
  ∃ keypair cert anchor ops, s = (withCapacities c keypair cert anchor).run k ops

theorem Reachable.sound (h : Reachable k s) : s.CacheSound k := by
  obtain ⟨keypair, cert, anchor, ops, rfl⟩ := h
  exact run_sound (withCapacities_sound k keypair cert anchor) ops

end Cache

end OgmAuth

end Wayfinder
