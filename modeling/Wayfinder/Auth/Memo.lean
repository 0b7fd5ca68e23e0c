import Wayfinder.Auth.Rows

/-!
# Remembered verdicts

A cached certificate is not verified again, and an OGM whose signature was the last
one checked is not checked again. The memory is of the bare certificate, while the
signature was checked over the whole record the certificate came in: a record with
padding behind the certificate leaves a signature remembered that the bare
certificate does not carry. While no such OGM is admitted, the memory is transparent.
-/

namespace Wayfinder

set_option autoImplicit false

open Table

namespace OgmAuth

variable {c : AuthCapacities} {k : Crypto} {s : OgmAuth c}

/-! ### The verdict without a memory -/

def forgetful (s : OgmAuth c) : OgmAuth c := { s with neighbors := .empty }

/-- The verdict from scratch, on the certificate the OGM carries or stands for. -/
def verifyAfresh (k : Crypto) (s : OgmAuth c) (payload : Bytes) : OgmVerdict :=
  match BatmanOgmPacket.readFromPrefix payload with
  | none => .rejected
  | some (ogm, tail) =>
    match findTvlv tail .ogmSig >>= Octets.tryFrom with
    | none => .rejected
    | some signature =>
      match s.certBytesFor k ogm.orig tail with
      | .error verdict => verdict
      | .ok certBytes =>
        match MembershipCert.readFromPrefix certBytes with
        | none => .rejected
        | some (cert, _) => (s.forgetful.verifyOgmWith k ogm tail certBytes cert signature).2

def Transparent (k : Crypto) (s : OgmAuth c) : Prop :=
  ∀ payload, (s.verifyOgm k payload).2 = s.verifyAfresh k payload

/-- The remembered signature is one over the bare certificate. -/
def SoundMemo (k : Crypto) (n : NeighborKeys) : Prop :=
  ∀ (ogm : BatmanOgmPacket) signature, ogm.orig = n.mac →
    n.lastOgm = some (ogm.seqno, signature) →
    SignedOgm k ogm n.rawCert.asBytes n.rawCert.edPubkey signature

def MemosSound (k : Crypto) (s : OgmAuth c) : Prop := ∀ n ∈ s.neighbors.toList, SoundMemo k n

theorem forgetful_sound (k : Crypto) (s : OgmAuth c) : s.forgetful.CacheSound k := by
  intro n hn
  cases hn

theorem authentic_forgetful_iff (hmemos : s.MemosSound k) {ogm : BatmanOgmPacket}
    {certBytes rest : Bytes} {cert : MembershipCert} {signature : Octets 64}
    (hread : MembershipCert.readFromPrefix certBytes = some (cert, rest)) :
    Authentic k s.forgetful ogm certBytes cert signature ↔
      Authentic k s ogm certBytes cert signature := by
  constructor
  · intro h
    refine ⟨h.issued, h.window, h.contributory, h.names, h.unrevoked, ?_⟩
    rcases h.signed with ⟨n, hknown, _⟩ | hsigned
    · cases (knownCert_mem hknown).1
    · exact Or.inr hsigned
  · intro h
    refine ⟨h.issued, h.window, h.contributory, h.names, h.unrevoked, Or.inr ?_⟩
    rcases h.signed with ⟨n, hknown, hlast⟩ | hsigned
    · obtain ⟨hmem, hmac, hbytes⟩ := knownCert_mem hknown
      have hsigned := hmemos n hmem ogm signature hmac.symm hlast
      rw [knownCert_rawCert hknown hread] at hsigned hbytes
      rw [hbytes] at hsigned
      exact hsigned
    · exact hsigned

theorem verifyOgmWith_forgetful (hsound : s.CacheSound k) (hmemos : s.MemosSound k)
    {ogm : BatmanOgmPacket} {tail certBytes rest : Bytes} {cert : MembershipCert}
    {signature : Octets 64}
    (hread : MembershipCert.readFromPrefix certBytes = some (cert, rest)) :
    (s.verifyOgmWith k ogm tail certBytes cert signature).2 =
      (s.forgetful.verifyOgmWith k ogm tail certBytes cert signature).2 := by
  have hagree : Authentic k s.forgetful ogm certBytes cert signature ↔
      Authentic k s ogm certBytes cert signature := authentic_forgetful_iff hmemos hread
  rcases verifyOgmWith_spec ogm signature hsound hread tail with
    ⟨hverdict, hauth, _⟩ | ⟨hverdict, hnot, _⟩
  · rcases verifyOgmWith_spec ogm signature (s.forgetful_sound k) hread tail with
      ⟨hafresh, _⟩ | ⟨_, hafresh, _⟩
    · rw [hverdict, hafresh]
    · exact absurd (hagree.mpr hauth) hafresh
  · rcases verifyOgmWith_spec ogm signature (s.forgetful_sound k) hread tail with
      ⟨_, hafresh, _⟩ | ⟨hafresh, _⟩
    · exact absurd (hagree.mp hafresh) hnot
    · rw [hverdict, hafresh]

/-- With sound memories nothing is admitted that would not be without them, and nothing
refused. -/
theorem transparent_of_sound (hsound : s.CacheSound k) (hmemos : s.MemosSound k) :
    s.Transparent k := by
  intro payload
  unfold verifyOgm verifyAfresh
  cases BatmanOgmPacket.readFromPrefix payload with
  | none => rfl
  | some header =>
    obtain ⟨ogm, tail⟩ := header
    dsimp only
    cases findTvlv tail .ogmSig >>= Octets.tryFrom with
    | none => rfl
    | some signature =>
      dsimp only
      cases s.certBytesFor k ogm.orig tail with
      | error verdict => rfl
      | ok certBytes =>
        dsimp only
        cases hread : MembershipCert.readFromPrefix certBytes with
        | none => rfl
        | some parsed =>
          obtain ⟨cert, rest⟩ := parsed
          exact verifyOgmWith_forgetful hsound hmemos hread

/-! ### Which OGMs are remembered wrongly -/

/-- The OGM is admitted and remembered, and its signature covers padding behind the
certificate. -/
structure Poisonous (k : Crypto) (s : OgmAuth c) (payload : Bytes) (ogm : BatmanOgmPacket)
    (tail certBytes : Bytes) (cert : MembershipCert) (signature : Octets 64) : Prop where
  parses : Parses k s payload ogm tail certBytes cert signature
  issued : s.anchor.Issued k cert
  window : cert.InWindow s.wall
  contributory : Contributory k cert.xPubkey
  names : cert.nodeMac = ogm.orig
  unrevoked : s.isRevoked cert.facts = false
  signed : SignedOgm k ogm certBytes cert.edPubkey signature
  bareUnsigned : ¬ SignedOgm k ogm cert.asBytes cert.edPubkey signature
  unopposed : s.identityConflict cert.nodeMac cert.edPubkey = false
  stays : cert.nodeMac ∉ newlyRevoked k s (tailRecords tail)

def Poisons (k : Crypto) (s : OgmAuth c) (payload : Bytes) : Prop :=
  ∃ ogm tail certBytes cert signature,
    Poisonous k s payload ogm tail certBytes cert signature

/-- No signature is remembered that the bare certificate does not carry. -/
def Wholesome (k : Crypto) (s : OgmAuth c) : StateOp → Prop
  | .auth (.verifyOgm payload) => ¬ Poisons k s payload
  | _ => True

/-- A record of the size of a certificate leaves no room for padding. -/
theorem not_poisons_of_size {payload : Bytes}
    (hsize : ∀ ogm tail, BatmanOgmPacket.readFromPrefix payload = some (ogm, tail) →
      ∃ record, findTvlv tail .cert = some record ∧ record.length = MembershipCert.size) :
    ¬ Poisons k s payload := by
  rintro ⟨ogm, tail, certBytes, cert, signature, h⟩
  obtain ⟨record, hrecord, hlength⟩ := hsize ogm tail h.parses.header
  have hfound := h.parses.certFound
  rw [certBytesFor, hrecord] at hfound
  obtain rfl := Except.ok.inj hfound
  obtain ⟨rest, hread⟩ := h.parses.certRead
  have hbytes := MembershipCert.asBytes_of_readFromPrefix hread
  have hnil : rest = [] := by
    apply List.eq_nil_of_length_eq_zero
    rw [hbytes, List.length_append, MembershipCert.asBytes_length] at hlength
    omega
  rw [hnil, List.append_nil] at hbytes
  exact h.bareUnsigned (hbytes ▸ h.signed)

/-! ### One step -/

theorem ingestAll_neighbors (records : List RevocationRecord) :
    ∀ n ∈ (s.ingestAll k records).neighbors.toList, n ∈ s.neighbors.toList := by
  induction records generalizing s with
  | nil => exact fun n hn => hn
  | cons record rest ih =>
    intro n hn
    obtain ⟨_, _, hshrinks, _⟩ := ingestRevocation_adds k s record
    exact hshrinks n (ih n hn)

theorem verifyOgm_memosSound (hsound : s.CacheSound k) (hmemos : s.MemosSound k)
    {payload : Bytes} (hsafe : ¬ Poisons k s payload) : (s.verifyOgm k payload).1.MemosSound k := by
  rcases verifyOgm_spec hsound payload with
    ⟨_, ogm, tail, certBytes, cert, signature, hparse, hauth, s₁, key, hkept, heq⟩ | ⟨_, hkept, _⟩
  · intro n hn
    rw [heq, ingestRevocationsFromTail_eq] at hn
    have hcached := ingestAll_neighbors _ n hn
    rcases s₁.cacheNeighbor_cases ⟨cert.facts, key, cert, some (ogm.seqno, signature)⟩ with
      ⟨_, hrefused⟩ | ⟨hfree, _⟩
    · rw [hrefused, hkept.neighbors] at hcached
      exact hmemos n hcached
    rcases (s₁.cacheNeighbor_adds _).2 n hcached with rfl | hold
    · -- The new entry: its signature is remembered already, or was checked over the record.
      intro ogm' signature' horig hlast
      obtain ⟨hseqno, rfl⟩ := Prod.mk.inj (Option.some.inj hlast)
      have hsame : ogm'.orig = ogm.orig := horig.trans hauth.names
      suffices hbare : SignedOgm k ogm cert.asBytes cert.edPubkey signature by
        rw [SignedOgm, hsame, ← hseqno]
        exact hbare
      by_contra hbare
      rcases hauth.signed with ⟨m, hknown, hmemo⟩ | hsigned
      · obtain ⟨rest, hread⟩ := hparse.certRead
        obtain ⟨hmem, hmac, _⟩ := knownCert_mem hknown
        have hsigned := hmemos m hmem ogm signature hmac.symm hmemo
        rw [knownCert_rawCert hknown hread] at hsigned
        exact hbare hsigned
      · refine hsafe ⟨ogm, tail, certBytes, cert, signature, hparse, hauth.issued, hauth.window,
          hauth.contributory, hauth.names, hauth.unrevoked, hsigned, hbare, ?_, ?_⟩
        · rw [← hfree, identityConflict, identityConflict, hkept.wall, hkept.neighbors]
          rfl
        · have hstays := ((ingestAll_caches (tailRecords tail)).mp ⟨_, hn, rfl⟩).2
          rw [newlyRevoked_congr (hkept.sameRecords.trans (s₁.cacheNeighbor_sameRecords _))]
            at hstays
          exact hstays
    · rw [hkept.neighbors] at hold
      exact hmemos n hold
  · intro n hn
    rw [hkept.neighbors] at hn
    exact hmemos n hn

/-- Neither the keys, nor what they are judged by, nor the node's own standing have
changed. -/
structure KeysKept (s s' : OgmAuth c) : Prop where
  neighbors : s'.neighbors = s.neighbors
  wall : s'.wall = s.wall
  anchor : s'.anchor = s.anchor
  cert : s'.cert = s.cert
  selfRevocation : s'.selfRevocation = s.selfRevocation

theorem KeysKept.refl (s : OgmAuth c) : KeysKept s s := ⟨rfl, rfl, rfl, rfl, rfl⟩

theorem Kept.keysKept {s' : OgmAuth c} (h : Kept s s') : KeysKept s s' :=
  ⟨h.neighbors, h.wall, h.anchor, h.cert, h.selfRevocation⟩

theorem HandsOver.keysKept {src : Mac} {counter : Option Nat} {r : OgmAuth c × Bool}
    (h : s.HandsOver src counter r) : KeysKept s r.1 := by
  obtain ⟨counters, heq⟩ := h.frame
  rw [heq]
  exact ⟨rfl, rfl, rfl, rfl, rfl⟩

theorem after_keysKept (op : StateOp) (hop : ∀ op', op ≠ .auth op')
    (hrenew : ∀ body, op ≠ .ingestRenewReply body) : KeysKept s (s.after k op) := by
  cases op with
  | auth op' => exact absurd rfl (hop op')
  | ingestRenewReply body => exact absurd rfl (hrenew body)
  | verifyDirected src frame trailer =>
    exact (verifyDirected_handsOver k s src frame trailer).keysKept
  | verifyDirectedNonceFresh src frame trailer =>
    obtain ⟨counters, claim, heq⟩ := verifyDirectedNonceFresh_frame k s src frame trailer
    rw [after, perform, heq]
    exact ⟨rfl, rfl, rfl, rfl, rfl⟩
  | verifyFanout src frame trailer =>
    exact (verifyFanout_handsOver k s src frame trailer).keysKept
  | verifyKeepalive src payload => exact (verifyKeepalive_handsOver k s src payload).keysKept
  | issueChallenge neighbor =>
    rcases issueChallenge_cases k s neighbor with heq | ⟨_, _, _, _, _, _, heq⟩
    · rw [after, perform, heq]
      exact .refl s
    · rw [after, perform, heq]
      exact ⟨rfl, rfl, rfl, rfl, rfl⟩
  | verifyChallengeResponse neighbor tag =>
    rcases verifyChallengeResponse_cases k s neighbor tag with
      ⟨_, _, heq⟩ | ⟨_, _, _, _, heq, _⟩
    · rw [after, perform, heq]
      exact ⟨rfl, rfl, rfl, rfl, rfl⟩
    · rw [after, perform, heq]
      exact ⟨rfl, rfl, rfl, rfl, rfl⟩
  | tagDirected dst frame trailerLen => exact (tagDirected_booked k s dst frame trailerLen).keysKept
  | signFanout frame trailerLen => exact (signFanout_booked k s frame trailerLen).keysKept
  | augmentKeepalive len bufLen => exact (augmentKeepalive_booked k s len bufLen).keysKept
  | augmentOgm base bufLen lazy =>
    rcases augmentOgm_cases k s base bufLen lazy with heq | ⟨sent, heq⟩
    · rw [after, perform, heq]
      exact .refl s
    · rw [after, perform, heq]
      exact ⟨rfl, rfl, rfl, rfl, rfl⟩
  | buildRenewalRequest bufLen =>
    rcases buildRenewalRequest_cases k s bufLen with heq | ⟨_, _, heq⟩
    · rw [after, perform, heq]
      exact .refl s
    · rw [after, perform, heq]
      exact ⟨rfl, rfl, rfl, rfl, rfl⟩
  | handleRenewReq body => exact (handleRenewReq_booked k s body).keysKept

/-- The keys and what they are judged by survive every operation that is not about
certificates, records and clocks; a renewal replaces the node's own certificate alone. -/
theorem after_neighbors (op : StateOp) (hop : ∀ op', op ≠ .auth op') :
    (s.after k op).neighbors = s.neighbors ∧ (s.after k op).wall = s.wall ∧
      (s.after k op).anchor = s.anchor := by
  by_cases hrenew : ∃ body, op = .ingestRenewReply body
  · obtain ⟨body, rfl⟩ := hrenew
    rcases ingestRenewReply_cases k s body with ⟨_, heq⟩ | ⟨_, _, heq⟩
    · rw [after, perform, heq]
      exact ⟨rfl, rfl, rfl⟩
    · rw [after, perform, heq]
      exact ⟨rfl, rfl, rfl⟩
  · have hkept := after_keysKept (k := k) (s := s) op hop fun body h => hrenew ⟨body, h⟩
    exact ⟨hkept.neighbors, hkept.wall, hkept.anchor⟩

theorem after_cacheSound (hsound : s.CacheSound k) (op : StateOp) :
    (s.after k op).CacheSound k := by
  by_cases hauth : ∃ op', op = .auth op'
  · obtain ⟨op', rfl⟩ := hauth
    exact step_sound hsound op'
  · obtain ⟨hneighbors, hwall, hanchor⟩ :=
      after_neighbors (k := k) (s := s) op fun op' hop => hauth ⟨op', hop⟩
    rw [CacheSound, hneighbors, hwall, hanchor]
    exact hsound

theorem MemosSound.of_subset {s' : OgmAuth c} (hmemos : s.MemosSound k)
    (hsub : ∀ n ∈ s'.neighbors.toList, n ∈ s.neighbors.toList) : s'.MemosSound k := by
  intro n hn
  exact hmemos n (hsub n hn)

theorem cacheNeighbor_memosSound (hmemos : s.MemosSound k) {keys : NeighborKeys}
    (hkeys : keys.lastOgm = none) : (s.cacheNeighbor keys).1.MemosSound k := by
  intro n hn
  rcases (s.cacheNeighbor_adds keys).2 n hn with rfl | hold
  · intro ogm signature _ hlast
    rw [hkeys] at hlast
    cases hlast
  · exact hmemos n hold

theorem step_memosSound (hsound : s.CacheSound k) (hmemos : s.MemosSound k) {op : AuthOp}
    (hsafe : Wholesome k s (.auth op)) : (s.step k op).MemosSound k := by
  cases op with
  | verifyOgm payload => exact verifyOgm_memosSound hsound hmemos hsafe
  | ingestCertReply body =>
    rcases ingestCertReply_cases k s body with ⟨_, hkept⟩ | ⟨_, _, _, keys, _, _, hkeys, hkept⟩
    · rw [MemosSound, step, hkept.neighbors]
      exact hmemos
    · rw [MemosSound, step, hkept.neighbors]
      exact cacheNeighbor_memosSound hmemos hkeys
  | verifyCertRequest body =>
    rcases verifyCertRequest_cases k s body with ⟨_, hkept⟩ | ⟨_, _, s₁, keys, hkept, _, hkeys, heq⟩
    · rw [MemosSound, step, hkept.neighbors]
      exact hmemos
    · rw [step, heq]
      apply cacheNeighbor_memosSound _ hkeys
      rw [MemosSound, hkept.neighbors]
      exact hmemos
  | buildCertRequest orig fp firstHop bufLen =>
    rw [MemosSound, step, (buildCertRequest_booked orig fp firstHop bufLen).neighbors]
    exact hmemos
  | ingestRevocation record =>
    obtain ⟨_, _, hshrinks, _⟩ := ingestRevocation_adds k s record
    exact hmemos.of_subset hshrinks
  | takeSelfRevoked =>
    obtain ⟨latch, heq⟩ := s.takeSelfRevoked_frame
    rw [MemosSound, step, heq]
    exact hmemos
  | setTime now wall =>
    obtain ⟨_, _, hneighbors, _⟩ := s.setTime_spec now wall
    exact hmemos.of_subset fun n hn => ((hneighbors n).mp hn).1
  | pruneExpired =>
    obtain ⟨revocations, heq⟩ := s.pruneExpired_frame
    rw [step, heq]
    exact hmemos

theorem after_memosSound (hsound : s.CacheSound k) (hmemos : s.MemosSound k) {op : StateOp}
    (hsafe : Wholesome k s op) : (s.after k op).MemosSound k := by
  by_cases hauth : ∃ op', op = .auth op'
  · obtain ⟨op', rfl⟩ := hauth
    exact step_memosSound hsound hmemos hsafe
  · rw [MemosSound, (after_neighbors (k := k) op fun op' hop => hauth ⟨op', hop⟩).1]
    exact hmemos

/-! ### Whole runs -/

/-- In a run that admits no OGM signed over padding, every verdict in every state is the
one a node without a memory would give. -/
theorem verdicts_transparent (k : Crypto) (keypair : Keypair) (cert : MembershipCert)
    (anchor : TrustAnchor) (ops : List StateOp)
    (hsafe : Run.AllSafe (after k) (Wholesome k) (withCapacities c keypair cert anchor) ops) :
    Run.AllGood (after k) (Transparent k) (withCapacities c keypair cert anchor) ops := by
  have hinit : (withCapacities c keypair cert anchor).MemosSound k := by
    intro n hn
    cases hn
  have hgood : Run.AllGood (after k) (fun s => s.CacheSound k ∧ s.MemosSound k)
      (withCapacities c keypair cert anchor) ops := by
    refine Run.allGood_of_allSafe ?_ ?_ hsafe
    · exact ⟨withCapacities_sound k keypair cert anchor, hinit⟩
    intro pre op hs hop
    exact ⟨after_cacheSound hs.1 op, after_memosSound hs.1 hs.2 hop⟩
  intro pre hpre
  obtain ⟨hsound, hmemos⟩ := hgood pre hpre
  exact transparent_of_sound hsound hmemos

end OgmAuth

namespace SmallMesh

open OgmAuth

/-! ### An octet behind a certificate -/

def paddedSignature : Octets 64 := signatureOf
  0xa60376bf062ea28449aa991cfd544c83419a94223d0fe0985bc46cab8d34a60b
  0x3f4a4fd67dd9643a3f012ae49c0da420c01325d05509d2ce971ad83b227b5407

def paddedCrypto : Crypto where
  verifySignature pubkey msg signature :=
    (pubkey, msg, signature) = (cert2.edPubkey, ogmMessage ++ [0], paddedSignature) ∨
      crypto.verifySignature pubkey msg signature = true
  sign := crypto.sign
  blake2s256 := crypto.blake2s256
  edPubkey := crypto.edPubkey
  xPubkey := crypto.xPubkey
  diffieHellman := crypto.diffieHellman
  low_order := crypto.low_order
  own_key := crypto.own_key

def paddedOgm : Bytes :=
  (ogmHeader 229).asBytes ++ ([TvlvType.cert.asU8, 1, 0, 157] ++ cert2.asBytes ++ [0] ++
    ([TvlvType.ogmSig.asU8, 1, 0, 64] ++ paddedSignature.toList))

def strippedOgm : Bytes :=
  (ogmHeader 228).asBytes ++ ([TvlvType.cert.asU8, 1, 0, 156] ++ cert2.asBytes ++
    ([TvlvType.ogmSig.asU8, 1, 0, 64] ++ paddedSignature.toList))

/-- Nobody signed the stripped OGM; node 3 refuses it until it has seen the padded one. -/
theorem padding_remembered :
    ((node3 100).verifyOgm paddedCrypto strippedOgm).2 = .rejected ∧
      (((node3 100).verifyOgm paddedCrypto paddedOgm).1.verifyOgm paddedCrypto strippedOgm).2 =
        .verified ∧
      ((node3 100).verifyOgm paddedCrypto paddedOgm).1.verifyAfresh paddedCrypto strippedOgm =
        .rejected := by
  decide +kernel

theorem ogm7_not_poisons (s : OgmAuth capacities) : ¬ Poisons paddedCrypto s (ogm7 228) := by
  apply not_poisons_of_size
  intro ogm tail hread
  have hparsed : BatmanOgmPacket.readFromPrefix (ogm7 228) = some (ogmHeader 228, ogmTail) := by
    decide +kernel
  obtain ⟨rfl, rfl⟩ := Prod.mk.inj (Option.some.inj (hread.symm.trans hparsed))
  exact ⟨cert2.asBytes, by decide +kernel, by decide +kernel⟩

/-- Two copies of one OGM, the second recognised. -/
theorem verdicts_transparent_ogm7 :
    Run.AllGood (after paddedCrypto) (Transparent paddedCrypto)
      (OgmAuth.withCapacities capacities (keypair 3) cert3 anchor)
      [.auth (.setTime (Duration.ofSecs 100) (.at 100)), .auth (.verifyOgm (ogm7 228)),
        .auth (.verifyOgm (ogm7 228))] := by
  apply verdicts_transparent
  rw [Run.allSafe_cons, Run.allSafe_cons, Run.allSafe_cons]
  exact ⟨trivial, ogm7_not_poisons _, ogm7_not_poisons _, Run.allSafe_nil⟩

end SmallMesh

end Wayfinder
