import Wayfinder.Auth.Run
import Wayfinder.Forwarding

/-!
# Authentication across a relay

A relay verifies an OGM over the whole payload, and re-floods of its tail what the
unsigned `tvlv_len` claims. The records of the claimed part are the first records of
the whole, so the peer finds what the relay found or finds nothing: the signature or
the certificate that lies beyond the claim is lost on the way.
-/

namespace Wayfinder

set_option autoImplicit false

/-! ### What a re-flood keeps of the records -/

section Records

theorem tvlvRecords_take_prefix (tail : Bytes) (n : Nat) :
    tvlvRecords (tail.take n) <+: tvlvRecords tail := by
  obtain ⟨rest, hsplit, _⟩ := tvlvScan_spec (tail.take n)
  have hwhole : tail = tvlvBytes (tvlvScan (tail.take n)).1 ++ (rest ++ tail.drop n) := by
    rw [← List.append_assoc, ← hsplit, List.take_append_drop]
  have hscan := tvlvScan_append (tvlvScan (tail.take n)).1 (rest ++ tail.drop n)
  rw [← hwhole] at hscan
  exact ⟨_, (congrArg Prod.fst hscan).symm⟩

theorem findTvlv_of_take {tail : Bytes} {n : Nat} {ty : TvlvType} {value : Bytes}
    (h : findTvlv (tail.take n) ty = some value) : findTvlv tail ty = some value := by
  obtain ⟨more, hmore⟩ := tvlvRecords_take_prefix tail n
  unfold findTvlv at h ⊢
  obtain ⟨record, hfind, rfl⟩ := Option.map_eq_some_iff.mp h
  rw [← hmore, List.find?_append, hfind]
  rfl

theorem findTvlv_stamped (tail : Bytes) {ty : TvlvType} (hty : ty ≠ .prevSender) (src : Mac) :
    findTvlv (tvlvBytes (keptRecords tail ++ [prevSenderRecord src])) ty = findTvlv tail ty := by
  have hrecords : tvlvRecords (tvlvBytes (keptRecords tail ++ [prevSenderRecord src])) =
      keptRecords tail ++ [prevSenderRecord src] := congrArg Prod.fst (tvlvScan_tvlvBytes _)
  have hother : TvlvType.prevSender.asU8 ≠ ty.asU8 := by
    intro heq
    exact hty (TvlvType.asU8_injective heq.symm)
  have hlast : [prevSenderRecord src].find? (fun r => r.hdr.tvlvType = ty.asU8) = none := by
    simp [prevSenderRecord, hother]
  unfold findTvlv
  rw [hrecords, List.find?_append, hlast, Option.or_none, keptRecords, List.find?_filter]
  congr 2
  funext r
  by_cases hr : r.hdr.tvlvType = ty.asU8
  · simp [hr, hother.symm]
  · simp [hr]

end Records

namespace BatmanEngine

variable {c : Capacities} {e : BatmanEngine c} {now : Duration} {frame : LinkFrame}
  {localQuality : Option U8} {replyLen : Nat} {q : LinkFrameData}

/-- A re-flood of this OGM: the numbers it is signed over, and the claimed records
restamped. -/
def IsReflood (ogm : BatmanOgmPacket) (claimed : Bytes) (src : Mac) (q : LinkFrameData) : Prop :=
  ∃ hdr : BatmanOgmPacket, hdr.orig = ogm.orig ∧ hdr.seqno = ogm.seqno ∧
    q.payload = hdr.asBytes ++ tvlvBytes (keptRecords claimed ++ [prevSenderRecord src])

theorem handleOgm_isReflood (h : (e.handleOgm now frame localQuality replyLen).2 = some q) :
    ∃ ogm tail, BatmanOgmPacket.readFromPrefix frame.payload = some (ogm, tail) ∧
      IsReflood ogm (tail.take ogm.tvlvLen.get) frame.src q := by
  obtain ⟨ogm, tail, hread, _, _, e', hflood⟩ := handleOgm_eq_some h
  obtain ⟨_, _, _, hsent⟩ := refloodOgm_eq_some hflood
  refine ⟨ogm, tail, hread, _, ?_, ?_, hsent⟩
  · rfl
  · rfl

end BatmanEngine

/-! ### The relay and its peers -/

namespace OgmAuth

variable {c c' : AuthCapacities} {k : Crypto} {relay : OgmAuth c} {peer : OgmAuth c'}
  {ogm : BatmanOgmPacket} {tail : Bytes}

/-- The peer trusts what the relay trusts, at the same time, knows of no further
revocation, and holds every certificate the relay holds. -/
structure Covers (relay : OgmAuth c) (peer : OgmAuth c') : Prop where
  anchor : peer.anchor = relay.anchor
  wall : peer.wall = relay.wall
  revocations : ∀ slot ∈ peer.revocations.toList,
    ∃ slot' ∈ relay.revocations.toList, slot'.record = slot.record
  neighbors : ∀ n ∈ relay.neighbors.toList, ∃ n' ∈ peer.neighbors.toList, n'.rawCert = n.rawCert

theorem Covers.unrevoked (h : Covers relay peer) {cert : VerifiedCert}
    (hrelay : relay.isRevoked cert = false) : peer.isRevoked cert = false := by
  rw [isRevoked_eq_false_iff] at hrelay ⊢
  intro slot hslot
  obtain ⟨slot', hslot', hrecord⟩ := h.revocations slot hslot
  rw [h.wall, ← hrecord]
  exact hrelay slot' hslot'

theorem Covers.neighborCert (h : Covers relay peer) (hrelay : relay.CacheSound k)
    (hpeer : peer.CacheSound k) {orig : Mac} {held : MembershipCert × Octets 8}
    (hheld : relay.neighborCert k orig = some held) : peer.neighborCert k orig = some held := by
  obtain ⟨n, hlive, rfl⟩ := Option.map_eq_some_iff.mp hheld
  obtain ⟨hn, hmac, hfresh⟩ := liveNeighbor_eq_some_iff.mp hlive
  obtain ⟨n', hn', hraw⟩ := h.neighbors n hn
  have hfacts : n'.cert = n.cert := by
    rw [(hpeer n' hn').facts, (hrelay n hn).facts, hraw]
  have hlive' : peer.liveNeighbor orig = some n' := by
    rw [liveNeighbor_eq_some_iff, hfacts, h.wall]
    exact ⟨hn', hmac, hfresh⟩
  rw [OgmAuth.neighborCert, hlive', Option.map_some, hraw]

def Serves (k : Crypto) (peer : OgmAuth c) (orig : Mac) (fpBytes : Bytes) : Prop :=
  ∃ fp cached, Octets.tryFrom fpBytes = some fp ∧ peer.neighborCert k orig = some (cached, fp) ∧
    cached.InWindow peer.wall ∧ peer.isRevoked cached.facts = false

def claimed (ogm : BatmanOgmPacket) (tail : Bytes) : Bytes := tail.take ogm.tvlvLen.get

/-- What the claimed part of an OGM must hold for a peer: the signature record; the
certificate record, or a fingerprint record which stands for the certificate the
relay judged by, or for one the peer can judge by; and a signature that covers that
certificate, unless the peer has checked this very one before. -/
structure Survives (k : Crypto) (peer : OgmAuth c) (ogm : BatmanOgmPacket) (tail : Bytes) :
    Prop where
  sig : (findTvlv (claimed ogm tail) .ogmSig).isSome
  cert : (findTvlv (claimed ogm tail) .cert).isSome ∨
    ∃ fpBytes, findTvlv (claimed ogm tail) .certFp = some fpBytes ∧
      (findTvlv tail .cert = none ∨ Serves k peer ogm.orig fpBytes)
  signed : ∀ certBytes cert rest signature,
    peer.certBytesFor k ogm.orig (claimed ogm tail) = .ok certBytes →
    MembershipCert.readFromPrefix certBytes = some (cert, rest) →
    (findTvlv tail .ogmSig >>= Octets.tryFrom) = some signature →
    Remembers peer ogm certBytes signature ∨ SignedOgm k ogm certBytes cert.edPubkey signature

section Verdicts
variable {k : Crypto} {s : OgmAuth c} {ogm : BatmanOgmPacket} {tail : Bytes}

theorem certBytesFor_congr {orig : Mac} {tail tail' : Bytes}
    (hcert : findTvlv tail' .cert = findTvlv tail .cert)
    (hfp : findTvlv tail' .certFp = findTvlv tail .certFp) :
    s.certBytesFor k orig tail' = s.certBytesFor k orig tail := by
  unfold certBytesFor
  rw [hcert, hfp]

theorem certBytesFor_of_cert {orig : Mac} {certBytes : Bytes}
    (h : findTvlv tail .cert = some certBytes) : s.certBytesFor k orig tail = .ok certBytes := by
  unfold certBytesFor
  rw [h]

/-- Without a certificate on the wire, the cache has to hold the one of the
fingerprint. -/
theorem certBytesFor_of_none {orig : Mac} {certBytes : Bytes} (h : findTvlv tail .cert = none) :
    s.certBytesFor k orig tail = .ok certBytes ↔ ∃ fpBytes fp cached,
      findTvlv tail .certFp = some fpBytes ∧ Octets.tryFrom fpBytes = some fp ∧
        s.neighborCert k orig = some (cached, fp) ∧ certBytes = cached.asBytes := by
  unfold certBytesFor
  rw [h]
  dsimp only
  constructor
  · intro hok
    split at hok
    · cases hok
    rename_i fpBytes hfp
    split at hok
    · cases hok
    rename_i fp hread
    split at hok
    · cases hok
    rename_i cached cachedFp hheld
    split at hok
    · rename_i hsame
      subst hsame
      exact ⟨fpBytes, cachedFp, cached, hfp, hread, hheld, (Except.ok.inj hok).symm⟩
    · cases hok
  · rintro ⟨fpBytes, fp, cached, hfp, hread, hheld, rfl⟩
    simp only [hfp, hread, hheld, if_true]

theorem verifyOgm_reflood_kept (hs : s.CacheSound k) {kept : Bytes} {src : Mac}
    {q : LinkFrameData} (hflood : BatmanEngine.IsReflood ogm kept src q) :
    (s.verifyOgm k q.payload).2 = .verified ↔ ∃ certBytes cert signature,
      (findTvlv kept .ogmSig >>= Octets.tryFrom) = some signature ∧
      s.certBytesFor k ogm.orig kept = .ok certBytes ∧
      (∃ rest, MembershipCert.readFromPrefix certBytes = some (cert, rest)) ∧
      Authentic k s ogm certBytes cert signature := by
  obtain ⟨hdr, horig, hseqno, hpayload⟩ := hflood
  have hheader : BatmanOgmPacket.readFromPrefix q.payload =
      some (hdr, tvlvBytes (keptRecords kept ++ [prevSenderRecord src])) := by
    rw [hpayload, BatmanOgmPacket.readFromPrefix_asBytes]
  have hsig := findTvlv_stamped kept (show TvlvType.ogmSig ≠ .prevSender by decide) src
  have hbytes : s.certBytesFor k hdr.orig
      (tvlvBytes (keptRecords kept ++ [prevSenderRecord src])) =
        s.certBytesFor k ogm.orig kept := by
    rw [horig]
    exact certBytesFor_congr (findTvlv_stamped kept (by decide) src)
      (findTvlv_stamped kept (by decide) src)
  have hauth : ∀ certBytes cert signature, Authentic k s hdr certBytes cert signature ↔
      Authentic k s ogm certBytes cert signature := by
    intro certBytes cert signature
    simp only [authentic_iff, Remembers, SignedOgm, horig, hseqno]
  rw [verifyOgm_verified_iff hs]
  constructor
  · rintro ⟨ogm', tail', certBytes, cert, signature, hparse, hok⟩
    obtain ⟨rfl, rfl⟩ := Prod.mk.inj (Option.some.inj (hparse.header.symm.trans hheader))
    exact ⟨certBytes, cert, signature, hsig ▸ hparse.sigFound, hbytes ▸ hparse.certFound,
      hparse.certRead, (hauth _ _ _).mp hok⟩
  · rintro ⟨certBytes, cert, signature, hfound, hcert, hread, hok⟩
    exact ⟨hdr, _, certBytes, cert, signature,
      ⟨hheader, hsig.symm ▸ hfound, hbytes.trans hcert, hread⟩, (hauth _ _ _).mpr hok⟩

end Verdicts

theorem findTvlv_of_claimed {ty : TvlvType} {value : Bytes}
    (h : findTvlv (claimed ogm tail) ty = some value) : findTvlv tail ty = some value :=
  findTvlv_of_take h

theorem findSig_of_claimed {signature : Octets 64} (h : (findTvlv (claimed ogm tail) .ogmSig).isSome)
    (hrelay : (findTvlv tail .ogmSig >>= Octets.tryFrom) = some signature) :
    (findTvlv (claimed ogm tail) .ogmSig >>= Octets.tryFrom) = some signature := by
  obtain ⟨value, hvalue⟩ := Option.isSome_iff_exists.mp h
  rw [findTvlv_of_claimed hvalue] at hrelay
  rw [hvalue]
  exact hrelay

theorem survives_of_verified {certBytes : Bytes} {cert : MembershipCert} {signature : Octets 64}
    (hsig : (findTvlv (claimed ogm tail) .ogmSig >>= Octets.tryFrom) = some signature)
    (hbytes : peer.certBytesFor k ogm.orig (claimed ogm tail) = .ok certBytes)
    (hread : ∃ rest, MembershipCert.readFromPrefix certBytes = some (cert, rest))
    (hauth : Authentic k peer ogm certBytes cert signature) : Survives k peer ogm tail := by
  obtain ⟨value, hvalue, hvalueRead⟩ := Option.bind_eq_some_iff.mp hsig
  refine ⟨Option.isSome_iff_exists.mpr ⟨value, hvalue⟩, ?_, ?_⟩
  · cases hcert : findTvlv (claimed ogm tail) .cert with
    | some onWire => exact Or.inl rfl
    | none =>
      obtain ⟨fpBytes, fp, cached, hfp, hfpRead, hheld, rfl⟩ := (certBytesFor_of_none hcert).mp hbytes
      obtain ⟨rest, hrest⟩ := hread
      have hself := MembershipCert.readFromPrefix_asBytes cached []
      rw [List.append_nil, hrest] at hself
      obtain ⟨rfl, _⟩ := Prod.mk.inj (Option.some.inj hself)
      exact Or.inr ⟨fpBytes, hfp, Or.inr ⟨fp, cert, hfpRead, hheld, hauth.window, hauth.unrevoked⟩⟩
  · intro certBytes' cert' rest' signature' hbytes' hread' hsig'
    obtain rfl := Except.ok.inj (hbytes.symm.trans hbytes')
    obtain ⟨rest, hrest⟩ := hread
    obtain ⟨rfl, _⟩ := Prod.mk.inj (Option.some.inj (hrest.symm.trans hread'))
    rw [findTvlv_of_claimed hvalue] at hsig'
    obtain rfl := Option.some.inj (hvalueRead.symm.trans hsig')
    exact hauth.signed

theorem Survives.certificate (hsurvives : Survives k peer ogm tail) (hcovers : Covers relay peer)
    (hrelay : relay.CacheSound k) (hpeer : peer.CacheSound k) {certBytes : Bytes}
    {cert : MembershipCert} {signature : Octets 64}
    (hbytes : relay.certBytesFor k ogm.orig tail = .ok certBytes)
    (hauth : Authentic k relay ogm certBytes cert signature)
    (hread : ∃ rest, MembershipCert.readFromPrefix certBytes = some (cert, rest)) :
    ∃ certBytes' cert', peer.certBytesFor k ogm.orig (claimed ogm tail) = .ok certBytes' ∧
      (∃ rest, MembershipCert.readFromPrefix certBytes' = some (cert', rest)) ∧
      peer.anchor.Issued k cert' ∧ cert'.InWindow peer.wall ∧ Contributory k cert'.xPubkey ∧
      cert'.nodeMac = ogm.orig ∧ peer.isRevoked cert'.facts = false := by
  have hsame : peer.certBytesFor k ogm.orig (claimed ogm tail) = .ok certBytes →
      ∃ certBytes' cert', peer.certBytesFor k ogm.orig (claimed ogm tail) = .ok certBytes' ∧
        (∃ rest, MembershipCert.readFromPrefix certBytes' = some (cert', rest)) ∧
        peer.anchor.Issued k cert' ∧ cert'.InWindow peer.wall ∧ Contributory k cert'.xPubkey ∧
        cert'.nodeMac = ogm.orig ∧ peer.isRevoked cert'.facts = false := by
    intro hok
    refine ⟨certBytes, cert, hok, hread, ?_, ?_, hauth.contributory, hauth.names,
      hcovers.unrevoked hauth.unrevoked⟩
    · rw [hcovers.anchor]
      exact hauth.issued
    · rw [hcovers.wall]
      exact hauth.window
  cases hcert : findTvlv (claimed ogm tail) .cert with
  | some onWire =>
    apply hsame
    rw [certBytesFor_of_cert (findTvlv_of_claimed hcert)] at hbytes
    rw [certBytesFor_of_cert hcert, hbytes]
  | none =>
    rcases hsurvives.cert with hkept | ⟨fpBytes, hfp, hnone | hserves⟩
    · rw [hcert] at hkept
      cases hkept
    · -- The relay, too, went by the fingerprint.
      obtain ⟨fpBytes', fp, cached, hfp', hfpRead, hheld, rfl⟩ :=
        (certBytesFor_of_none hnone).mp hbytes
      obtain rfl := Option.some.inj ((findTvlv_of_claimed hfp).symm.trans hfp')
      apply hsame
      exact (certBytesFor_of_none hcert).mpr ⟨fpBytes, fp, cached, hfp, hfpRead,
        hcovers.neighborCert hrelay hpeer hheld, rfl⟩
    · obtain ⟨fp, cached, hfpRead, hheld, hwindow, hunrevoked⟩ := hserves
      obtain ⟨n, hlive, hn⟩ := Option.map_eq_some_iff.mp hheld
      obtain ⟨rfl, _⟩ := Prod.mk.inj hn
      obtain ⟨hmem, hmac, _⟩ := liveNeighbor_eq_some_iff.mp hlive
      have hentry := hpeer n hmem
      refine ⟨n.rawCert.asBytes, n.rawCert, ?_, ⟨[], ?_⟩, hentry.issued, hwindow,
        hentry.contributory, ?_, hunrevoked⟩
      · exact (certBytesFor_of_none hcert).mpr ⟨fpBytes, fp, n.rawCert, hfp, hfpRead, hheld, rfl⟩
      · simpa using MembershipCert.readFromPrefix_asBytes n.rawCert []
      · rw [← hmac, hentry.facts]
        rfl

/-- An OGM the relay verified and re-flooded is verified at a peer exactly when what
its `tvlv_len` claims does for the peer. -/
theorem verifyOgm_reflood_iff {d : Capacities} (hrelay : Reachable k relay)
    (hpeer : Reachable k peer) (hcovers : Covers relay peer) (e : BatmanEngine d) (now : Duration)
    (frame : LinkFrame) (localQuality : Option U8) (replyLen : Nat) (q : LinkFrameData)
    (hverified : (relay.verifyOgm k frame.payload).2 = .verified)
    (hflood : (e.handleOgm now frame localQuality replyLen).2 = some q) :
    (peer.verifyOgm k q.payload).2 = .verified ↔ ∃ ogm tail,
      BatmanOgmPacket.readFromPrefix frame.payload = some (ogm, tail) ∧
        Survives k peer ogm tail := by
  obtain ⟨ogm, tail, hread, hreflood⟩ := BatmanEngine.handleOgm_isReflood hflood
  rw [verifyOgm_reflood_kept hpeer.sound hreflood]
  constructor
  · rintro ⟨certBytes, cert, signature, hsig, hbytes, hcert, hauth⟩
    exact ⟨ogm, tail, hread, survives_of_verified hsig hbytes hcert hauth⟩
  · rintro ⟨ogm', tail', hread', hsurvives⟩
    obtain ⟨rfl, rfl⟩ := Prod.mk.inj (Option.some.inj (hread.symm.trans hread'))
    obtain ⟨ogm', tail', certBytes, cert, signature, hparse, hauth⟩ :=
      (verifyOgm_verified_iff hrelay.sound).mp hverified
    obtain ⟨rfl, rfl⟩ := Prod.mk.inj (Option.some.inj (hread.symm.trans hparse.header))
    obtain ⟨certBytes', cert', hbytes, ⟨rest, hcert⟩, hissued, hwindow, hcontrib, hnames,
      hunrevoked⟩ := hsurvives.certificate hcovers hrelay.sound hpeer.sound hparse.certFound hauth
        hparse.certRead
    exact ⟨certBytes', cert', signature, findSig_of_claimed hsurvives.sig hparse.sigFound, hbytes,
      ⟨rest, hcert⟩, hissued, hwindow, hcontrib, hnames, hunrevoked,
      hsurvives.signed _ _ _ _ hbytes hcert hparse.sigFound⟩

section SmallMesh
open SmallMesh

/-- Node 2's OGM as node 3 hears it. -/
def heard (tvlvLen : Nat) : LinkFrame := ⟨Mac.broadcast, mac2, ethPBatman, ogm7 tvlvLen⟩

def relayEngine : BatmanEngine ⟨4, 2, 4, 4, isPowerOfTwo_four⟩ := .new _ cert3.nodeMac

def relayed (tvlvLen : Nat) : Option LinkFrameData :=
  (relayEngine.handleOgm (Duration.ofSecs 400) (heard tvlvLen) none 1500).2

theorem node3_reachable (t : Nat) : Reachable crypto (node3 t) :=
  ⟨SmallMesh.keypair 3, cert3, SmallMesh.anchor, [.setTime (Duration.ofSecs t) (.at t)], rfl⟩

theorem node4_reachable (t : Nat) : Reachable crypto (node4 t) :=
  ⟨SmallMesh.keypair 4, cert4, SmallMesh.anchor, [.setTime (Duration.ofSecs t) (.at t)], rfl⟩

theorem node4_covers_node3 : Covers (node3 400) (node4 400) where
  anchor := rfl
  wall := rfl
  revocations slot hslot := by
    have hnone : (node4 400).revocations.toList.length = 0 := by decide +kernel
    rw [List.eq_nil_of_length_eq_zero hnone] at hslot
    cases hslot
  neighbors n hn := by
    have hnone : (node3 400).neighbors.toList.length = 0 := by decide +kernel
    rw [List.eq_nil_of_length_eq_zero hnone] at hn
    cases hn

theorem survives_228 : Survives crypto (node4 400) (ogmHeader 228) ogmTail := by
  refine ⟨by decide +kernel, Or.inl (by decide +kernel), ?_⟩
  intro certBytes cert rest signature hbytes hread hsig
  have hwire : findTvlv (claimed (ogmHeader 228) ogmTail) .cert = some cert2.asBytes := by
    decide +kernel
  rw [certBytesFor_of_cert hwire] at hbytes
  obtain rfl := Except.ok.inj hbytes
  have hself := MembershipCert.readFromPrefix_asBytes cert2 []
  rw [List.append_nil, hread] at hself
  obtain ⟨rfl, _⟩ := Prod.mk.inj (Option.some.inj hself)
  have hfound : (findTvlv ogmTail .ogmSig >>= Octets.tryFrom) = some ogmSignature := by
    decide +kernel
  obtain rfl := Option.some.inj (hfound.symm.trans hsig)
  exact Or.inr ⟨ogmMessage, by decide +kernel, by decide +kernel⟩

theorem verifyOgm_reflood_whole : ∃ q, relayed 228 = some q ∧
    ((node4 400).verifyOgm crypto q.payload).2 = .verified := by
  obtain ⟨q, hq⟩ := Option.isSome_iff_exists.mp (by decide +kernel : (relayed 228).isSome = true)
  refine ⟨q, hq, (verifyOgm_reflood_iff (node3_reachable 400) (node4_reachable 400)
    node4_covers_node3 relayEngine _ (heard 228) none 1500 q ?_ hq).mpr
      ⟨ogmHeader 228, ogmTail, rfl, survives_228⟩⟩
  decide +kernel

/-- With 160 bytes claimed, the certificate goes on and the signature does not. -/
theorem reflood_loses_signature :
    Reachable crypto (node3 400) ∧ Reachable crypto (node4 400) ∧
      Covers (node3 400) (node4 400) ∧
      ((node3 400).verifyOgm crypto (heard 160).payload).2 = .verified ∧
      (relayed 160).map (fun q => ((node4 400).verifyOgm crypto q.payload).2) = some .rejected :=
  ⟨node3_reachable 400, node4_reachable 400, node4_covers_node3, by decide +kernel,
    by decide +kernel⟩

end SmallMesh

end OgmAuth

end Wayfinder
