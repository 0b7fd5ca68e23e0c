import Wayfinder.Auth.Flood
import Wayfinder.Auth.Memo
import Wayfinder.Lib.Pieces

/-!
# The envelope of an OGM

The node writes its certificate, its signature and the revocations it floods behind an
OGM the engine has built, at offsets it keeps itself, in the buffer the OGM lies in; a
peer finds the records again by scanning the tail. What the writer leaves is the OGM of
the plain description in front of the rest of the buffer, and what a peer makes of it is
read off its records.
-/

namespace Wayfinder

set_option autoImplicit false

open Table Pieces

def tvlvLenOff : Nat := BatmanOgmPacket.size - 2

def writeTvlv (buf : Bytes) (off : Nat) (ty : TvlvType) (value : Bytes) : Bytes × Nat :=
  let hdr : BatmanTvlvHdr := ⟨ty.asU8, 1, Be16.ofNat value.length⟩
  let buf := splice buf off hdr.asBytes
  let vstart := off + tvlvHdrLen
  (splice buf vstart value, vstart + value.length)

namespace OgmAuth

variable {c : AuthCapacities}

/-- The loop over the revocations: which it attaches, the buffer, the offset behind the last
record and the length of the tail. -/
def attachInto : List KnownRevocation → (buf : Bytes) → (attached off tvlvLen : Nat) →
    List KnownRevocation × Bytes × Nat × Nat
  | [], buf, _, off, tvlvLen => ([], buf, off, tvlvLen)
  | kr :: rest, buf, attached, off, tvlvLen =>
    let revokeRecord := tvlvHdrLen + RevocationRecord.size
    if maxRevokePerOgm ≤ attached then ([], buf, off, tvlvLen)
    else if kr.floodsLeft = 0 then attachInto rest buf attached off tvlvLen
    else if buf.length < off + revokeRecord then ([], buf, off, tvlvLen)
    else if 2 ^ 16 ≤ tvlvLen + revokeRecord then ([], buf, off, tvlvLen)
    else
      let (buf, off) := writeTvlv buf off .revoke kr.record.asBytes
      let (sent, buf, off, tvlvLen) :=
        attachInto rest buf (attached + 1) off (tvlvLen + revokeRecord)
      (kr :: sent, buf, off, tvlvLen)

/-- `augment_ogm` on the buffer: the OGM lies in its first `len` bytes. -/
def augmentOgmInto (k : Crypto) (s : OgmAuth c) (buf : Bytes) (len : Nat) (lazy : Bool) :
    OgmAuth c × Bytes × Option Nat :=
  if len < BatmanOgmPacket.size then (s, buf, none)
  else
    match BatmanOgmPacket.readFromPrefix buf with
    | none => (s, buf, none)
    | some (ogm, _) =>
      let certBytes := s.cert.asBytes
      let (certRecordType, certRecordValue) :=
        if lazy then (TvlvType.certFp, (s.cert.fingerprint k).toList) else (.cert, certBytes)
      match signedMessage ogm.orig ogm.seqno certBytes with
      | none => (s, buf, none)
      | some signed =>
        let signature := k.sign s.keypair signed
        let added := (tvlvHdrLen + certRecordValue.length) + (tvlvHdrLen + sigLen)
        let newLen := len + added
        if buf.length < newLen then (s, buf, none)
        else if 2 ^ 16 ≤ ogm.tvlvLen.get + added then (s, buf, none)
        else
          let tvlvLen := ogm.tvlvLen.get + added
          let (buf, off) := writeTvlv buf len certRecordType certRecordValue
          let (buf, off) := writeTvlv buf off .ogmSig signature.toList
          let (sent, buf, off, tvlvLen) := attachInto s.revocations.toList buf 0 off tvlvLen
          (s.spendFloods sent, splice buf tvlvLenOff (Be16.ofNat tvlvLen).asBytes, some off)

/-! ### What the writer leaves -/

section Writer
variable {k : Crypto} {s : OgmAuth c} {written rest : Bytes}

theorem writeTvlv_append (written rest : Bytes) (ty : TvlvType) (value : Bytes) :
    writeTvlv (written ++ rest) written.length ty value =
      (written ++ tvlvRecordBytes ty value ++ rest.drop (tvlvRecordBytes ty value).length,
        (written ++ tvlvRecordBytes ty value).length) := by
  have hhdr : (BatmanTvlvHdr.asBytes ⟨ty.asU8, 1, Be16.ofNat value.length⟩).length = tvlvHdrLen :=
    rfl
  unfold writeTvlv tvlvRecordBytes
  dsimp only
  generalize BatmanTvlvHdr.asBytes ⟨ty.asU8, 1, Be16.ofNat value.length⟩ = hdr at hhdr ⊢
  rw [splice_append, ← hhdr, ← List.length_append, splice_append, List.drop_drop,
    ← List.append_assoc written]
  simp only [List.length_append]

theorem revokeRecord_length (kr : KnownRevocation) :
    (tvlvRecordBytes .revoke kr.record.asBytes).length = tvlvHdrLen + RevocationRecord.size := by
  rw [tvlvRecordBytes_length]
  simp [RevocationRecord.asBytes, RevocationRecord.signedBody, Be32.asBytes, Mac.asBytes,
    Octets.length_eq, RevocationRecord.size]

theorem attachInto_append (rows : List KnownRevocation) (attached tvlvLen : Nat)
    (written rest : Bytes) :
    let sent := attachRevocations (written ++ rest).length rows attached written.length tvlvLen
    let records := sent.flatMap fun kr => tvlvRecordBytes .revoke kr.record.asBytes
    attachInto rows (written ++ rest) attached written.length tvlvLen =
      (sent, written ++ records ++ rest.drop records.length, (written ++ records).length,
        tvlvLen + records.length) := by
  induction rows generalizing attached tvlvLen written rest with
  | nil => simp [attachInto, attachRevocations]
  | cons kr rows ih =>
    dsimp only
    unfold attachInto attachRevocations
    dsimp only
    have hlen := revokeRecord_length kr
    split
    · simp
    split
    · exact ih attached tvlvLen written rest
    by_cases hroom : (written ++ rest).length < written.length + (tvlvHdrLen + RevocationRecord.size)
    · rw [if_pos hroom, if_pos (Or.inl hroom)]
      simp
    by_cases hfield : 2 ^ 16 ≤ tvlvLen + (tvlvHdrLen + RevocationRecord.size)
    · rw [if_neg hroom, if_pos hfield, if_pos (Or.inr hfield)]
      simp
    rw [if_neg hroom, if_neg hfield, if_neg (not_or.mpr ⟨hroom, hfield⟩), writeTvlv_append]
    dsimp only
    generalize hrecord : tvlvRecordBytes .revoke kr.record.asBytes = record at hlen ⊢
    have hsame : (written ++ record ++ rest.drop record.length).length =
        (written ++ rest).length := by
      simp only [List.length_append, List.length_drop] at hroom ⊢
      omega
    have hrest := ih (attached + 1) (tvlvLen + record.length) (written ++ record)
      (rest.drop record.length)
    dsimp only at hrest
    rw [hsame] at hrest
    have hoff : (written ++ record).length = written.length + record.length := List.length_append
    rw [← hlen, ← hoff, hrest]
    dsimp only
    rw [List.flatMap_cons, hrecord]
    simp only [List.append_assoc, List.length_append, List.drop_drop, Nat.add_assoc]

theorem splice_tvlvLen (ogm : BatmanOgmPacket) (tail : Bytes) (tvlvLen : Be16) :
    splice (ogm.asBytes ++ tail) tvlvLenOff tvlvLen.asBytes =
      { ogm with tvlvLen := tvlvLen }.asBytes ++ tail := rfl

theorem patched_in_front (ogm : BatmanOgmPacket) (tail records revokes rest : Bytes)
    (tvlvLen : Be16) :
    let out := { ogm with tvlvLen := tvlvLen }.asBytes ++ tail ++ records ++ revokes
    splice (ogm.asBytes ++ tail ++ records ++ revokes ++ rest.drop (records ++ revokes).length)
        tvlvLenOff tvlvLen.asBytes =
      out ++ (ogm.asBytes ++ tail ++ rest).drop out.length := by
  have hdrop : (ogm.asBytes ++ tail ++ rest).drop
        ((ogm.asBytes ++ tail).length + (records ++ revokes).length) =
      rest.drop (records ++ revokes).length := by
    rw [← List.drop_drop, List.drop_left]
  have hlen : ({ ogm with tvlvLen := tvlvLen }.asBytes ++ tail ++ records ++ revokes).length =
      (ogm.asBytes ++ tail).length + (records ++ revokes).length := by
    simp only [List.length_append, BatmanOgmPacket.asBytes_length, Nat.add_assoc]
  dsimp only
  rw [hlen, hdrop]
  simp only [List.append_assoc]
  rw [splice_tvlvLen]

theorem write_envelope (base rest : Bytes) (ty : TvlvType) (value signature : Bytes)
    (rows : List KnownRevocation) (tvlvLen : Nat)
    (hroom : base.length + ((tvlvRecordBytes ty value).length +
      (tvlvRecordBytes .ogmSig signature).length) ≤ (base ++ rest).length) :
    let first := writeTvlv (base ++ rest) base.length ty value
    let second := writeTvlv first.1 first.2 .ogmSig signature
    let records := tvlvRecordBytes ty value ++ tvlvRecordBytes .ogmSig signature
    let sent := attachRevocations (base ++ rest).length rows 0 (base.length + records.length) tvlvLen
    let revokes := sent.flatMap fun kr => tvlvRecordBytes .revoke kr.record.asBytes
    attachInto rows second.1 0 second.2 tvlvLen =
      (sent, base ++ records ++ revokes ++ rest.drop (records ++ revokes).length,
        (base ++ records ++ revokes).length, tvlvLen + revokes.length) := by
  dsimp only
  rw [writeTvlv_append]
  dsimp only
  rw [writeTvlv_append]
  dsimp only
  generalize tvlvRecordBytes ty value = certRecord at hroom ⊢
  generalize tvlvRecordBytes .ogmSig signature = sigRecord at hroom ⊢
  have hloop := attachInto_append rows 0 tvlvLen (base ++ certRecord ++ sigRecord)
    ((rest.drop certRecord.length).drop sigRecord.length)
  have hsame : (base ++ certRecord ++ sigRecord ++
      (rest.drop certRecord.length).drop sigRecord.length).length = (base ++ rest).length := by
    simp only [List.length_append, List.length_drop] at hroom ⊢
    omega
  dsimp only at hloop
  rw [hsame] at hloop
  rw [hloop]
  simp only [List.append_assoc, List.length_append, List.drop_drop, Nat.add_assoc]

theorem exists_ogm {payload : Bytes} (h : BatmanOgmPacket.size ≤ payload.length) :
    ∃ ogm rest, payload = BatmanOgmPacket.asBytes ogm ++ rest := by
  match payload, h with
  | [_, _, _, _, _, _, _, _, _, _, _, _, _, _, _, _], h => exact absurd h (by simp [BatmanOgmPacket.size])
  | [_, _, _, _, _, _, _, _, _, _, _, _, _, _, _, _, _], h => exact absurd h (by simp [BatmanOgmPacket.size])
  | pt :: v :: ttl :: fl :: s0 :: s1 :: s2 :: s3 :: o0 :: o1 :: o2 :: o3 :: o4 :: o5 ::
      res :: tq :: l0 :: l1 :: rest, _ =>
    exact ⟨⟨pt, v, ttl, fl, ⟨s0, s1, s2, s3⟩, ⟨o0, o1, o2, o3, o4, o5⟩, res, tq, ⟨l0, l1⟩⟩, rest,
      rfl⟩

theorem readFromPrefix_short {payload : Bytes} (h : payload.length < BatmanOgmPacket.size) :
    BatmanOgmPacket.readFromPrefix payload = none := by
  cases hread : BatmanOgmPacket.readFromPrefix payload with
  | none => rfl
  | some header =>
    obtain ⟨ogm, rest⟩ := header
    have hbytes := BatmanOgmPacket.asBytes_of_readFromPrefix hread
    rw [hbytes, List.length_append, BatmanOgmPacket.asBytes_length] at h
    exact absurd h (Nat.not_lt.mpr (Nat.le_add_right _ _))

theorem certRecord_eq (k : Crypto) (s : OgmAuth c) (lazy : Bool) :
    s.certRecord k lazy = tvlvRecordBytes
      (if lazy then (TvlvType.certFp, (s.cert.fingerprint k).toList) else (.cert, s.cert.asBytes)).1
      (if lazy then (TvlvType.certFp, (s.cert.fingerprint k).toList) else (.cert, s.cert.asBytes)).2 := by
  cases lazy with
  | false => rfl
  | true => rfl

/-- The writer on the buffer and the plain description agree: a refused OGM leaves the buffer
as it was, a signed one lies in front of what the buffer held behind it. -/
theorem augmentOgmInto_eq (k : Crypto) (s : OgmAuth c) (buf : Bytes) (len : Nat) (lazy : Bool)
    (hlen : len ≤ buf.length) :
    s.augmentOgmInto k buf len lazy =
      match s.augmentOgmWithCertRecord k (buf.take len) buf.length lazy with
      | (s', none) => (s', buf, none)
      | (s', some out) => (s', out ++ buf.drop out.length, some out.length) := by
  have hcert := certRecord_eq k s lazy
  unfold augmentOgmInto
  by_cases hshort : len < BatmanOgmPacket.size
  · have hnone : BatmanOgmPacket.readFromPrefix (buf.take len) = none := by
      apply readFromPrefix_short
      exact Nat.lt_of_le_of_lt (List.length_take_le len buf) hshort
    rw [if_pos hshort]
    unfold augmentOgmWithCertRecord
    rw [hnone]
  · obtain ⟨ogm, rest, rfl⟩ := exists_ogm (Nat.le_trans (Nat.not_lt.mp hshort) hlen)
    obtain ⟨tail, rest', rfl, rfl⟩ :
        ∃ tail rest', rest = tail ++ rest' ∧ len = (ogm.asBytes ++ tail).length := by
      refine ⟨rest.take (len - BatmanOgmPacket.size), rest.drop (len - BatmanOgmPacket.size),
        (List.take_append_drop _ _).symm, ?_⟩
      rw [List.length_append, ogm.asBytes_length] at hlen ⊢
      rw [List.length_take]
      omega
    rw [if_neg hshort, BatmanOgmPacket.readFromPrefix_asBytes, ← List.append_assoc, List.take_left]
    unfold augmentOgmWithCertRecord
    rw [BatmanOgmPacket.readFromPrefix_asBytes]
    dsimp only
    cases signedMessage ogm.orig ogm.seqno s.cert.asBytes with
    | none => rfl
    | some signed =>
      dsimp only
      rw [hcert]
      generalize (if lazy then (TvlvType.certFp, (s.cert.fingerprint k).toList)
        else (TvlvType.cert, s.cert.asBytes)) = record
      obtain ⟨ty, value⟩ := record
      dsimp only
      have hsig : (k.sign s.keypair signed).toList.length = sigLen := Octets.length_eq _
      generalize (k.sign s.keypair signed).toList = signature at hsig ⊢
      have hadded : (tvlvHdrLen + value.length) + (tvlvHdrLen + sigLen) =
          (tvlvRecordBytes ty value ++ tvlvRecordBytes .ogmSig signature).length := by
        rw [List.length_append, tvlvRecordBytes_length, tvlvRecordBytes_length, hsig]
      rw [hadded]
      by_cases hroom : (ogm.asBytes ++ tail ++ rest').length < (ogm.asBytes ++ tail).length +
          (tvlvRecordBytes ty value ++ tvlvRecordBytes .ogmSig signature).length
      · rw [if_pos hroom, if_pos (Or.inl hroom)]
      rw [if_neg hroom]
      split
      · rename_i hfield
        rw [if_pos (Or.inr hfield)]
      rename_i hfield
      rw [if_neg (not_or.mpr ⟨hroom, hfield⟩)]
      have hwrite := write_envelope (ogm.asBytes ++ tail) rest' ty value signature
        s.revocations.toList (ogm.tvlvLen.get +
          (tvlvRecordBytes ty value ++ tvlvRecordBytes .ogmSig signature).length)
        (by rw [← List.length_append]; exact Nat.not_lt.mp hroom)
      dsimp only at hwrite ⊢
      rw [hwrite]
      dsimp only
      generalize attachRevocations _ _ _ _ _ = sent
      generalize (sent.flatMap fun kr => tvlvRecordBytes .revoke kr.record.asBytes) = revokes
      generalize tvlvRecordBytes ty value ++ tvlvRecordBytes .ogmSig signature = records
      rw [patched_in_front]
      simp only [List.length_append, BatmanOgmPacket.asBytes_length]

end Writer

end OgmAuth

/-! ### What a scan finds -/

def envelopeRecord (ty : TvlvType) (value : Bytes) (h : value.length < 2 ^ 16) : TvlvRecord where
  hdr := ⟨ty.asU8, 1, Be16.ofNat value.length⟩
  value := value
  len_eq := Be16.get_ofNat h

theorem RevocationRecord.asBytes_length (r : RevocationRecord) : r.asBytes.length = size := by
  simp [asBytes, signedBody, Be32.asBytes, Mac.asBytes, Octets.length_eq, size]

namespace OgmAuth

variable {c : AuthCapacities}

def certTvlv (k : Crypto) (s : OgmAuth c) (lazy : Bool) : TvlvRecord :=
  if lazy then envelopeRecord .certFp (s.cert.fingerprint k).toList
    (by rw [Octets.length_eq]; decide)
  else envelopeRecord .cert s.cert.asBytes (by rw [MembershipCert.asBytes_length]; decide)

def sigTvlv (signature : Octets 64) : TvlvRecord :=
  envelopeRecord .ogmSig signature.toList (by rw [Octets.length_eq]; decide)

def revokeTvlv (record : RevocationRecord) : TvlvRecord :=
  envelopeRecord .revoke record.asBytes (by rw [RevocationRecord.asBytes_length]; decide)

def envelope (k : Crypto) (s : OgmAuth c) (lazy : Bool) (signature : Octets 64)
    (revocations : List RevocationRecord) : List TvlvRecord :=
  s.certTvlv k lazy :: sigTvlv signature :: revocations.map revokeTvlv

/-- The tail the engine built carries no record a peer looks for in the envelope. -/
def Plain (lazy : Bool) (rs : List TvlvRecord) : Prop :=
  ∀ r ∈ rs, r.hdr.tvlvType ≠ TvlvType.ogmSig.asU8 ∧ r.hdr.tvlvType ≠ TvlvType.cert.asU8 ∧
    r.hdr.tvlvType ≠ TvlvType.revoke.asU8 ∧
    (lazy = true → r.hdr.tvlvType ≠ TvlvType.certFp.asU8)

section Reader
variable {k : Crypto} {s : OgmAuth c} {rs : List TvlvRecord} {lazy : Bool}
  {signature : Octets 64} {revocations : List RevocationRecord}

theorem tvlvRecords_tvlvBytes (rs : List TvlvRecord) : tvlvRecords (tvlvBytes rs) = rs :=
  congrArg Prod.fst (tvlvScan_tvlvBytes rs)

/-- A type the engine's records do not have is found in the envelope, if anywhere. -/
theorem findTvlv_behind {ty : TvlvType} (hrs : ∀ r ∈ rs, r.hdr.tvlvType ≠ ty.asU8)
    (added : List TvlvRecord) :
    findTvlv (tvlvBytes (rs ++ added)) ty =
      (added.find? fun r => r.hdr.tvlvType = ty.asU8).map TvlvRecord.value := by
  have hnone : rs.find? (fun r => r.hdr.tvlvType = ty.asU8) = none := by
    apply List.find?_eq_none.mpr
    intro r hr
    simpa using hrs r hr
  rw [findTvlv, tvlvRecords_tvlvBytes, List.find?_append, hnone, Option.none_or]

theorem findTvlv_ogmSig (hplain : Plain lazy rs) :
    findTvlv (tvlvBytes (rs ++ s.envelope k lazy signature revocations)) .ogmSig =
      some signature.toList := by
  rw [findTvlv_behind fun r hr => (hplain r hr).1]
  cases lazy with
  | false => rfl
  | true => rfl

theorem find?_revokes (revocations : List RevocationRecord) {ty : TvlvType}
    (hty : ty ≠ .revoke) :
    (revocations.map revokeTvlv).find? (fun r => r.hdr.tvlvType = ty.asU8) = none := by
  apply List.find?_eq_none.mpr
  intro r hr
  obtain ⟨record, _, rfl⟩ := List.mem_map.mp hr
  intro heq
  have hbyte : TvlvType.revoke.asU8 = ty.asU8 := of_decide_eq_true heq
  exact hty (TvlvType.asU8_injective hbyte).symm

theorem iterTvlv_revoke (hplain : Plain lazy rs) :
    iterTvlv (tvlvBytes (rs ++ s.envelope k lazy signature revocations)) .revoke =
      revocations.map RevocationRecord.asBytes := by
  have hrs : rs.filter (fun r => r.hdr.tvlvType = TvlvType.revoke.asU8) = [] := by
    apply List.filter_eq_nil_iff.mpr
    intro r hr
    simpa using (hplain r hr).2.2.1
  have hrevokes : (revocations.map revokeTvlv).filter
      (fun r => r.hdr.tvlvType = TvlvType.revoke.asU8) = revocations.map revokeTvlv := by
    apply List.filter_eq_self.mpr
    intro r hr
    obtain ⟨record, _, rfl⟩ := List.mem_map.mp hr
    exact decide_eq_true rfl
  have hcert : (s.certTvlv k lazy).hdr.tvlvType ≠ TvlvType.revoke.asU8 := by
    cases lazy with
    | false => exact (by decide : TvlvType.cert.asU8 ≠ TvlvType.revoke.asU8)
    | true => exact (by decide : TvlvType.certFp.asU8 ≠ TvlvType.revoke.asU8)
  have hsig : (sigTvlv signature).hdr.tvlvType ≠ TvlvType.revoke.asU8 :=
    (by decide : TvlvType.ogmSig.asU8 ≠ TvlvType.revoke.asU8)
  rw [iterTvlv, tvlvRecords_tvlvBytes, List.filter_append, hrs, List.nil_append, envelope,
    List.filter_cons_of_neg (by simpa using hcert), List.filter_cons_of_neg (by simpa using hsig),
    hrevokes, List.map_map]
  rfl

theorem tailRecords_envelope (hplain : Plain lazy rs) :
    tailRecords (tvlvBytes (rs ++ s.envelope k lazy signature revocations)) = revocations := by
  rw [tailRecords, iterTvlv_revoke hplain]
  induction revocations with
  | nil => rfl
  | cons record rest ih =>
    have hread : RevocationRecord.readFromPrefix record.asBytes = some (record, []) := by
      have h := RevocationRecord.readFromPrefix_asBytes record []
      rwa [List.append_nil] at h
    rw [List.map_cons, List.filterMap_cons_some (by rw [hread]; rfl), ih]

theorem certBytesFor_envelope {d : AuthCapacities} {peer : OgmAuth d} (hplain : Plain lazy rs)
    (hcached : lazy = true →
      peer.neighborCert k s.cert.nodeMac = some (s.cert, s.cert.fingerprint k)) :
    peer.certBytesFor k s.cert.nodeMac
        (tvlvBytes (rs ++ s.envelope k lazy signature revocations)) = .ok s.cert.asBytes := by
  have hcert := findTvlv_behind (fun r hr => (hplain r hr).2.1)
    (s.envelope k lazy signature revocations)
  unfold certBytesFor
  cases lazy with
  | false =>
    have hfound : findTvlv (tvlvBytes (rs ++ s.envelope k false signature revocations)) .cert =
        some s.cert.asBytes := hcert
    rw [hfound]
  | true =>
    have hmissing : findTvlv (tvlvBytes (rs ++ s.envelope k true signature revocations)) .cert =
        none := by
      rw [hcert]
      have hne : TvlvType.cert ≠ .revoke := by decide
      have hrevokes := find?_revokes revocations hne
      exact congrArg (Option.map TvlvRecord.value) hrevokes
    have hfp : findTvlv (tvlvBytes (rs ++ s.envelope k true signature revocations)) .certFp =
        some (s.cert.fingerprint k).toList :=
      findTvlv_behind (fun r hr => (hplain r hr).2.2.2 rfl) _
    rw [hmissing, hfp]
    dsimp only
    rw [Octets.tryFrom_toList, hcached rfl]
    dsimp only
    rw [if_pos rfl]

end Reader

/-! ### The signed OGM -/

section Signed
variable {k : Crypto} {s : OgmAuth c} {rs : List TvlvRecord} {lazy : Bool}

/-- The tail never outgrows the field of the header that states its length. -/
theorem attachRevocations_fits (bufLen attached off : Nat) {tvlvLen : Nat}
    (rows : List KnownRevocation) (h : tvlvLen < 2 ^ 16) :
    tvlvLen + ((attachRevocations bufLen rows attached off tvlvLen).flatMap fun kr =>
      tvlvRecordBytes .revoke kr.record.asBytes).length < 2 ^ 16 := by
  induction rows generalizing attached off tvlvLen with
  | nil => exact h
  | cons kr rows ih =>
    unfold attachRevocations
    dsimp only
    split
    · exact h
    split
    · exact ih attached off h
    split
    · exact h
    rename_i hroom
    have hnext := ih (attached + 1) (off + (tvlvHdrLen + RevocationRecord.size))
      (Nat.not_le.mp (not_or.mp hroom).2)
    rw [List.flatMap_cons, List.length_append, revokeRecord_length, ← Nat.add_assoc]
    exact hnext

theorem tvlvBytes_envelope (signature : Octets 64) (sent : List KnownRevocation) :
    tvlvBytes (s.envelope k lazy signature (sent.map KnownRevocation.record)) =
      (s.certRecord k lazy ++ tvlvRecordBytes .ogmSig signature.toList) ++
        sent.flatMap fun kr => tvlvRecordBytes .revoke kr.record.asBytes := by
  have hcert : (s.certTvlv k lazy).asBytes = s.certRecord k lazy := by
    cases lazy with
    | false => rfl
    | true => rfl
  have hrevokes : tvlvBytes ((sent.map KnownRevocation.record).map revokeTvlv) =
      sent.flatMap fun kr => tvlvRecordBytes .revoke kr.record.asBytes := by
    rw [tvlvBytes, List.map_map, List.flatMap_map]
    rfl
  rw [envelope, tvlvBytes_cons, tvlvBytes_cons, hcert, hrevokes, List.append_assoc]
  rfl

/-- A signed OGM is the engine's, its tail the engine's records and the envelope, all stated
by the header. -/
theorem augmentOgm_signed {base : Bytes} {bufLen : Nat} {s' : OgmAuth c} {out : Bytes}
    {ogm : BatmanOgmPacket} (hbase : base = ogm.asBytes ++ tvlvBytes rs)
    (htvlv : ogm.tvlvLen.get = (tvlvBytes rs).length)
    (h : s.augmentOgmWithCertRecord k base bufLen lazy = (s', some out)) :
    ∃ signed sent tvlvLen, signedMessage ogm.orig ogm.seqno s.cert.asBytes = some signed ∧
      s' = s.spendFloods sent ∧
      let records := rs ++ s.envelope k lazy (k.sign s.keypair signed)
        (sent.map KnownRevocation.record)
      out = { ogm with tvlvLen := tvlvLen }.asBytes ++ tvlvBytes records ∧
        tvlvLen.get = (tvlvBytes records).length := by
  unfold augmentOgmWithCertRecord at h
  rw [hbase, BatmanOgmPacket.readFromPrefix_asBytes] at h
  dsimp only at h
  split at h
  · cases h
  rename_i signed hsigned
  split at h
  · cases h
  rename_i hroom
  have hfits := attachRevocations_fits bufLen 0 ((ogm.asBytes ++ tvlvBytes rs).length +
    (s.certRecord k lazy ++ tvlvRecordBytes .ogmSig (k.sign s.keypair signed).toList).length)
    s.revocations.toList (Nat.not_le.mp (not_or.mp hroom).2)
  obtain ⟨rfl, hout⟩ := Prod.mk.inj h
  obtain rfl := Option.some.inj hout
  generalize attachRevocations _ _ _ _ _ = sent at hfits ⊢
  refine ⟨signed, sent, .ofNat (ogm.tvlvLen.get +
    (s.certRecord k lazy ++ tvlvRecordBytes .ogmSig (k.sign s.keypair signed).toList).length +
    (sent.flatMap fun kr => tvlvRecordBytes .revoke kr.record.asBytes).length), hsigned, rfl, ?_, ?_⟩
  · rw [tvlvBytes_append, tvlvBytes_envelope]
    simp only [List.append_assoc]
  · rw [Be16.get_ofNat hfits, tvlvBytes_append, tvlvBytes_envelope, htvlv]
    simp only [List.length_append, Nat.add_assoc]

/-- The node runs under a certificate of its anchor, for the keys it holds. -/
structure Enrolled (k : Crypto) (s : OgmAuth c) : Prop where
  issued : s.anchor.Issued k s.cert
  edPubkey : s.cert.edPubkey = k.edPubkey s.keypair
  xPubkey : s.cert.xPubkey = k.xPubkey s.keypair

/-- A node of the same mesh that can judge the signer's OGM: in whatever state a run leaves
it, its clock does not place it outside the certificate's window, it holds no revocation in
force for the certificate, and it can resolve the fingerprint if that is all it gets. -/
structure Hears (k : Crypto) (s : OgmAuth c) (lazy : Bool) {d : AuthCapacities}
    (peer : OgmAuth d) : Prop where
  reached : ∃ keypair cert anchor ops, peer = (withCapacities d keypair cert anchor).play k ops
  anchor : peer.anchor = s.anchor
  window : s.cert.InWindow peer.wall
  unrevoked : peer.isRevoked s.cert.facts = false
  cached : lazy = true → peer.neighborCert k s.cert.nodeMac = some (s.cert, s.cert.fingerprint k)

theorem Enrolled.contributory (h : Enrolled k s) : Contributory k s.cert.xPubkey := by
  refine ⟨s.keypair, k.blake2s256 (pairwiseLabel ++
    (k.diffieHellman s.keypair (k.xPubkey s.keypair)).toList), ?_⟩
  rw [h.xPubkey, Crypto.pairwiseKey, if_neg (k.own_key s.keypair)]

theorem play_cacheSound {d : AuthCapacities} (keypair : Keypair) (cert : MembershipCert)
    (anchor : TrustAnchor) (ops : List StateOp) :
    ((withCapacities d keypair cert anchor).play k ops).CacheSound k :=
  Run.invariant (withCapacities_sound k keypair cert anchor) fun _ op hs => after_cacheSound hs op

theorem verifyOgm_envelope {d : AuthCapacities} {peer : OgmAuth d}
    (hsign : ∀ keypair msg, k.verifySignature (k.edPubkey keypair) msg (k.sign keypair msg) = true)
    (henrolled : Enrolled k s) (hpeer : Hears k s lazy peer) (hplain : Plain lazy rs)
    (ogm : BatmanOgmPacket) (hown : ogm.orig = s.cert.nodeMac) {signed : Bytes}
    (hsigned : signedMessage ogm.orig ogm.seqno s.cert.asBytes = some signed)
    (revocations : List RevocationRecord) :
    let payload := ogm.asBytes ++
      tvlvBytes (rs ++ s.envelope k lazy (k.sign s.keypair signed) revocations)
    (peer.verifyOgm k payload).2 = .verified ∧
      ∃ s₁ keys, Kept peer s₁ ∧ keys.mac = s.cert.nodeMac ∧
        (peer.verifyOgm k payload).1 = (s₁.cacheNeighbor keys).1.ingestAll k revocations := by
  intro payload
  have hsound : peer.CacheSound k := by
    obtain ⟨keypair, cert, anchor, ops, rfl⟩ := hpeer.reached
    exact play_cacheSound keypair cert anchor ops
  have hheader := BatmanOgmPacket.readFromPrefix_asBytes ogm
    (tvlvBytes (rs ++ s.envelope k lazy (k.sign s.keypair signed) revocations))
  have hparse : Parses k peer payload ogm
      (tvlvBytes (rs ++ s.envelope k lazy (k.sign s.keypair signed) revocations)) s.cert.asBytes
      s.cert (k.sign s.keypair signed) := by
    refine ⟨hheader, ?_, ?_, [], ?_⟩
    · rw [findTvlv_ogmSig hplain]
      exact Octets.tryFrom_toList _
    · rw [hown]
      exact certBytesFor_envelope hplain hpeer.cached
    · have hread := MembershipCert.readFromPrefix_asBytes s.cert []
      rwa [List.append_nil] at hread
  have hauth : Authentic k peer ogm s.cert.asBytes s.cert (k.sign s.keypair signed) := by
    refine ⟨?_, hpeer.window, henrolled.contributory, hown.symm, hpeer.unrevoked, Or.inr ?_⟩
    · rw [hpeer.anchor]
      exact henrolled.issued
    · refine ⟨signed, hsigned, ?_⟩
      rw [henrolled.edPubkey]
      exact hsign s.keypair signed
  have hverdict : (peer.verifyOgm k payload).2 = .verified :=
    (verifyOgm_verified_iff hsound).mpr ⟨ogm, _, _, _, _, hparse, hauth⟩
  refine ⟨hverdict, ?_⟩
  rcases verifyOgm_cases k peer payload with
    ⟨hnot, _⟩ | ⟨_, ogm', tail, s₁, keys, hread, hkept, hmac, heq⟩
  · exact absurd hverdict hnot
  · obtain ⟨rfl, rfl⟩ := Prod.mk.inj (Option.some.inj (hheader.symm.trans hread))
    rw [tailRecords_envelope hplain] at heq
    exact ⟨s₁, keys, hkept, hmac.trans hown, heq⟩

/-- An OGM a node signs is one its peers accept: refused, it leaves buffer and state as they
were; else its header states its tail, the tail is the engine's records and the envelope,
each flood is spent on a record attached, and every peer that can judge it accepts it and
takes in the records attached. -/
theorem signed_ogm_accepted (k : Crypto)
    (hsign : ∀ keypair msg, k.verifySignature (k.edPubkey keypair) msg (k.sign keypair msg) = true)
    (s : OgmAuth c) (henrolled : Enrolled k s) (buf : Bytes) (len : Nat) (lazy : Bool)
    (hlen : len ≤ buf.length) (ogm : BatmanOgmPacket) (rs : List TvlvRecord)
    (hbase : buf.take len = ogm.asBytes ++ tvlvBytes rs)
    (htvlv : ogm.tvlvLen.get = (tvlvBytes rs).length) (hown : ogm.orig = s.cert.nodeMac)
    (hplain : Plain lazy rs) :
    s.augmentOgmInto k buf len lazy = (s, buf, none) ∨
      ∃ n signed sent tvlvLen out, s.augmentOgmInto k buf len lazy =
          (s.spendFloods sent, out ++ buf.drop n, some n) ∧
        let records := rs ++ s.envelope k lazy (k.sign s.keypair signed)
          (sent.map KnownRevocation.record)
        out = { ogm with tvlvLen := tvlvLen }.asBytes ++ tvlvBytes records ∧ out.length = n ∧
          tvlvLen.get = n - BatmanOgmPacket.size ∧
          tvlvScan (out.drop BatmanOgmPacket.size) = (records, false) ∧
          ∀ (d : AuthCapacities) (peer : OgmAuth d), Hears k s lazy peer →
            (peer.verifyOgm k out).2 = .verified ∧
              ∃ s₁ keys, Kept peer s₁ ∧ keys.mac = s.cert.nodeMac ∧
                (peer.verifyOgm k out).1 =
                  (s₁.cacheNeighbor keys).1.ingestAll k (sent.map KnownRevocation.record) := by
  rw [augmentOgmInto_eq k s buf len lazy hlen]
  cases haugment : s.augmentOgmWithCertRecord k (buf.take len) buf.length lazy with
  | mk s' answer =>
    cases answer with
    | none =>
      left
      rcases augmentOgm_attached k s (buf.take len) buf.length lazy with ⟨heq, _⟩ | ⟨_, heq⟩
      · obtain ⟨rfl, _⟩ := Prod.mk.inj (haugment.symm.trans heq)
        rfl
      · cases (Prod.mk.inj (haugment.symm.trans heq)).2
    | some out =>
      right
      obtain ⟨signed, sent, tvlvLen, hsigned, rfl, rfl, hget⟩ :=
        augmentOgm_signed hbase htvlv haugment
      refine ⟨_, signed, sent, tvlvLen, _, rfl, rfl, rfl, ?_, ?_, ?_⟩
      · rw [hget, List.length_append, BatmanOgmPacket.asBytes_length, Nat.add_sub_cancel_left]
      · exact tvlvScan_tvlvBytes _
      · intro d peer hpeer
        exact verifyOgm_envelope hsign henrolled hpeer hplain { ogm with tvlvLen := tvlvLen } hown
          hsigned _

end Signed

end OgmAuth

namespace SmallMesh
open OgmAuth

/-- The primitives where signing is real: node 2's key signs its OGM of sequence number 7 as
the other nodes check it, and any other message under a member's key by an empty signature. -/
def signingCrypto : Crypto :=
  { crypto with
    verifySignature := fun pubkey msg signature =>
      if pubkey = cert2.edPubkey ∧ msg = ogmMessage then signature = ogmSignature
      else crypto.verifySignature pubkey msg signature ||
        (pubkey ≠ SmallMesh.anchor.rootPubkey ∧ signature = Octets.zero 64)
    sign := fun keypair msg =>
      if crypto.edPubkey keypair = cert2.edPubkey ∧ msg = ogmMessage then ogmSignature
      else Octets.zero 64 }

theorem edPubkey_ne_root (keypair : Keypair) :
    crypto.edPubkey keypair ≠ SmallMesh.anchor.rootPubkey := by
  unfold crypto
  dsimp only
  split
  · decide
  split
  · decide
  · decide

theorem signingCrypto_signs (keypair : Keypair) (msg : Bytes) :
    signingCrypto.verifySignature (signingCrypto.edPubkey keypair) msg
      (signingCrypto.sign keypair msg) = true := by
  by_cases h : crypto.edPubkey keypair = cert2.edPubkey ∧ msg = ogmMessage
  · have hsign : signingCrypto.sign keypair msg = ogmSignature := if_pos h
    rw [hsign]
    exact (if_pos h).trans (decide_eq_true rfl)
  · have hsign : signingCrypto.sign keypair msg = Octets.zero 64 := if_neg h
    rw [hsign]
    refine (if_neg h).trans ?_
    rw [Bool.or_eq_true]
    exact Or.inr (decide_eq_true ⟨edPubkey_ne_root keypair, rfl⟩)

def signer2 : OgmAuth capacities :=
  (OgmAuth.withCapacities capacities (SmallMesh.keypair 2) cert2 SmallMesh.anchor).setTime
    (Duration.ofSecs 500) (.at 500)

def ogmOf2 (rs : List TvlvRecord) : BatmanOgmPacket where
  packetType := BatmanPacketType.ogm.asU8
  version := 5
  ttl := 50
  flags := 0
  seqno := ⟨0, 0, 0, 7⟩
  orig := mac2
  reserved := 0
  tq := 255
  tvlvLen := .ofNat (tvlvBytes rs).length

def bufferOf2 (rs : List TvlvRecord) : Bytes :=
  (ogmOf2 rs).asBytes ++ tvlvBytes rs ++ List.replicate 512 0

theorem signer2_enrolled : Enrolled signingCrypto signer2 :=
  ⟨⟨by decide +kernel, by decide +kernel, by decide +kernel, by decide +kernel,
    by decide +kernel⟩, by decide +kernel, by decide +kernel⟩

def listener3 : OgmAuth capacities :=
  (OgmAuth.withCapacities capacities (SmallMesh.keypair 3) cert3 SmallMesh.anchor).play
    signingCrypto [.auth (.setTime (Duration.ofSecs 500) (.at 500))]

theorem listener3_hears : Hears signingCrypto signer2 false listener3 :=
  ⟨⟨_, _, _, _, rfl⟩, by decide +kernel, ⟨by decide +kernel, by decide +kernel⟩,
    by decide +kernel, fun h => (nomatch h)⟩

def listenerRecord : TvlvRecord := envelopeRecord .mcast mac2.asBytes (by decide)

def strayRecord : TvlvRecord := sigTvlv (Octets.zero 64)

/-- The node signs behind a signature that is there already, and its peer rejects the OGM:
a scan finds the first one. -/
theorem signed_behind_stray_rejected :
    Enrolled signingCrypto signer2 ∧ Hears signingCrypto signer2 false listener3 ∧
      (ogmOf2 [strayRecord]).tvlvLen.get = (tvlvBytes [strayRecord]).length ∧
      ∃ n, (signer2.augmentOgmInto signingCrypto (bufferOf2 [strayRecord])
          (BatmanOgmPacket.size + 68) false).2.2 = some n ∧
        (listener3.verifyOgm signingCrypto ((signer2.augmentOgmInto signingCrypto
          (bufferOf2 [strayRecord]) (BatmanOgmPacket.size + 68) false).2.1.take n)).2 =
            .rejected :=
  ⟨signer2_enrolled, listener3_hears, by decide +kernel, 314, by decide +kernel,
    by decide +kernel⟩

theorem signed_ogm_accepted_listener :
    signer2.augmentOgmInto signingCrypto (bufferOf2 [listenerRecord]) (BatmanOgmPacket.size + 10)
        false = (signer2, bufferOf2 [listenerRecord], none) ∨
      ∃ n signed sent tvlvLen out,
        signer2.augmentOgmInto signingCrypto (bufferOf2 [listenerRecord])
            (BatmanOgmPacket.size + 10) false =
          (signer2.spendFloods sent, out ++ (bufferOf2 [listenerRecord]).drop n, some n) ∧
        let records := [listenerRecord] ++ signer2.envelope signingCrypto false
          (signingCrypto.sign signer2.keypair signed) (sent.map KnownRevocation.record)
        out = { ogmOf2 [listenerRecord] with tvlvLen := tvlvLen }.asBytes ++ tvlvBytes records ∧
          out.length = n ∧ tvlvLen.get = n - BatmanOgmPacket.size ∧
          tvlvScan (out.drop BatmanOgmPacket.size) = (records, false) ∧
          ∀ (d : AuthCapacities) (peer : OgmAuth d), Hears signingCrypto signer2 false peer →
            (peer.verifyOgm signingCrypto out).2 = .verified ∧
              ∃ s₁ keys, Kept peer s₁ ∧ keys.mac = signer2.cert.nodeMac ∧
                (peer.verifyOgm signingCrypto out).1 = (s₁.cacheNeighbor keys).1.ingestAll
                  signingCrypto (sent.map KnownRevocation.record) :=
  signed_ogm_accepted signingCrypto signingCrypto_signs signer2 signer2_enrolled
    (bufferOf2 [listenerRecord]) (BatmanOgmPacket.size + 10) false (by decide +kernel)
    (ogmOf2 [listenerRecord]) [listenerRecord] (by decide +kernel) (by decide +kernel)
    (by decide +kernel) (by unfold Plain; decide +kernel)

end SmallMesh

end Wayfinder
