import Wayfinder.Wire

/-!
# The TVLV region of an OGM

A region is a sequence of records, each a four-byte header and a value, followed
by fewer than four bytes that no scan reads. A record that claims more than the
region holds ends every scan. The scans of the source differ only in what they do
with a record, so the region is read once, into its records and the flag that
says whether it ended in such a record.
-/

namespace Wayfinder

set_option autoImplicit false

inductive TvlvType where
  | mcast | cert | ogmSig | revoke | certFp | prevSender
  deriving DecidableEq, Repr

def TvlvType.asU8 : TvlvType → U8
  | .mcast => 0x06
  | .cert => 0x80
  | .ogmSig => 0x81
  | .revoke => 0x82
  | .certFp => 0x83
  | .prevSender => 0x84

theorem TvlvType.asU8_injective {a b : TvlvType} (h : a.asU8 = b.asU8) : a = b := by
  cases a <;> cases b <;> first | rfl | (exact absurd h (by decide))

structure BatmanTvlvHdr where
  tvlvType : U8
  version : U8
  len : Be16
  deriving DecidableEq, Repr

def tvlvHdrLen : Nat := 4

def BatmanTvlvHdr.asBytes (h : BatmanTvlvHdr) : Bytes :=
  [h.tvlvType, h.version] ++ h.len.asBytes

/-- A record as it lies in a region: its header states its value's length. -/
structure TvlvRecord where
  hdr : BatmanTvlvHdr
  value : Bytes
  len_eq : hdr.len.get = value.length
  deriving DecidableEq

namespace TvlvRecord

def asBytes (r : TvlvRecord) : Bytes := r.hdr.asBytes ++ r.value

theorem asBytes_length (r : TvlvRecord) : r.asBytes.length = tvlvHdrLen + r.value.length := by
  simp only [asBytes, BatmanTvlvHdr.asBytes, Be16.asBytes, List.length_append, List.length_cons,
    List.length_nil, tvlvHdrLen]

end TvlvRecord

def tvlvBytes (rs : List TvlvRecord) : Bytes := rs.flatMap TvlvRecord.asBytes

/-- The records of a region, and whether it ends in one that overruns it. -/
def scanTvlv : Nat → Bytes → List TvlvRecord × Bool
  | 0, _ => ([], false)
  | fuel + 1, ty :: ver :: l0 :: l1 :: body =>
    let hdr : BatmanTvlvHdr := ⟨ty, ver, ⟨l0, l1⟩⟩
    if h : hdr.len.get ≤ body.length then
      let r := scanTvlv fuel (body.drop hdr.len.get)
      (⟨hdr, body.take hdr.len.get, by simp [Nat.min_eq_left h]⟩ :: r.1, r.2)
    else ([], true)
  | _ + 1, _ => ([], false)

/-- Every record takes four bytes at least, so the length is fuel enough. -/
def tvlvScan (tail : Bytes) : List TvlvRecord × Bool := scanTvlv tail.length tail

def tvlvRecords (tail : Bytes) : List TvlvRecord := (tvlvScan tail).1

def tvlvOverrun (tail : Bytes) : Bool := (tvlvScan tail).2

def findTvlv (tail : Bytes) (ty : TvlvType) : Option Bytes :=
  ((tvlvRecords tail).find? fun r => r.hdr.tvlvType = ty.asU8).map TvlvRecord.value

def iterTvlv (tail : Bytes) (ty : TvlvType) : List Bytes :=
  ((tvlvRecords tail).filter fun r => r.hdr.tvlvType = ty.asU8).map TvlvRecord.value

def prevSenderRecordLen : Nat := 10

def keptRecords (tail : Bytes) : List TvlvRecord :=
  (tvlvRecords tail).filter fun r => r.hdr.tvlvType ≠ TvlvType.prevSender.asU8

def stampedLen (tail : Bytes) : Option Nat :=
  if tvlvOverrun tail then none
  else some ((tvlvBytes (keptRecords tail)).length + prevSenderRecordLen)

def prevSenderRecord (prev : Mac) : TvlvRecord where
  hdr := ⟨TvlvType.prevSender.asU8, 1, Be16.ofNat 6⟩
  value := prev.asBytes
  len_eq := Be16.get_ofNat (by decide)

/-- The bytes `stamp_prev_sender` leaves in a buffer of `outLen`. -/
def stampPrevSender (tail : Bytes) (outLen : Nat) (prev : Mac) : Option Bytes :=
  if tvlvOverrun tail then none
  else
    let out := tvlvBytes (keptRecords tail ++ [prevSenderRecord prev])
    if out.length ≤ outLen then some out else none

def prevSender (tail : Bytes) : Option Mac := findTvlv tail .prevSender >>= Mac.tryFrom

section Scan

theorem tvlvBytes_cons (r : TvlvRecord) (rs : List TvlvRecord) :
    tvlvBytes (r :: rs) = r.asBytes ++ tvlvBytes rs := by
  simp [tvlvBytes]

@[simp] theorem tvlvBytes_append (rs rs' : List TvlvRecord) :
    tvlvBytes (rs ++ rs') = tvlvBytes rs ++ tvlvBytes rs' := by
  simp [tvlvBytes]

/-- More fuel than bytes changes nothing. -/
theorem scanTvlv_fuel {fuel : Nat} {tail : Bytes} (h : tail.length ≤ fuel) :
    scanTvlv fuel tail = tvlvScan tail := by
  unfold tvlvScan
  generalize hn : tail.length = n at h ⊢
  induction n using Nat.strongRecOn generalizing tail fuel with
  | ind n ih =>
    match fuel, n, tail, hn with
    | 0, 0, _, _ => rfl
    | fuel + 1, 0, [], _ => rfl
    | fuel + 1, n + 1, [_], _ => rfl
    | fuel + 1, n + 1, [_, _], _ => rfl
    | fuel + 1, n + 1, [_, _, _], _ => rfl
    | fuel + 1, n + 1, ty :: ver :: l0 :: l1 :: body, hn =>
      simp only [List.length_cons] at hn
      simp only [scanTvlv]
      split
      · have hd : (body.drop (Be16.get ⟨l0, l1⟩)).length ≤ n := by
          rw [List.length_drop]
          omega
        rw [@ih _ (Nat.lt_succ_of_le hd) fuel _ rfl (by omega),
          @ih _ (Nat.lt_succ_of_le hd) n _ rfl hd]
      · rfl

theorem tvlvScan_cons (r : TvlvRecord) (rest : Bytes) :
    tvlvScan (r.asBytes ++ rest) = (r :: (tvlvScan rest).1, (tvlvScan rest).2) := by
  obtain ⟨⟨ty, ver, ⟨l0, l1⟩⟩, value, hlen⟩ := r
  have hbytes : TvlvRecord.asBytes ⟨⟨ty, ver, ⟨l0, l1⟩⟩, value, hlen⟩ ++ rest =
      ty :: ver :: l0 :: l1 :: (value ++ rest) := rfl
  rw [hbytes, tvlvScan, List.length_cons, scanTvlv]
  dsimp only at hlen ⊢
  have hle : Be16.get ⟨l0, l1⟩ ≤ (value ++ rest).length := by
    rw [hlen, List.length_append]
    omega
  have hfuel : scanTvlv (value ++ rest).length.succ.succ.succ
      ((value ++ rest).drop (Be16.get ⟨l0, l1⟩)) = tvlvScan rest := by
    rw [hlen, List.drop_left]
    apply scanTvlv_fuel
    simp only [List.length_append]
    omega
  simp only [dif_pos hle, List.length_cons]
  rw [hfuel]
  simp [hlen]

/-- Records followed by anything: the scan reads them and goes on behind them. -/
theorem tvlvScan_append (rs : List TvlvRecord) (rest : Bytes) :
    tvlvScan (tvlvBytes rs ++ rest) = (rs ++ (tvlvScan rest).1, (tvlvScan rest).2) := by
  induction rs with
  | nil => rfl
  | cons r rs ih => rw [tvlvBytes_cons, List.append_assoc, tvlvScan_cons, ih, List.cons_append]

theorem tvlvScan_tvlvBytes (rs : List TvlvRecord) : tvlvScan (tvlvBytes rs) = (rs, false) := by
  have hnil : tvlvScan [] = ([], false) := rfl
  have h := tvlvScan_append rs []
  rw [hnil] at h
  simpa using h

/-- A region is its records followed by the bytes no scan reads. -/
theorem tvlvScan_spec (tail : Bytes) :
    ∃ rest, tail = tvlvBytes (tvlvScan tail).1 ++ rest ∧
      ((tvlvScan tail).2 = false → rest.length < tvlvHdrLen) := by
  generalize hn : tail.length = n
  induction n using Nat.strongRecOn generalizing tail with
  | ind n ih =>
    match tail, hn with
    | [], _ => exact ⟨[], rfl, fun _ => by decide⟩
    | [a], _ => exact ⟨[a], rfl, fun _ => Nat.lt_of_sub_eq_succ rfl⟩
    | [a, b], _ => exact ⟨[a, b], rfl, fun _ => Nat.lt_of_sub_eq_succ rfl⟩
    | [a, b, c], _ => exact ⟨[a, b, c], rfl, fun _ => Nat.lt_of_sub_eq_succ rfl⟩
    | ty :: ver :: l0 :: l1 :: body, hn =>
      by_cases hle : Be16.get ⟨l0, l1⟩ ≤ body.length
      · have hlen : (body.take (Be16.get ⟨l0, l1⟩)).length = Be16.get ⟨l0, l1⟩ := by
          rw [List.length_take, Nat.min_eq_left hle]
        have hsplit : ty :: ver :: l0 :: l1 :: body = TvlvRecord.asBytes
            ⟨⟨ty, ver, ⟨l0, l1⟩⟩, body.take (Be16.get ⟨l0, l1⟩), hlen.symm⟩ ++
              body.drop (Be16.get ⟨l0, l1⟩) := by
          simp [TvlvRecord.asBytes, BatmanTvlvHdr.asBytes, Be16.asBytes]
        rw [hsplit, tvlvScan_cons]
        obtain ⟨rest, hrest, hshort⟩ := ih _ (by
          rw [← hn]
          simp only [List.length_cons, List.length_drop]
          omega) (body.drop (Be16.get ⟨l0, l1⟩)) rfl
        refine ⟨rest, ?_, hshort⟩
        rw [tvlvBytes_cons, List.append_assoc, ← hrest]
      · have hscan : tvlvScan (ty :: ver :: l0 :: l1 :: body) = ([], true) := by
          simp [tvlvScan, scanTvlv, hle]
        rw [hscan]
        exact ⟨_, rfl, by simp⟩

end Scan

end Wayfinder
