import Wayfinder.Lib.Pieces
import Wayfinder.Tvlv

/-!
# The cursors over a TVLV region

Four loops walk a region, each with an offset of its own: the two that rewrite it for the
next hop, the search for a first record and the iterator over all of one type. What lies
behind the offset is a region again, and on it every loop does what the scan says.
-/

namespace Wayfinder

set_option autoImplicit false

open Pieces

def prevSenderLen : Nat := 6

/-- The header at the start of some bytes, when they hold one. -/
def BatmanTvlvHdr.refFromPrefix : Bytes → Option BatmanTvlvHdr
  | ty :: ver :: l0 :: l1 :: _ => some ⟨ty, ver, ⟨l0, l1⟩⟩
  | _ => none

namespace TvlvCursor

/-! ### The loops -/

/-- What each loop reads at its offset: a header and where its value ends, unless that is
past the region. No sum of these overflows a `usize`. -/
def recordAt (tail : Bytes) (off : Nat) : Option (BatmanTvlvHdr × Nat) := do
  let hdr ← BatmanTvlvHdr.refFromPrefix (tail.drop off)
  let valueEnd := off + tvlvHdrLen + hdr.len.get
  if tail.length < valueEnd then none else some (hdr, valueEnd)

theorem lt_of_recordAt {tail : Bytes} {off valueEnd : Nat} {hdr : BatmanTvlvHdr}
    (h : recordAt tail off = some (hdr, valueEnd)) : off < valueEnd ∧ valueEnd ≤ tail.length := by
  obtain ⟨read, _, h⟩ := Option.bind_eq_some_iff.mp h
  dsimp only at h
  split at h
  · cases h
  · rename_i hfits
    obtain ⟨rfl, rfl⟩ := Prod.mk.inj (Option.some.inj h)
    unfold tvlvHdrLen at hfits ⊢
    omega

/-- `tail[from..to]`. -/
def slice (tail : Bytes) (first last : Nat) : Bytes := (tail.take last).drop first

def stampedLenFrom (tail : Bytes) (read kept : Nat) : Option Nat :=
  if read + tvlvHdrLen ≤ tail.length then
    match _h : recordAt tail read with
    | none => none
    | some (hdr, valueEnd) =>
      stampedLenFrom tail valueEnd
        (if hdr.tvlvType ≠ TvlvType.prevSender.asU8 then kept + (valueEnd - read) else kept)
  else some (kept + prevSenderRecordLen)
termination_by tail.length - read
decreasing_by
  have := lt_of_recordAt _h
  omega

def stampedLen (tail : Bytes) : Option Nat := stampedLenFrom tail 0 0

/-- `out.get_mut(written..written + part.len())?.copy_from_slice(part)`. -/
def put (out : Bytes) (written : Nat) (part : Bytes) : Option Bytes :=
  if written + part.length ≤ out.length then some (splice out written part) else none

/-- The record of this hop, behind what was kept. -/
def putPrevSender (out : Bytes) (written : Nat) (prev : Mac) : Option (Nat × Bytes) := do
  let hdr : BatmanTvlvHdr := ⟨TvlvType.prevSender.asU8, 1, Be16.ofNat prevSenderLen⟩
  let out ← put out written hdr.asBytes
  let out ← put out (written + tvlvHdrLen) prev.asBytes
  pure (written + tvlvHdrLen + prevSenderLen, out)

def stampPrevSenderFrom (tail : Bytes) (prev : Mac) (read written : Nat) (out : Bytes) :
    Option (Nat × Bytes) :=
  if read + tvlvHdrLen ≤ tail.length then
    match _h : recordAt tail read with
    | none => none
    | some (hdr, valueEnd) =>
      if hdr.tvlvType ≠ TvlvType.prevSender.asU8 then
        let record := slice tail read valueEnd
        (put out written record).bind fun out =>
          stampPrevSenderFrom tail prev valueEnd (written + record.length) out
      else stampPrevSenderFrom tail prev valueEnd written out
  else putPrevSender out written prev
termination_by tail.length - read
decreasing_by all_goals
  have := lt_of_recordAt _h
  omega

/-- How many bytes were written, and the buffer with them. -/
def stampPrevSender (tail out : Bytes) (prev : Mac) : Option (Nat × Bytes) :=
  stampPrevSenderFrom tail prev 0 0 out

def findTvlvFrom (tail : Bytes) (ty : U8) (off : Nat) : Option Bytes :=
  if off + tvlvHdrLen ≤ tail.length then
    match _h : recordAt tail off with
    | none => none
    | some (hdr, valueEnd) =>
      if hdr.tvlvType = ty then some (slice tail (off + tvlvHdrLen) valueEnd)
      else findTvlvFrom tail ty valueEnd
  else none
termination_by tail.length - off
decreasing_by
  have := lt_of_recordAt _h
  omega

def findTvlv (tail : Bytes) (ty : TvlvType) : Option Bytes := findTvlvFrom tail ty.asU8 0

def prevSender (tail : Bytes) : Option Mac := findTvlv tail .prevSender >>= Mac.tryFrom

structure TvlvValues where
  tail : Bytes
  off : Nat
  tvlvType : U8

namespace TvlvValues

/-- The next value, and the iterator after it. -/
def next (it : TvlvValues) : Option Bytes × TvlvValues :=
  if it.off + tvlvHdrLen ≤ it.tail.length then
    match _h : recordAt it.tail it.off with
    | none => (none, it)
    | some (hdr, valueEnd) =>
      if hdr.tvlvType = it.tvlvType then
        (some (slice it.tail (it.off + tvlvHdrLen) valueEnd), { it with off := valueEnd })
      else next { it with off := valueEnd }
  else (none, it)
termination_by it.tail.length - it.off
decreasing_by
  have := lt_of_recordAt _h
  omega

theorem next_some {it it' : TvlvValues} {value : Bytes} (h : it.next = (some value, it')) :
    it'.tail = it.tail ∧ it.off < it'.off ∧ it'.off ≤ it.tail.length := by
  fun_induction next it with
  | case1 => cases h
  | case2 it hfits hdr valueEnd hrecord hty =>
    obtain ⟨_, rfl⟩ := Prod.mk.inj h
    exact ⟨rfl, lt_of_recordAt hrecord⟩
  | case3 it hfits hdr valueEnd hrecord hty ih =>
    obtain ⟨htail, hlt, hle⟩ := ih h
    have hrecord := lt_of_recordAt hrecord
    exact ⟨htail, by dsimp only at hlt; omega, hle⟩
  | case4 => cases h

/-- All that the iterator yields. -/
def collect (it : TvlvValues) : List Bytes :=
  match _h : it.next with
  | (none, _) => []
  | (some value, it') => value :: it'.collect
termination_by it.tail.length - it.off
decreasing_by
  obtain ⟨htail, hlt, hle⟩ := next_some _h
  rw [htail]
  omega

end TvlvValues

def iterTvlv (tail : Bytes) (ty : TvlvType) : List Bytes :=
  TvlvValues.collect ⟨tail, 0, ty.asU8⟩

/-! ### One record -/

/-- A record lies at this offset, and the scan of what is behind it goes on after it. -/
structure Reads (tail : Bytes) (off : Nat) (r : TvlvRecord) : Prop where
  fits : off + tvlvHdrLen ≤ tail.length
  recordAt : recordAt tail off = some (r.hdr, off + r.asBytes.length)
  bytes : slice tail off (off + r.asBytes.length) = r.asBytes
  value : slice tail (off + tvlvHdrLen) (off + r.asBytes.length) = r.value
  scan : tvlvScan (tail.drop off) = (r :: (tvlvScan (tail.drop (off + r.asBytes.length))).1,
    (tvlvScan (tail.drop (off + r.asBytes.length))).2)

theorem slice_left (front part rest : Bytes) {n : Nat} (hn : n = part.length) :
    slice (front ++ (part ++ rest)) front.length (front.length + n) = part := by
  rw [slice, hn, List.take_length_add_append, List.drop_left, List.take_left]

theorem reads_append (front : Bytes) (r : TvlvRecord) (rest : Bytes) :
    Reads (front ++ (r.asBytes ++ rest)) front.length r := by
  have hlen := r.asBytes_length
  refine ⟨?_, ?_, slice_left front r.asBytes rest rfl, ?_, ?_⟩
  · simp only [List.length_append]
    omega
  · have hhdr : BatmanTvlvHdr.refFromPrefix (r.asBytes ++ rest) = some r.hdr := rfl
    have hend : front.length + tvlvHdrLen + r.hdr.len.get = front.length + r.asBytes.length := by
      rw [r.len_eq]
      omega
    rw [recordAt, List.drop_left, hhdr]
    simp only [Option.bind_eq_bind, Option.bind_some, hend]
    rw [if_neg (by simp only [List.length_append]; omega)]
  · have hsplit : front ++ (r.asBytes ++ rest) =
        (front ++ r.hdr.asBytes) ++ (r.value ++ rest) := by
      simp only [TvlvRecord.asBytes, List.append_assoc]
    have hhdr : (front ++ r.hdr.asBytes).length = front.length + tvlvHdrLen := by
      rw [List.length_append]
      rfl
    have hend : front.length + r.asBytes.length =
        (front ++ r.hdr.asBytes).length + r.value.length := by omega
    rw [hsplit, hend, ← hhdr]
    exact slice_left _ _ _ rfl
  · rw [List.drop_left, tvlvScan_cons, ← List.append_assoc, ← List.length_append, List.drop_left]

/-- What a loop can meet: the end of the region, a record that overruns it, or a record. -/
theorem reads_cases (tail : Bytes) {off : Nat} (hoff : off ≤ tail.length) :
    (¬ off + tvlvHdrLen ≤ tail.length ∧ tvlvScan (tail.drop off) = ([], false)) ∨
    (off + tvlvHdrLen ≤ tail.length ∧ recordAt tail off = none ∧
      tvlvScan (tail.drop off) = ([], true)) ∨
    ∃ r, Reads tail off r := by
  obtain ⟨front, rest, rfl, rfl⟩ : ∃ front rest, tail = front ++ rest ∧ off = front.length :=
    ⟨tail.take off, tail.drop off, (List.take_append_drop off tail).symm,
      (List.length_take_of_le hoff).symm⟩
  obtain ⟨more, hrest, hshort⟩ := tvlvScan_spec rest
  rw [List.drop_left]
  cases hscan : tvlvScan rest with
  | mk records overrun =>
    rw [hscan] at hrest hshort
    cases records with
    | cons r records =>
      right; right
      rw [hrest, tvlvBytes_cons, List.append_assoc]
      exact ⟨r, reads_append front r _⟩
    | nil =>
      obtain rfl : rest = more := hrest
      cases overrun with
      | false =>
        left
        have hlt := hshort rfl
        exact ⟨by rw [List.length_append]; omega, rfl⟩
      | true =>
        right; left
        match rest, hscan with
        | ty :: ver :: l0 :: l1 :: body, hscan =>
          refine ⟨by simp [tvlvHdrLen], ?_, rfl⟩
          have hover : body.length < Be16.get ⟨l0, l1⟩ := by
            by_contra hle
            rw [tvlvScan, List.length_cons, scanTvlv] at hscan
            dsimp only at hscan
            rw [dif_pos (Nat.le_of_not_lt hle)] at hscan
            cases (Prod.mk.inj hscan).1
          rw [recordAt, List.drop_left]
          simp only [BatmanTvlvHdr.refFromPrefix, Option.bind_eq_bind, Option.bind_some]
          rw [if_pos (by simp only [List.length_append, List.length_cons, tvlvHdrLen]; omega)]

/-- What holds at the end and where a loop stops, and before a record if behind it, holds at
every offset. -/
@[elab_as_elim]
theorem offset_induction {tail : Bytes} {motive : (off : Nat) → off ≤ tail.length → Prop}
    (short : ∀ off hoff, ¬ off + tvlvHdrLen ≤ tail.length →
      tvlvScan (tail.drop off) = ([], false) → motive off hoff)
    (overrun : ∀ off hoff, off + tvlvHdrLen ≤ tail.length → recordAt tail off = none →
      tvlvScan (tail.drop off) = ([], true) → motive off hoff)
    (record : ∀ off hoff r hend, Reads tail off r → motive (off + r.asBytes.length) hend →
      motive off hoff)
    {off : Nat} (hoff : off ≤ tail.length) : motive off hoff := by
  generalize hn : tail.length - off = n
  induction n using Nat.strongRecOn generalizing off with
  | ind n ih =>
    rcases reads_cases tail hoff with ⟨hfits, hscan⟩ | ⟨hfits, hnone, hscan⟩ | ⟨r, hreads⟩
    · exact short off hoff hfits hscan
    · exact overrun off hoff hfits hnone hscan
    · obtain ⟨hlt, hle⟩ := lt_of_recordAt hreads.recordAt
      exact record off hoff r hle hreads (ih _ (by omega) hle rfl)

/-! ### The loops do what the scan says -/

/-- What a region keeps of its records. -/
def keptOf (records : List TvlvRecord) : List TvlvRecord :=
  records.filter fun r => r.hdr.tvlvType ≠ TvlvType.prevSender.asU8

theorem keptOf_cons_of_ne {r : TvlvRecord} (h : r.hdr.tvlvType ≠ TvlvType.prevSender.asU8)
    (rs : List TvlvRecord) : keptOf (r :: rs) = r :: keptOf rs :=
  List.filter_cons_of_pos (decide_eq_true h)

theorem keptOf_cons_of_eq {r : TvlvRecord} (h : r.hdr.tvlvType = TvlvType.prevSender.asU8)
    (rs : List TvlvRecord) : keptOf (r :: rs) = keptOf rs :=
  List.filter_cons_of_neg (by simp [h])

theorem stampedLenFrom_eq {tail : Bytes} {read : Nat} (hread : read ≤ tail.length) (kept : Nat) :
    stampedLenFrom tail read kept = if (tvlvScan (tail.drop read)).2 then none
      else some (kept + (tvlvBytes (keptOf (tvlvScan (tail.drop read)).1)).length +
        prevSenderRecordLen) := by
  induction hread using offset_induction generalizing kept with
  | short off _ hshort hscan =>
    rw [stampedLenFrom, if_neg hshort, hscan]
    rfl
  | overrun off _ hfits hnone hscan =>
    rw [stampedLenFrom, if_pos hfits, hscan]
    split
    · rfl
    · rename_i heq
      rw [hnone] at heq
      cases heq
  | record off _ r _ hreads ih =>
    rw [stampedLenFrom, if_pos hreads.fits, hreads.scan]
    split
    · rename_i heq
      rw [hreads.recordAt] at heq
      cases heq
    · rename_i hdr valueEnd heq
      rw [hreads.recordAt] at heq
      obtain ⟨rfl, rfl⟩ := Prod.mk.inj (Option.some.inj heq)
      rw [ih]
      by_cases hkeep : r.hdr.tvlvType = TvlvType.prevSender.asU8
      · rw [if_neg (not_not.mpr hkeep), keptOf_cons_of_eq hkeep]
      · rw [if_pos hkeep, keptOf_cons_of_ne hkeep, tvlvBytes_cons, List.length_append,
          Nat.add_sub_cancel_left, ← Nat.add_assoc]

theorem put_append (front rest part : Bytes) :
    put (front ++ rest) front.length part =
      if part.length ≤ rest.length then some (front ++ part ++ rest.drop part.length)
      else none := by
  rw [put, splice_append, List.length_append]
  simp only [Nat.add_le_add_iff_left]

theorem putPrevSender_append (front rest : Bytes) (prev : Mac) :
    putPrevSender (front ++ rest) front.length prev =
      if (prevSenderRecord prev).asBytes.length ≤ rest.length then
        some (front.length + (prevSenderRecord prev).asBytes.length,
          front ++ (prevSenderRecord prev).asBytes ++
            rest.drop (prevSenderRecord prev).asBytes.length)
      else none := by
  have hhdr : (prevSenderRecord prev).hdr.asBytes.length = tvlvHdrLen := rfl
  have hmac : prev.asBytes.length = prevSenderLen := Mac.asBytes_length prev
  have hlen : (prevSenderRecord prev).asBytes.length = tvlvHdrLen + prevSenderLen := by
    rw [TvlvRecord.asBytes_length, ← hmac]
    rfl
  have hsplit : (prevSenderRecord prev).asBytes =
      (prevSenderRecord prev).hdr.asBytes ++ prev.asBytes := rfl
  change ((put (front ++ rest) front.length (prevSenderRecord prev).hdr.asBytes).bind fun out =>
    (put out (front.length + tvlvHdrLen) prev.asBytes).bind fun out => some
      (front.length + tvlvHdrLen + prevSenderLen, out)) = _
  rw [put_append, hlen, hhdr]
  by_cases hfirst : tvlvHdrLen ≤ rest.length
  · have hfront : front.length + tvlvHdrLen =
        (front ++ (prevSenderRecord prev).hdr.asBytes).length := by
      rw [List.length_append, hhdr]
    rw [if_pos hfirst, Option.bind_some, hfront, put_append, List.length_drop, hmac]
    by_cases hall : tvlvHdrLen + prevSenderLen ≤ rest.length
    · rw [if_pos (by omega), if_pos hall, Option.bind_some, ← hfront, List.drop_drop, hsplit]
      simp only [List.append_assoc, Nat.add_assoc]
    · rw [if_neg (by omega), if_neg hall]
      rfl
  · rw [if_neg hfirst, if_neg (by omega)]
    rfl

theorem stampPrevSenderFrom_eq {tail : Bytes} {read : Nat} (hread : read ≤ tail.length)
    (prev : Mac) (front rest : Bytes) :
    stampPrevSenderFrom tail prev read front.length (front ++ rest) =
      if (tvlvScan (tail.drop read)).2 then none
      else
        let new := tvlvBytes (keptOf (tvlvScan (tail.drop read)).1 ++ [prevSenderRecord prev])
        if new.length ≤ rest.length then
          some (front.length + new.length, front ++ new ++ rest.drop new.length)
        else none := by
  induction hread using offset_induction generalizing front rest with
  | short off _ hshort hscan =>
    rw [stampPrevSenderFrom, if_neg hshort, hscan, putPrevSender_append]
    simp [keptOf, tvlvBytes]
  | overrun off _ hfits hnone hscan =>
    rw [stampPrevSenderFrom, if_pos hfits, hscan]
    split
    · rfl
    · rename_i heq
      rw [hnone] at heq
      cases heq
  | record off _ r _ hreads ih =>
    rw [stampPrevSenderFrom, if_pos hreads.fits, hreads.scan]
    split
    · rename_i heq
      rw [hreads.recordAt] at heq
      cases heq
    · rename_i hdr valueEnd heq
      rw [hreads.recordAt] at heq
      obtain ⟨rfl, rfl⟩ := Prod.mk.inj (Option.some.inj heq)
      by_cases hkeep : r.hdr.tvlvType = TvlvType.prevSender.asU8
      · rw [if_neg (not_not.mpr hkeep), keptOf_cons_of_eq hkeep]
        exact ih front rest
      · rw [if_pos hkeep, keptOf_cons_of_ne hkeep, List.cons_append, tvlvBytes_cons]
        dsimp only
        rw [hreads.bytes, put_append]
        generalize tvlvBytes (keptOf (tvlvScan (tail.drop (off + r.asBytes.length))).1 ++
          [prevSenderRecord prev]) = new at ih ⊢
        have hlen : (r.asBytes ++ new).length = r.asBytes.length + new.length := List.length_append
        rw [hlen]
        by_cases hroom : r.asBytes.length ≤ rest.length
        · rw [if_pos hroom, Option.bind_some, ← List.length_append, ih, List.length_drop]
          split
          · rfl
          · by_cases hall : r.asBytes.length + new.length ≤ rest.length
            · rw [if_pos (by omega), if_pos hall, List.drop_drop, List.length_append]
              simp only [List.append_assoc, Nat.add_assoc]
            · rw [if_neg (by omega), if_neg hall]
        · have hall : ¬ r.asBytes.length + new.length ≤ rest.length := by omega
          rw [if_neg hroom, Option.bind_none, if_neg hall, ite_self]

theorem findTvlvFrom_eq {tail : Bytes} {off : Nat} (hoff : off ≤ tail.length) (ty : U8) :
    findTvlvFrom tail ty off =
      ((tvlvScan (tail.drop off)).1.find? fun r => r.hdr.tvlvType = ty).map TvlvRecord.value := by
  induction hoff using offset_induction with
  | short off _ hshort hscan =>
    rw [findTvlvFrom, if_neg hshort, hscan]
    rfl
  | overrun off _ hfits hnone hscan =>
    rw [findTvlvFrom, if_pos hfits, hscan]
    split
    · rfl
    · rename_i heq
      rw [hnone] at heq
      cases heq
  | record off _ r _ hreads ih =>
    rw [findTvlvFrom, if_pos hreads.fits, hreads.scan]
    split
    · rename_i heq
      rw [hreads.recordAt] at heq
      cases heq
    · rename_i hdr valueEnd heq
      rw [hreads.recordAt] at heq
      obtain ⟨rfl, rfl⟩ := Prod.mk.inj (Option.some.inj heq)
      by_cases hty : r.hdr.tvlvType = ty
      · rw [if_pos hty, hreads.value]
        simp [hty]
      · rw [if_neg hty, ih]
        simp [hty]

/-- The iterator stops at a record of its type and goes on behind it. -/
theorem TvlvValues.next_eq {tail : Bytes} {off : Nat} (hoff : off ≤ tail.length) (ty : U8) :
    ((TvlvValues.mk tail off ty).next.1 = none ∧
      ((tvlvScan (tail.drop off)).1.filter fun r => r.hdr.tvlvType = ty) = []) ∨
    ∃ r off', off < off' ∧ off' ≤ tail.length ∧
      (TvlvValues.mk tail off ty).next = (some r.value, ⟨tail, off', ty⟩) ∧
      ((tvlvScan (tail.drop off)).1.filter fun r => r.hdr.tvlvType = ty) =
        r :: ((tvlvScan (tail.drop off')).1.filter fun r => r.hdr.tvlvType = ty) := by
  induction hoff using offset_induction with
  | short off _ hshort hscan =>
    left
    rw [TvlvValues.next, if_neg hshort, hscan]
    exact ⟨rfl, rfl⟩
  | overrun off _ hfits hnone hscan =>
    left
    rw [TvlvValues.next, if_pos hfits, hscan]
    split
    · exact ⟨rfl, rfl⟩
    · rename_i heq
      rw [hnone] at heq
      cases heq
  | record off _ r hend hreads ih =>
    have hlt := (lt_of_recordAt hreads.recordAt).1
    have hnext : (TvlvValues.mk tail off ty).next =
        if r.hdr.tvlvType = ty then (some r.value, ⟨tail, off + r.asBytes.length, ty⟩)
        else (TvlvValues.mk tail (off + r.asBytes.length) ty).next := by
      rw [TvlvValues.next, if_pos hreads.fits]
      split
      · rename_i heq
        rw [hreads.recordAt] at heq
        cases heq
      · rename_i hdr valueEnd heq
        rw [hreads.recordAt] at heq
        obtain ⟨rfl, rfl⟩ := Prod.mk.inj (Option.some.inj heq)
        dsimp only
        rw [hreads.value]
    rw [hnext, hreads.scan]
    by_cases hty : r.hdr.tvlvType = ty
    · right
      rw [if_pos hty]
      exact ⟨r, _, hlt, hend, rfl, List.filter_cons_of_pos (decide_eq_true hty)⟩
    · rw [if_neg hty, List.filter_cons_of_neg (by simpa using hty)]
      rcases ih with ih | ⟨r', off', hlt', hle', hih⟩
      · exact Or.inl ih
      · exact Or.inr ⟨r', off', Nat.lt_trans hlt hlt', hle', hih⟩

theorem TvlvValues.collect_eq {tail : Bytes} {off : Nat} (hoff : off ≤ tail.length) (ty : U8) :
    (TvlvValues.mk tail off ty).collect =
      ((tvlvScan (tail.drop off)).1.filter fun r => r.hdr.tvlvType = ty).map
        TvlvRecord.value := by
  generalize hn : tail.length - off = n
  induction n using Nat.strongRecOn generalizing off with
  | ind n ih =>
    rw [TvlvValues.collect]
    rcases TvlvValues.next_eq hoff ty with ⟨hnone, hempty⟩ | ⟨r, off', hlt, hle, hnext, hcons⟩
    · rw [hempty]
      split
      · rfl
      · rename_i heq
        rw [heq] at hnone
        cases hnone
    · rw [hcons]
      split
      · rename_i heq
        rw [hnext] at heq
        cases heq
      · rename_i value it' heq
        rw [hnext] at heq
        obtain ⟨hvalue, rfl⟩ := Prod.mk.inj heq
        rw [← Option.some.inj hvalue, ih _ (by omega) hle rfl]
        rfl

/-! ### The region as a whole -/

theorem stampedLen_eq (tail : Bytes) : stampedLen tail = Wayfinder.stampedLen tail := by
  rw [stampedLen, stampedLenFrom_eq (Nat.zero_le _), Nat.zero_add]
  rfl

theorem stampPrevSender_eq (tail out : Bytes) (prev : Mac) :
    stampPrevSender tail out prev = (Wayfinder.stampPrevSender tail out.length prev).map fun new =>
      (new.length, new ++ out.drop new.length) := by
  have h := stampPrevSenderFrom_eq (Nat.zero_le tail.length) prev [] out
  rw [List.drop_zero, List.nil_append] at h
  refine h.trans ?_
  unfold Wayfinder.stampPrevSender tvlvOverrun
  split
  · rfl
  · dsimp only
    change (if (tvlvBytes (keptRecords tail ++ [prevSenderRecord prev])).length ≤ out.length then _
      else _) = _
    split
    · rw [List.length_nil, Nat.zero_add]
      rfl
    · rfl

theorem findTvlv_eq (tail : Bytes) (ty : TvlvType) :
    findTvlv tail ty = Wayfinder.findTvlv tail ty :=
  findTvlvFrom_eq (Nat.zero_le _) ty.asU8

theorem iterTvlv_eq (tail : Bytes) (ty : TvlvType) :
    iterTvlv tail ty = Wayfinder.iterTvlv tail ty :=
  TvlvValues.collect_eq (Nat.zero_le _) ty.asU8

theorem prevSender_eq (tail : Bytes) : prevSender tail = Wayfinder.prevSender tail := by
  rw [prevSender, findTvlv_eq]
  rfl

/-- Complete records, and behind them fewer bytes than a header takes. -/
def Complete (tail : Bytes) : Prop :=
  ∃ rs rest, tail = tvlvBytes rs ++ rest ∧ rest.length < tvlvHdrLen

theorem complete_iff (tail : Bytes) : Complete tail ↔ tvlvOverrun tail = false := by
  constructor
  · rintro ⟨rs, rest, rfl, hshort⟩
    have hrest : tvlvScan rest = ([], false) := by
      rcases reads_cases rest (Nat.zero_le _) with ⟨_, hscan⟩ | ⟨hfits, _⟩ | ⟨r, hreads⟩
      · exact hscan
      · omega
      · have hfits := hreads.fits
        omega
    rw [tvlvOverrun, tvlvScan_append, hrest]
  · intro h
    obtain ⟨rest, hsplit, hshort⟩ := tvlvScan_spec tail
    exact ⟨_, rest, hsplit, hshort h⟩

/-- The region a stamp leaves. -/
def restamped (tail : Bytes) (prev : Mac) : Bytes :=
  tvlvBytes (keptRecords tail ++ [prevSenderRecord prev])

theorem tvlvScan_restamped (tail : Bytes) (prev : Mac) :
    tvlvScan (restamped tail prev) = (keptRecords tail ++ [prevSenderRecord prev], false) :=
  tvlvScan_tvlvBytes _

theorem length_restamped (tail : Bytes) (prev : Mac) :
    (restamped tail prev).length = (tvlvBytes (keptRecords tail)).length + prevSenderRecordLen := by
  rw [restamped, tvlvBytes_append, List.length_append]
  congr 1

/-- Whatever a region was stamped with before is gone with its record. -/
theorem keptRecords_restamped (tail : Bytes) (prev : Mac) :
    keptRecords (restamped tail prev) = keptRecords tail := by
  rw [keptRecords, tvlvRecords, tvlvScan_restamped]
  simp [keptRecords, prevSenderRecord]

theorem iterTvlv_restamped (tail : Bytes) (prev : Mac) {ty : TvlvType} (hty : ty ≠ .prevSender) :
    Wayfinder.iterTvlv (restamped tail prev) ty = Wayfinder.iterTvlv tail ty := by
  have hother : TvlvType.prevSender.asU8 ≠ ty.asU8 := by
    intro heq
    exact hty (TvlvType.asU8_injective heq.symm)
  unfold Wayfinder.iterTvlv
  rw [tvlvRecords, tvlvScan_restamped, List.filter_append,
    List.filter_cons_of_neg (by simp [prevSenderRecord, hother]), List.filter_nil,
    List.append_nil, keptRecords, List.filter_filter]
  congr 2
  funext r
  by_cases hr : r.hdr.tvlvType = ty.asU8
  · simp [hr, hother.symm]
  · simp [hr]

theorem iterTvlv_restamped_prevSender (tail : Bytes) (prev : Mac) :
    Wayfinder.iterTvlv (restamped tail prev) .prevSender = [prev.asBytes] := by
  have hkept : (keptRecords tail).filter (fun r => r.hdr.tvlvType = TvlvType.prevSender.asU8) =
      [] := by
    rw [keptRecords, List.filter_filter, List.filter_eq_nil_iff]
    intro r _
    simp
  unfold Wayfinder.iterTvlv
  rw [tvlvRecords, tvlvScan_restamped, List.filter_append, hkept]
  rfl

theorem findTvlv_head? (tail : Bytes) (ty : TvlvType) :
    Wayfinder.findTvlv tail ty = (Wayfinder.iterTvlv tail ty).head? := by
  rw [Wayfinder.findTvlv, Wayfinder.iterTvlv, List.head?_map, List.head?_filter]

theorem stampPrevSender_some_iff {tail out out' : Bytes} {prev : Mac} {m : Nat} :
    stampPrevSender tail out prev = some (m, out') ↔
      tvlvOverrun tail = false ∧ m = (restamped tail prev).length ∧ m ≤ out.length ∧
        out' = restamped tail prev ++ out.drop m := by
  rw [stampPrevSender_eq]
  unfold Wayfinder.stampPrevSender
  cases tvlvOverrun tail with
  | true => simp
  | false =>
    change (if (restamped tail prev).length ≤ out.length then some (restamped tail prev)
      else none).map _ = _ ↔ _
    by_cases hroom : (restamped tail prev).length ≤ out.length
    · rw [if_pos hroom, Option.map_some, Option.some.injEq, Prod.mk.injEq]
      constructor
      · rintro ⟨rfl, rfl⟩
        exact ⟨rfl, rfl, hroom, rfl⟩
      · rintro ⟨_, rfl, _, rfl⟩
        exact ⟨rfl, rfl⟩
    · rw [if_neg hroom]
      constructor
      · intro h
        cases h
      · rintro ⟨_, rfl, hle, _⟩
        exact absurd hle hroom

theorem stampedLen_some_iff {tail : Bytes} {n : Nat} (prev : Mac) :
    stampedLen tail = some n ↔ tvlvOverrun tail = false ∧ n = (restamped tail prev).length := by
  rw [stampedLen_eq, Wayfinder.stampedLen, length_restamped]
  cases tvlvOverrun tail with
  | true => simp
  | false => simp [eq_comm]

/-- The rewrite of a region for the next hop: it goes through exactly for complete records
and a buffer that holds what was announced, changes no other record, leaves this hop's stamp
as the only one, and does not see the one before. The search and the iterator agree. -/
theorem stamp_preserves (tail : Bytes) :
    ((∃ n, stampedLen tail = some n) ↔ Complete tail) ∧
    (∀ out prev m, (∃ out', stampPrevSender tail out prev = some (m, out')) ↔
      stampedLen tail = some m ∧ m ≤ out.length) ∧
    (∀ out prev m out', stampPrevSender tail out prev = some (m, out') →
      out'.length = out.length ∧ out'.drop m = out.drop m ∧
      (∀ ty, ty ≠ .prevSender → iterTvlv (out'.take m) ty = iterTvlv tail ty) ∧
      iterTvlv (out'.take m) .prevSender = [prev.asBytes] ∧
      prevSender (out'.take m) = some prev ∧
      stampedLen (out'.take m) = some m ∧
      ∀ out₂ prev₂, stampPrevSender (out'.take m) out₂ prev₂ = stampPrevSender tail out₂ prev₂) ∧
    ∀ ty, findTvlv tail ty = (iterTvlv tail ty).head? := by
  refine ⟨?_, ?_, ?_, ?_⟩
  · rw [complete_iff]
    constructor
    · intro ⟨n, hn⟩
      exact ((stampedLen_some_iff Mac.zero).mp hn).1
    · intro h
      exact ⟨_, (stampedLen_some_iff Mac.zero).mpr ⟨h, rfl⟩⟩
  · intro out prev m
    constructor
    · intro ⟨out', h⟩
      obtain ⟨hwhole, hm, hroom, _⟩ := stampPrevSender_some_iff.mp h
      exact ⟨(stampedLen_some_iff prev).mpr ⟨hwhole, hm⟩, hroom⟩
    · intro ⟨hlen, hroom⟩
      obtain ⟨hwhole, hm⟩ := (stampedLen_some_iff prev).mp hlen
      exact ⟨_, stampPrevSender_some_iff.mpr ⟨hwhole, hm, hroom, rfl⟩⟩
  · intro out prev m out' h
    obtain ⟨hwhole, rfl, hroom, rfl⟩ := stampPrevSender_some_iff.mp h
    rw [List.take_left, List.drop_left]
    have hscan : tvlvOverrun (restamped tail prev) = false :=
      congrArg Prod.snd (tvlvScan_restamped tail prev)
    have hstamps := iterTvlv_restamped_prevSender tail prev
    have hagain : ∀ prev₂, restamped (restamped tail prev) prev₂ = restamped tail prev₂ := by
      intro prev₂
      rw [restamped, keptRecords_restamped]
      rfl
    refine ⟨?_, rfl, ?_, ?_, ?_, ?_, ?_⟩
    · rw [List.length_append, List.length_drop]
      omega
    · intro ty hty
      rw [iterTvlv_eq, iterTvlv_eq]
      exact iterTvlv_restamped tail prev hty
    · rw [iterTvlv_eq]
      exact hstamps
    · rw [prevSender_eq, Wayfinder.prevSender, findTvlv_head?, hstamps]
      exact Mac.tryFrom_asBytes prev
    · apply (stampedLen_some_iff prev).mpr
      exact ⟨hscan, by rw [hagain]⟩
    · intro out₂ prev₂
      apply Option.ext
      rintro ⟨m₂, out₂'⟩
      rw [stampPrevSender_some_iff, stampPrevSender_some_iff, hagain, hscan, hwhole]
  · intro ty
    rw [findTvlv_eq, iterTvlv_eq, findTvlv_head?]

end TvlvCursor

end Wayfinder
