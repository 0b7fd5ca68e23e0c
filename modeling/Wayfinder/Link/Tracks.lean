import Mathlib.Data.Finset.Range
import Wayfinder.Link.Reassembly

/-!
# One message of the table

The table is followed from the side of one message: which of its fragments are in,
and that the other messages leave it room.
-/

namespace Wayfinder

set_option autoImplicit false

section Table

variable {A : Type} {s : LinkSizes}

namespace Reassembler

/-- `t` has the fragments `got` of `frame` under `key`, and messages of `others` beside it. -/
structure Tracks (t : Reassembler A s) (frame : Bytes) (key : FragKey A) (others : List (FragKey A))
    (got : Finset Nat) : Prop where
  keys : ∀ e ∈ t.entries, e.key = key ∨ e.key ∈ others
  held : ∀ e ∈ t.entries, e.key = key →
    e.count.toNat = Pieces.count s.fragPayload frame.length ∧ e.Of s frame ∧
      ∀ i, e.has i ↔ i ∈ got
  present : got.Nonempty → ∃ e ∈ t.entries, e.key = key
  within : got ⊆ Finset.range (Pieces.count s.fragPayload frame.length)

/-- The fragments in after `index`, those of a complete message gone. -/
def collect (count : Nat) (got : Finset Nat) (index : Nat) : Finset Nat :=
  if insert index got = Finset.range count then ∅ else insert index got

namespace Slot

variable {entries : List (Reassembly A)} {key : FragKey A} {count : U8}
  {pre : List (Reassembly A)} {e : Reassembly A} {post : List (Reassembly A)}

theorem mem_entries (h : Slot s entries key count pre e post) {x : Reassembly A}
    (hx : x ∈ pre ++ post) : x ∈ entries := by
  cases h with
  | held split =>
    rw [split]
    exact ((List.sublist_cons_self _ post).append_left pre).subset hx
  | reset split =>
    rw [split]
    exact ((List.sublist_cons_self _ post).append_left pre).subset hx
  | opened =>
    rwa [List.append_nil] at hx
  | evicted =>
    rw [List.append_nil] at hx
    exact List.mem_of_mem_drop hx

theorem mem_rest (h : Slot s entries key count pre e post)
    (hroom : (∀ x ∈ entries, x.key ≠ key) → entries.length ≠ s.maxReassemblies)
    {x : Reassembly A} (hx : x ∈ entries) (hkey : x.key ≠ key) : x ∈ pre ++ post := by
  have hdrop : ∀ e₀ : Reassembly A, e₀.key = key → x ∈ pre ++ e₀ :: post → x ∈ pre ++ post := by
    intro e₀ he₀ hmem
    rw [List.mem_append, List.mem_cons] at hmem
    rw [List.mem_append]
    rcases hmem with hmem | rfl | hmem
    · exact Or.inl hmem
    · exact absurd he₀ hkey
    · exact Or.inr hmem
  cases h with
  | held split hkey₀ => exact hdrop _ hkey₀ (split ▸ hx)
  | reset split hkey₀ => exact hdrop _ hkey₀ (split ▸ hx)
  | opened => rwa [List.append_nil]
  | evicted absent full => exact absurd full (hroom absent)

theorem key_ne (h : Slot s entries key count pre e post)
    (hnodup : (entries.map Reassembly.key).Nodup) {x : Reassembly A} (hx : x ∈ pre ++ post) :
    x.key ≠ key := by
  have hkeys := h.nodup hnodup
  rw [List.map_append, List.map_cons, h.key_eq, List.nodup_middle, List.nodup_cons,
    ← List.map_append] at hkeys
  intro heq
  exact hkeys.1 (heq ▸ List.mem_map_of_mem hx)

end Slot

theorem not_malformed {frame : Bytes} {msgId : U8} {index : Nat} {hdr : FragHeader}
    (h : hdr.Heads s frame msgId index) (hlen : frame.length ≤ s.maxReassembledLen) :
    s.malformed hdr (Pieces.piece s.fragPayload frame index) = false := by
  obtain ⟨_, rfl, hcount, hindex, hlt⟩ := h
  have hpos := s.fragPayload_pos
  have hpiece := Pieces.length_piece hpos hindex
  have hfull := Pieces.length_piece_le s.fragPayload frame hdr.index.toNat
  have hceil : hdr.count.toNat ≤ divCeil s.maxReassembledLen s.fragPayload := by
    rw [hcount]
    unfold Pieces.count divCeil
    apply Nat.max_le.mpr
    refine ⟨Nat.div_le_div_right (by omega), ?_⟩
    rw [Nat.le_div_iff_mul_le hpos]
    have hheader := s.header_le
    unfold linkHeaderLen at hheader
    omega
  have hshort : hdr.index + 1 ≠ hdr.count →
      (Pieces.piece s.fragPayload frame hdr.index.toNat).length = s.fragPayload := by
    intro hne
    apply Pieces.length_piece_of_lt hpos
    rw [← hcount]
    rcases Nat.lt_or_ge (hdr.index.toNat + 1) hdr.count.toNat with h | h
    · exact h
    · exfalso
      apply hne
      apply BitVec.eq_of_toNat_eq
      rw [BitVec.toNat_add]
      show (hdr.index.toNat + 1) % 256 = hdr.count.toNat
      omega
  unfold LinkSizes.malformed
  simp only [decide_eq_false_iff_not, not_or, not_and]
  rw [BitVec.le_def, ← BitVec.toNat_inj]
  refine ⟨?_, by omega, by omega, by omega, fun hne h => h (hshort hne), by omega⟩
  show hdr.count.toNat ≠ 0
  omega

namespace Tracks

variable {t : Reassembler A s} {frame : Bytes} {key : FragKey A} {others : List (FragKey A)}
  {got : Finset Nat}

theorem room (h : t.Tracks frame key others got) [DecidableEq A]
    (hothers : others.length < s.maxReassemblies) {k : FragKey A} (hk : k ∈ key :: others)
    (habsent : ∀ e ∈ t.entries, e.key ≠ k) : t.entries.length ≠ s.maxReassemblies := by
  have hsub : t.entries.map Reassembly.key ⊆ (key :: others).erase k := by
    intro x hx
    obtain ⟨e, he, rfl⟩ := List.mem_map.mp hx
    rw [List.mem_erase_of_ne (habsent e he), List.mem_cons]
    exact h.keys e he
  have hlen := (t.nodup.subperm hsub).length_le
  rw [List.length_map, List.length_erase_of_mem hk, List.length_cons] at hlen
  omega

theorem slot (h : t.Tracks frame key others got) {count : U8}
    {pre post : List (Reassembly A)} {e : Reassembly A}
    (hslot : Slot s t.entries key count pre e post)
    (hcount : count.toNat = Pieces.count s.fragPayload frame.length) :
    e.Of s frame ∧ ∀ i, e.has i ↔ i ∈ got := by
  have hnew : (∀ e ∈ t.entries, e.key ≠ key) →
      (Reassembly.new s key count).Of s frame ∧
        ∀ i, (Reassembly.new s key count).has i ↔ i ∈ got := by
    intro habsent
    refine ⟨Reassembly.of_new _ _ _, ?_⟩
    intro i
    apply iff_of_false (Reassembly.not_has_new _ _ _)
    intro hi
    obtain ⟨e, he, hkey⟩ := h.present ⟨i, hi⟩
    exact habsent e he hkey
  cases hslot with
  | held split hkey =>
    have hmem : e ∈ t.entries := by
      rw [split]
      exact List.mem_append_right _ List.mem_cons_self
    exact (h.held e hmem hkey).2
  | reset split hkey hne =>
    exfalso
    rename_i e₀
    have hmem : e₀ ∈ t.entries := by
      rw [split]
      exact List.mem_append_right _ List.mem_cons_self
    apply hne
    apply BitVec.eq_of_toNat_eq
    rw [(h.held e₀ hmem hkey).1, hcount]
  | opened habsent => exact hnew habsent
  | evicted habsent => exact hnew habsent

variable [DecidableEq A]

/-- One of our fragments: it completes the frame exactly when it is the last one missing. -/
theorem accept_ours (h : t.Tracks frame key others got) {index : Nat} {hdr : FragHeader}
    {metrics : LinkMetrics} (hdrOf : hdr.Heads s frame key.msgId index)
    (hlen : frame.length ≤ s.maxReassembledLen) :
    (t.accept key hdr (Pieces.piece s.fragPayload frame index) metrics).2 =
        (if insert index got = Finset.range (Pieces.count s.fragPayload frame.length) then
          some (frame, metrics) else none) ∧
      (t.accept key hdr (Pieces.piece s.fragPayload frame index) metrics).1.Tracks frame key others
        (collect (Pieces.count s.fragPayload frame.length) got index) := by
  have hfine := not_malformed hdrOf hlen
  obtain ⟨pre, e, post, hslot, heq⟩ := acceptEntries_spec t.entries key metrics hfine
  obtain ⟨hof, hhas⟩ := h.slot hslot hdrOf.count_eq
  have hbuf : e.buf.length = s.maxReassembledLen :=
    hslot.buf_length t.buf_length e (List.mem_append_right _ List.mem_cons_self)
  have hindex := hdrOf.index_lt
  have hcountLt := hdrOf.count_lt
  have hidx := hdrOf.index_eq
  have hstored : (e.store s hdr (Pieces.piece s.fragPayload frame index) metrics).Of s frame :=
    hof.store hbuf (hidx.symm ▸ hindex) hcountLt (congrArg _ hidx.symm)
      (fits_of_not_malformed hfine)
  have hget : ∀ i, (e.store s hdr (Pieces.piece s.fragPayload frame index) metrics).has i ↔
      i ∈ insert index got := by
    intro i
    rw [Reassembly.has_store (by omega), Finset.mem_insert, hhas, hidx]
  have hcnt : (e.store s hdr (Pieces.piece s.fragPayload frame index) metrics).count.toNat =
      Pieces.count s.fragPayload frame.length := by
    rw [Reassembly.count_store, hslot.count_eq, hdrOf.count_eq]
  have hwithin : insert index got ⊆ Finset.range (Pieces.count s.fragPayload frame.length) := by
    apply Finset.insert_subset _ h.within
    exact Finset.mem_range.mpr hindex
  have hcomplete : (e.store s hdr (Pieces.piece s.fragPayload frame index) metrics).isComplete =
      true ↔ insert index got = Finset.range (Pieces.count s.fragPayload frame.length) := by
    rw [Reassembly.isComplete_iff (by omega), hcnt]
    constructor
    · intro hall
      apply Finset.Subset.antisymm hwithin
      intro i hi
      exact (hget i).mp (hall i (Finset.mem_range.mp hi))
    · intro hfull i hi
      rw [hget, hfull]
      exact Finset.mem_range.mpr hi
  have hrest : ∀ x ∈ pre ++ post, x.key ≠ key ∧ (x.key = key ∨ x.key ∈ others) := by
    intro x hx
    exact ⟨hslot.key_ne t.nodup hx, h.keys x (hslot.mem_entries hx)⟩
  unfold collect
  by_cases hfull : insert index got = Finset.range (Pieces.count s.fragPayload frame.length)
  · rw [if_pos hfull, if_pos hfull]
    rw [if_pos (hcomplete.mpr hfull)] at heq
    have hframe := hstored.complete hcnt (by omega) (hcomplete.mpr hfull)
    refine ⟨?_, ?_⟩
    · refine (congrArg Prod.snd heq).trans ?_
      dsimp only
      rw [hframe, Reassembly.metrics_store]
    · have hentries : (t.accept key hdr (Pieces.piece s.fragPayload frame index)
          metrics).1.entries = pre ++ post := congrArg Prod.fst heq
      constructor
      · rw [hentries]
        exact fun x hx => (hrest x hx).2
      · rw [hentries]
        exact fun x hx hkey => absurd hkey (hrest x hx).1
      · exact fun hne => absurd rfl hne.ne_empty
      · exact Finset.empty_subset _
  · rw [if_neg hfull, if_neg hfull]
    rw [if_neg (fun hc => hfull (hcomplete.mp hc))] at heq
    refine ⟨congrArg Prod.snd heq, ?_⟩
    have hentries : (t.accept key hdr (Pieces.piece s.fragPayload frame index)
        metrics).1.entries =
          pre ++ e.store s hdr (Pieces.piece s.fragPayload frame index) metrics :: post :=
      congrArg Prod.fst heq
    have hmem : ∀ x, x ∈ pre ++ e.store s hdr (Pieces.piece s.fragPayload frame index) metrics ::
        post → x = e.store s hdr (Pieces.piece s.fragPayload frame index) metrics ∨
          x ∈ pre ++ post := by
      intro x hx
      rw [List.mem_append, List.mem_cons] at hx
      rw [List.mem_append]
      tauto
    have hkey : (e.store s hdr (Pieces.piece s.fragPayload frame index) metrics).key = key := by
      rw [Reassembly.key_store, hslot.key_eq]
    constructor
    · rw [hentries]
      intro x hx
      rcases hmem x hx with rfl | hx
      · exact Or.inl hkey
      · exact (hrest x hx).2
    · rw [hentries]
      intro x hx hxkey
      rcases hmem x hx with rfl | hx
      · exact ⟨hcnt, hstored, hget⟩
      · exact absurd hxkey (hrest x hx).1
    · rw [hentries]
      exact fun _ => ⟨_, List.mem_append_right _ List.mem_cons_self, hkey⟩
    · exact hwithin

theorem accept_other (h : t.Tracks frame key others got) {k : FragKey A} (hk : k ∈ others)
    (hkey : key ∉ others) (hothers : others.length < s.maxReassemblies) (hdr : FragHeader)
    (body : Bytes) (metrics : LinkMetrics) :
    (t.accept k hdr body metrics).1.Tracks frame key others got := by
  have hne : key ≠ k := fun heq => hkey (heq ▸ hk)
  cases hbad : s.malformed hdr body with
  | true =>
    have hentries : (t.accept k hdr body metrics).1.entries = t.entries := by
      unfold accept acceptEntries
      dsimp only
      rw [if_pos hbad]
    constructor
    · rw [hentries]
      exact h.keys
    · rw [hentries]
      exact h.held
    · rw [hentries]
      exact h.present
    · exact h.within
  | false =>
    obtain ⟨pre, e, post, hslot, heq⟩ := acceptEntries_spec t.entries k metrics hbad
    have hkeep : ∀ x ∈ t.entries, x.key ≠ k → x ∈ pre ++ post := by
      intro x hx hxk
      exact hslot.mem_rest (h.room hothers (List.mem_cons_of_mem _ hk)) hx hxk
    -- the other message's own entry is the only one that can be new
    have hfrom : ∀ x ∈ (t.accept k hdr body metrics).1.entries, x.key = k ∨ x ∈ t.entries := by
      intro x hx
      replace hx : x ∈ (acceptEntries s t.entries k hdr body metrics).1 := hx
      rw [heq] at hx
      split at hx
      · exact Or.inr (hslot.mem_entries hx)
      · rw [List.mem_append, List.mem_cons] at hx
        rcases hx with hx | rfl | hx
        · exact Or.inr (hslot.mem_entries (List.mem_append_left _ hx))
        · exact Or.inl ((Reassembly.key_store _ _ _ _ _).trans hslot.key_eq)
        · exact Or.inr (hslot.mem_entries (List.mem_append_right _ hx))
    have hsub : ∀ x ∈ pre ++ post, x ∈ (t.accept k hdr body metrics).1.entries := by
      intro x hx
      show x ∈ (acceptEntries s t.entries k hdr body metrics).1
      rw [heq]
      split
      · exact hx
      · exact ((List.sublist_cons_self _ post).append_left pre).subset hx
    constructor
    · intro x hx
      rcases hfrom x hx with rfl | hx
      · exact Or.inr hk
      · exact h.keys x hx
    · intro x hx hxkey
      rcases hfrom x hx with hxk | hx
      · exact absurd (hxkey.symm.trans hxk) hne
      · exact h.held x hx hxkey
    · intro hgot
      obtain ⟨x, hx, hxkey⟩ := h.present hgot
      exact ⟨x, hsub x (hkeep x hx (hxkey ▸ hne)), hxkey⟩
    · exact h.within

end Tracks

end Reassembler

end Table

end Wayfinder
