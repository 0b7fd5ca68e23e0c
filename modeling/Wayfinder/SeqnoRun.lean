import Wayfinder.Seqno

/-!
# Runs of admission calls on one entry

A run is the list of calls made on one high-water, each recorded with the mark
before and after it. As long as no call resynchronises, every admitted number is
the starting mark plus a positive offset, and the offsets add up along the run;
below one turn of the circle no number can therefore be admitted twice.
-/

namespace Wayfinder

set_option autoImplicit false

/-- One `admit_seqno` call as it was made and answered. -/
structure SeqnoCall where
  before : HighWater
  seqno : U32
  now : Duration
  after : HighWater
  admission : SeqnoAdmission
  deriving DecidableEq, Repr

namespace SeqnoCall

/-- How far this call moved the mark forward. -/
def forwardAdvance (c : SeqnoCall) : Nat :=
  (Serial.dist c.before.lastSeqno c.after.lastSeqno).toNat

end SeqnoCall

def admitSeqnoRun (b : SeqnoBands) : HighWater → List (U32 × Duration) → List SeqnoCall
  | _, [] => []
  | hw, (seqno, now) :: rest =>
    let r := admitSeqno b hw seqno now
    ⟨hw, seqno, now, r.1, r.2⟩ :: admitSeqnoRun b r.1 rest

def totalAdvance (run : List SeqnoCall) : Nat := (run.map SeqnoCall.forwardAdvance).sum

def NoResync (run : List SeqnoCall) : Prop := ∀ c ∈ run, c.admission.isResynchronised = false

theorem noResync_cons {c : SeqnoCall} {run : List SeqnoCall} :
    NoResync (c :: run) ↔ c.admission.isResynchronised = false ∧ NoResync run := by
  simp only [NoResync, List.forall_mem_cons]

def advancedSeqnos (run : List SeqnoCall) : List U32 :=
  (run.filter fun c => c.admission.isAdvanced).map SeqnoCall.seqno

section Run
variable {b : SeqnoBands}

theorem admitSeqnoRun_call {hw : HighWater} {calls : List (U32 × Duration)} {c : SeqnoCall}
    (hc : c ∈ admitSeqnoRun b hw calls) :
    admitSeqno b c.before c.seqno c.now = (c.after, c.admission) := by
  induction calls generalizing hw with
  | nil => simp [admitSeqnoRun] at hc
  | cons call rest ih =>
    rcases List.mem_cons.mp hc with rfl | hc
    · rfl
    · exact ih hc

/-- Without a resynchronisation a call either advances to its own number or
leaves the mark where it was. -/
theorem mark_of_call {hw hw' : HighWater} {seqno : U32} {now : Duration} {adm : SeqnoAdmission}
    (h : admitSeqno b hw seqno now = (hw', adm)) (hn : adm.isResynchronised = false) :
    (adm = .advanced ∧ hw'.lastSeqno = seqno ∧ 0 < Serial.dist hw.lastSeqno seqno) ∨
      (adm.isAdvanced = false ∧ hw'.lastSeqno = hw.lastSeqno) := by
  rcases admitSeqno_cases h with ⟨hc, rfl, rfl⟩ | ⟨_, rfl, rfl⟩ | ⟨_, w, _, hw⟩
  · exact Or.inl ⟨rfl, rfl, (SeqnoBands.classify_eq_advance_iff.mp hc).1⟩
  · exact Or.inr ⟨rfl, rfl⟩
  · rcases hw with ⟨_, rfl, rfl⟩ | ⟨_, rfl, rfl⟩
    · exact Or.inr ⟨rfl, rfl⟩
    · simp [SeqnoAdmission.isResynchronised] at hn

/-- Every number admitted in a run lies a positive offset ahead of the starting
mark, within the run's total advance. -/
theorem advanced_offset {hw : HighWater} {calls : List (U32 × Duration)}
    (hn : NoResync (admitSeqnoRun b hw calls)) {s : U32}
    (hs : s ∈ advancedSeqnos (admitSeqnoRun b hw calls)) :
    ∃ k, 0 < k ∧ k ≤ totalAdvance (admitSeqnoRun b hw calls) ∧
      s = hw.lastSeqno + BitVec.ofNat 32 k := by
  induction calls generalizing hw with
  | nil => simp [admitSeqnoRun, advancedSeqnos] at hs
  | cons call rest ih =>
    obtain ⟨seqno, now⟩ := call
    obtain ⟨hw', adm, hr⟩ : ∃ hw' adm, admitSeqno b hw seqno now = (hw', adm) := ⟨_, _, rfl⟩
    simp only [admitSeqnoRun, hr] at hn hs ⊢
    obtain ⟨hhead, htail⟩ := noResync_cons.mp hn
    simp only [totalAdvance, List.map_cons, List.sum_cons, SeqnoCall.forwardAdvance]
    rcases mark_of_call hr hhead with ⟨rfl, hmark, hpos⟩ | ⟨hadm, hmark⟩
    · have hoff := Serial.eq_add_of_dist (Int.toNat_of_nonneg (Int.le_of_lt hpos)).symm
      rw [hmark]
      simp only [advancedSeqnos, SeqnoAdmission.isAdvanced, List.filter_cons_of_pos,
        List.map_cons, List.mem_cons] at hs
      rcases hs with rfl | hs
      · exact ⟨_, by omega, Nat.le_add_right _ _, hoff⟩
      · obtain ⟨k, hk, hle, rfl⟩ := ih htail hs
        refine ⟨(Serial.dist hw.lastSeqno seqno).toNat + k, by omega, ?_, ?_⟩
        · exact Nat.add_le_add_left hle _
        · rw [hmark, BitVec.ofNat_add, ← BitVec.add_assoc, ← hoff]
    · have hs' : s ∈ advancedSeqnos (admitSeqnoRun b hw' rest) := by
        simpa [advancedSeqnos, hadm] using hs
      obtain ⟨k, hk, hle, rfl⟩ := ih htail hs'
      refine ⟨k, hk, Nat.le_trans hle (Nat.le_add_left _ _), ?_⟩
      rw [hmark]

theorem add_ofNat_ne_self {a : U32} {k : Nat} (hpos : 0 < k) (hlt : k < 2 ^ 32) :
    a + BitVec.ofNat 32 k ≠ a := by
  intro h
  have hz : BitVec.ofNat 32 k = 0#32 := by
    simpa using h
  have hnat := congrArg BitVec.toNat hz
  simp only [BitVec.toNat_ofNat] at hnat
  omega

theorem advancedSeqnos_nodup {hw : HighWater} {calls : List (U32 × Duration)}
    (hn : NoResync (admitSeqnoRun b hw calls))
    (htotal : totalAdvance (admitSeqnoRun b hw calls) < 2 ^ 32) :
    (advancedSeqnos (admitSeqnoRun b hw calls)).Nodup := by
  induction calls generalizing hw with
  | nil => simp [admitSeqnoRun, advancedSeqnos]
  | cons call rest ih =>
    obtain ⟨seqno, now⟩ := call
    obtain ⟨hw', adm, hr⟩ : ∃ hw' adm, admitSeqno b hw seqno now = (hw', adm) := ⟨_, _, rfl⟩
    simp only [admitSeqnoRun, hr] at hn htotal ⊢
    obtain ⟨hhead, htail⟩ := noResync_cons.mp hn
    have hrest : totalAdvance (admitSeqnoRun b hw' rest) < 2 ^ 32 := by
      refine Nat.lt_of_le_of_lt ?_ htotal
      exact Nat.le_add_left _ _
    rcases mark_of_call hr hhead with ⟨rfl, hmark, _⟩ | ⟨hadm, _⟩
    · simp only [advancedSeqnos, SeqnoAdmission.isAdvanced, List.filter_cons_of_pos,
        List.map_cons, List.nodup_cons]
      refine ⟨?_, ih htail hrest⟩
      intro hmem
      obtain ⟨k, hk, hle, heq⟩ := advanced_offset htail hmem
      rw [hmark] at heq
      exact add_ofNat_ne_self hk (by omega) heq.symm
    · have hsame : advancedSeqnos (⟨hw, seqno, now, hw', adm⟩ :: admitSeqnoRun b hw' rest) =
          advancedSeqnos (admitSeqnoRun b hw' rest) := by
        simp [advancedSeqnos, hadm]
      rw [hsame]
      exact ih htail hrest

/-- Duplicate suppression over a whole run: each number is admitted at most once,
and the mark moves exactly when, and exactly where, a call is admitted. -/
theorem admitSeqnoRun_suppresses_duplicates (b : SeqnoBands) (hw : HighWater)
    (calls : List (U32 × Duration))
    (hn : NoResync (admitSeqnoRun b hw calls))
    (htotal : totalAdvance (admitSeqnoRun b hw calls) < 2 ^ 32 - b.reorderTolerance) :
    (advancedSeqnos (admitSeqnoRun b hw calls)).Nodup ∧
      ∀ c ∈ admitSeqnoRun b hw calls,
        (c.admission = .advanced → c.after.lastSeqno = c.seqno) ∧
        (c.admission ≠ .advanced → c.after.lastSeqno = c.before.lastSeqno) := by
  refine ⟨advancedSeqnos_nodup hn (by omega), ?_⟩
  intro c hc
  rcases mark_of_call (admitSeqnoRun_call hc) (hn c hc) with ⟨hadv, hmark, _⟩ | ⟨hadm, hmark⟩
  · exact ⟨fun _ => hmark, fun hne => absurd hadv hne⟩
  · refine ⟨?_, fun _ => hmark⟩
    intro hadv
    simp [hadv, SeqnoAdmission.isAdvanced] at hadm

/-- An advance across the wrap, a duplicate, and a watched jump. -/
theorem admitSeqnoRun_suppresses_duplicates_wrap :
    (advancedSeqnos (admitSeqnoRun .broadcast ⟨BitVec.allOnes 32, none⟩
        [(3, 0), (1, 5), (50000, 7), (4, 9)])).Nodup ∧
      ∀ c ∈ admitSeqnoRun .broadcast ⟨BitVec.allOnes 32, none⟩
          [(3, 0), (1, 5), (50000, 7), (4, 9)],
        (c.admission = .advanced → c.after.lastSeqno = c.seqno) ∧
        (c.admission ≠ .advanced → c.after.lastSeqno = c.before.lastSeqno) :=
  admitSeqnoRun_suppresses_duplicates _ _ _ (by unfold NoResync; decide) (by decide)

end Run

end Wayfinder
