import Mathlib.Order.Monotone.Basic
import Wayfinder.Seqno

/-!
# Self-correction of a wrong high-water

A restarted originator sends consecutive numbers; the entry starts from an
arbitrary mark and an arbitrary open watch. A watch rewinds the mark to the
number that opened it, so the frame that trips the deadline is only admitted when
it lies within the window of the opener: at most `window` frames may be sent in
one reset-protection period. A faster originator is rewound to the opener again
and again and is never admitted.
-/

namespace Wayfinder

set_option autoImplicit false

def streamSeqno (s0 : U32) (i : Nat) : U32 := s0 + BitVec.ofNat 32 i

/-- The entry before the `i`-th frame of an originator sending consecutive
numbers from `s0`, the `i`-th of them at `t i`. -/
def streamMark (b : SeqnoBands) (hw : HighWater) (s0 : U32) (t : Nat → Duration) :
    Nat → HighWater
  | 0 => hw
  | i + 1 => (admitSeqno b (streamMark b hw s0 t i) (streamSeqno s0 i) (t i)).1

def streamAdmission (b : SeqnoBands) (hw : HighWater) (s0 : U32) (t : Nat → Duration)
    (i : Nat) : SeqnoAdmission :=
  (admitSeqno b (streamMark b hw s0 t i) (streamSeqno s0 i) (t i)).2

/-- Some frame past the reset-protection period is `Advanced` or `Resynchronised`,
and every frame after it is admitted. -/
def SelfCorrects (b : SeqnoBands) (hw : HighWater) (s0 : U32) (t : Nat → Duration) : Prop :=
  ∃ n, (t 0).asMillis + b.resetProtectionMs ≤ (t n).asMillis ∧
    (streamAdmission b hw s0 t n).highWaterWritten = true ∧
    ∀ k, n < k → (streamAdmission b hw s0 t k).isAdvanced = true

/-- From frame `N` on, at most `window` frames fall into one reset-protection
period, and no pause is long enough to carry a stamp past the half range. -/
structure Calm (b : SeqnoBands) (t : Nat → Duration) (N : Nat) : Prop where
  rate : ∀ i, N ≤ i → (t i).asMillis + b.resetProtectionMs ≤ (t (i + b.window)).asMillis
  pause : ∀ i, N ≤ i → (t (i + 1)).asMillis + b.resetProtectionMs ≤ (t i).asMillis + 2 ^ 31

section Stream
variable {b : SeqnoBands} {hw : HighWater} {s0 : U32} {t : Nat → Duration}

theorem streamSeqno_add (s0 : U32) (i k : Nat) :
    streamSeqno s0 (i + k) = streamSeqno s0 i + BitVec.ofNat 32 k := by
  simp only [streamSeqno, BitVec.ofNat_add, BitVec.add_assoc]

theorem streamMark_step (i : Nat) :
    admitSeqno b (streamMark b hw s0 t i) (streamSeqno s0 i) (t i) =
      (streamMark b hw s0 t (i + 1), streamAdmission b hw s0 t i) := rfl

theorem advanced_of_classify {i : Nat}
    (h : b.classify (streamMark b hw s0 t i).lastSeqno (streamSeqno s0 i) = .advance) :
    (streamAdmission b hw s0 t i).isAdvanced = true := by
  simp [streamAdmission, admitSeqno_of_advance h, SeqnoAdmission.isAdvanced]

theorem advanced_succ (hwin : 0 < b.window) {i : Nat}
    (h : (streamAdmission b hw s0 t i).isAdvanced = true) :
    (streamAdmission b hw s0 t (i + 1)).isAdvanced = true := by
  apply advanced_of_classify
  rw [admitSeqno_isAdvanced (streamMark_step i) h, SeqnoBands.classify_eq_advance_iff,
    streamSeqno_add, Serial.dist_add_self _ _ (by decide)]
  omega

theorem advanced_from (hwin : 0 < b.window) {n k : Nat} (hnk : n ≤ k)
    (h : (streamAdmission b hw s0 t n).isAdvanced = true) :
    (streamAdmission b hw s0 t k).isAdvanced = true := by
  induction k, hnk using Nat.le_induction with
  | base => exact h
  | succ k _ ih => exact advanced_succ hwin ih

theorem dist_succ_of_duplicate {i d : Nat}
    (hd : Serial.dist (streamMark b hw s0 t i).lastSeqno (streamSeqno s0 i) = -(d : Int))
    (htol : d ≤ b.reorderTolerance) :
    Serial.dist (streamMark b hw s0 t (i + 1)).lastSeqno (streamSeqno s0 (i + 1)) = 1 - d := by
  have hdup : b.classify (streamMark b hw s0 t i).lastSeqno (streamSeqno s0 i) = .duplicate :=
    SeqnoBands.classify_eq_duplicate_iff.mpr (by omega)
  have hmark : streamMark b hw s0 t (i + 1) = streamMark b hw s0 t i := by
    rw [streamMark, admitSeqno_of_duplicate hdup]
  rw [hmark, streamSeqno_add, Serial.dist_add _ _ _ (by rw [hd]; omega), hd]
  omega

/-- A duplicate is a frame close behind the mark: the frames after it walk up to
the mark and past it. -/
theorem advanced_of_duplicate (hwin : 0 < b.window) {d i : Nat}
    (hd : Serial.dist (streamMark b hw s0 t i).lastSeqno (streamSeqno s0 i) = -(d : Int))
    (htol : d ≤ b.reorderTolerance) :
    ∃ n, i ≤ n ∧ (streamAdmission b hw s0 t n).isAdvanced = true := by
  induction d generalizing i with
  | zero =>
    have hnext := dist_succ_of_duplicate hd htol
    refine ⟨i + 1, Nat.le_succ i, advanced_of_classify ?_⟩
    rw [SeqnoBands.classify_eq_advance_iff, hnext]
    omega
  | succ d ih =>
    have hnext := dist_succ_of_duplicate hd htol
    obtain ⟨n, hn, hadv⟩ := ih (i := i + 1) (by omega) (by omega)
    exact ⟨n, by omega, hadv⟩

theorem implausible_of_none_advanced (hwin : 0 < b.window) {N k : Nat}
    (hno : ∀ n, N ≤ n → (streamAdmission b hw s0 t n).isAdvanced = false) (hk : N ≤ k) :
    b.classify (streamMark b hw s0 t k).lastSeqno (streamSeqno s0 k) = .implausibleSeqno := by
  cases hc : b.classify (streamMark b hw s0 t k).lastSeqno (streamSeqno s0 k) with
  | implausibleSeqno => rfl
  | advance =>
    have hadv := advanced_of_classify hc
    simp [hno k hk] at hadv
  | duplicate =>
    obtain ⟨hle, hge⟩ := SeqnoBands.classify_eq_duplicate_iff.mp hc
    obtain ⟨d, hd⟩ : ∃ d : Nat,
        Serial.dist (streamMark b hw s0 t k).lastSeqno (streamSeqno s0 k) = -(d : Int) :=
      ⟨_, Int.eq_neg_natAbs_of_nonpos hle⟩
    obtain ⟨n, hn, hadv⟩ := advanced_of_duplicate hwin hd (by omega)
    simp [hno n (by omega)] at hadv

section Locked
variable {N : Nat} (hwin : 0 < b.window)
  (hno : ∀ n, N ≤ n → (streamAdmission b hw s0 t n).isAdvanced = false)
include hwin hno

theorem streamMark_opens (hR : 0 < b.resetProtectionMs) {i : Nat} (hi : N ≤ i)
    (hnone : (streamMark b hw s0 t i).resyncWatch = none) :
    streamMark b hw s0 t (i + 1) =
      ⟨(streamMark b hw s0 t i).lastSeqno,
        some ⟨Millis.fromDuration (t i), streamSeqno s0 i⟩⟩ := by
  have hself : (Millis.fromDuration (t i)).elapsedSince (Millis.fromDuration (t i)) = 0 := by
    simp [Millis.elapsedSince, Serial.elapsed]
  rw [streamMark, admitSeqno, implausible_of_none_advanced hwin hno hi]
  simp [hnone, hself, hR]

theorem streamMark_watches {i j : Nat} (hi : N ≤ i) (hij : i ≤ j) {M : U32}
    {w : SeqnoResyncWatch} (hopen : streamMark b hw s0 t i = ⟨M, some w⟩)
    (hyoung : ∀ k, i ≤ k → k < j →
      (Millis.fromDuration (t k)).elapsedSince w.since < b.resetProtectionMs) :
    streamMark b hw s0 t j = ⟨M, some w⟩ := by
  induction j, hij using Nat.le_induction with
  | base => exact hopen
  | succ j hij ih =>
    have hj := ih fun k hk hlt => hyoung k hk (by omega)
    have himp := implausible_of_none_advanced hwin hno (Nat.le_trans hi hij)
    rw [streamMark, admitSeqno, himp]
    simp [hj, hyoung j hij (Nat.lt_succ_self j)]

theorem streamMark_trips {j : Nat} (hj : N ≤ j) {M : U32} {w : SeqnoResyncWatch}
    (hopen : streamMark b hw s0 t j = ⟨M, some w⟩)
    (hold : b.resetProtectionMs ≤ (Millis.fromDuration (t j)).elapsedSince w.since) :
    b.classify w.seqno (streamSeqno s0 j) ≠ .advance ∧
      streamMark b hw s0 t (j + 1) = ⟨w.seqno, none⟩ := by
  have himp := implausible_of_none_advanced hwin hno hj
  have hlt := Nat.not_lt.mpr hold
  have hne : b.classify w.seqno (streamSeqno s0 j) ≠ .advance := by
    intro hadv
    have hjno := hno j hj
    rw [streamAdmission, admitSeqno, himp] at hjno
    simp [hopen, hlt, hadv, SeqnoAdmission.isAdvanced] at hjno
  refine ⟨hne, ?_⟩
  rw [streamMark, admitSeqno, himp]
  simp [hopen, hlt, hne]

end Locked

theorem first_old {i j0 : Nat} {w : Millis} (hij : i ≤ j0)
    (hold : b.resetProtectionMs ≤ (Millis.fromDuration (t j0)).elapsedSince w) :
    ∃ j, i ≤ j ∧ j ≤ j0 ∧ b.resetProtectionMs ≤ (Millis.fromDuration (t j)).elapsedSince w ∧
      ∀ k, i ≤ k → k < j → (Millis.fromDuration (t k)).elapsedSince w < b.resetProtectionMs := by
  have hex : ∃ j, i ≤ j ∧ b.resetProtectionMs ≤ (Millis.fromDuration (t j)).elapsedSince w :=
    ⟨j0, hij, hold⟩
  refine ⟨Nat.find hex, (Nat.find_spec hex).1, Nat.find_min' hex ⟨hij, hold⟩,
    (Nat.find_spec hex).2, ?_⟩
  intro k hik hk
  have hmin := Nat.find_min hex hk
  omega

section Calm
variable {N : Nat} (hcalm : Calm b t N)
include hcalm

theorem Calm.window_pos (hR : 0 < b.resetProtectionMs) : 0 < b.window := by
  rcases Nat.eq_zero_or_pos b.window with hz | hpos
  · have hrate := hcalm.rate N (Nat.le_refl N)
    rw [hz, Nat.add_zero] at hrate
    omega
  · exact hpos

theorem Calm.unbounded (hR : 0 < b.resetProtectionMs) (K : Nat) :
    ∃ j, N ≤ j ∧ K ≤ (t j).asMillis := by
  induction K with
  | zero => exact ⟨N, Nat.le_refl N, Nat.zero_le _⟩
  | succ K ih =>
    obtain ⟨j, hj, hle⟩ := ih
    have hrate := hcalm.rate j hj
    exact ⟨j + b.window, by omega, by omega⟩

/-- The first frame at or past an instant overshoots it by less than the half
range leaves room for. -/
theorem Calm.first_past (hR : 0 < b.resetProtectionMs) (hhalf : b.resetProtectionMs < 2 ^ 31)
    {K : Nat} (hK : (t N).asMillis ≤ K) :
    ∃ j, N ≤ j ∧ K ≤ (t j).asMillis ∧ (t j).asMillis + b.resetProtectionMs < K + 2 ^ 31 ∧
      ∀ m, N ≤ m → K ≤ (t m).asMillis → j ≤ m := by
  have hex := hcalm.unbounded hR K
  obtain ⟨hj, hle⟩ := Nat.find_spec hex
  refine ⟨Nat.find hex, hj, hle, ?_, fun m hm hKm => Nat.find_min' hex ⟨hm, hKm⟩⟩
  rcases Nat.eq_or_lt_of_le hj with heq | hlt
  · rw [← heq]
    omega
  · obtain ⟨j, hjeq⟩ : ∃ j, Nat.find hex = j + 1 := ⟨Nat.find hex - 1, by omega⟩
    have hmin := Nat.find_min hex (m := j) (by omega)
    have hpause := hcalm.pause j (by omega)
    rw [hjeq]
    omega

/-- No stamp, however old, stays unread: the clock sweeps the whole circle in
steps too short to jump over the readable half. -/
theorem Calm.exists_old (hR : 0 < b.resetProtectionMs) (hhalf : b.resetProtectionMs < 2 ^ 31)
    (w : Millis) :
    ∃ j, N ≤ j ∧ b.resetProtectionMs ≤ (Millis.fromDuration (t j)).elapsedSince w := by
  obtain ⟨a, rfl⟩ : ∃ a, w = ⟨BitVec.ofNat 32 a⟩ := ⟨w.raw.toNat, by simp⟩
  obtain ⟨j, hj, hle, hlt, _⟩ := hcalm.first_past hR hhalf
    (K := a + b.resetProtectionMs + 2 ^ 32 * (t N).asMillis) (by omega)
  refine ⟨j, hj, ?_⟩
  have hmod : ((t j).asMillis - a) % 2 ^ 32 = (t j).asMillis - a - 2 ^ 32 * (t N).asMillis := by
    have hsplit : (t j).asMillis - a =
        (t j).asMillis - a - 2 ^ 32 * (t N).asMillis + 2 ^ 32 * (t N).asMillis := by
      omega
    rw [hsplit, Nat.add_mul_mod_self_left, Nat.mod_eq_of_lt (by omega)]
    omega
  rw [Millis.elapsedSince, Millis.fromDuration, Serial.elapsed_of_mod (by omega) hmod (by omega)]
  omega

theorem Calm.old_in_window (hR : 0 < b.resetProtectionMs)
    (hhalf : b.resetProtectionMs < 2 ^ 31) {i : Nat} (hi : N ≤ i) :
    ∃ j, i < j ∧ j ≤ i + b.window ∧ b.resetProtectionMs ≤
      (Millis.fromDuration (t j)).elapsedSince (Millis.fromDuration (t i)) := by
  have hcalm' : Calm b t i := ⟨fun k hk => hcalm.rate k (by omega),
    fun k hk => hcalm.pause k (by omega)⟩
  obtain ⟨j, hj, hle, hlt, hmin⟩ := hcalm'.first_past hR hhalf
    (K := (t i).asMillis + b.resetProtectionMs) (by omega)
  have hne : i ≠ j := by
    rintro rfl
    omega
  refine ⟨j, by omega, hmin _ (by omega) (hcalm.rate i hi), ?_⟩
  rw [Millis.elapsedSince_fromDuration (by omega) (by omega)]
  omega

theorem Calm.exists_advanced (hR : 0 < b.resetProtectionMs)
    (hhalf : b.resetProtectionMs < 2 ^ 31) (hw : HighWater) (s0 : U32) :
    ∃ n, N ≤ n ∧ (streamAdmission b hw s0 t n).isAdvanced = true := by
  by_contra hcon
  have hno : ∀ n, N ≤ n → (streamAdmission b hw s0 t n).isAdvanced = false := by
    intro n hn
    exact Bool.eq_false_iff.mpr fun hadv => hcon ⟨n, hn, hadv⟩
  have hwin := hcalm.window_pos hR
  -- A watch left over from before trips at some frame, whatever its stamp.
  obtain ⟨i, hi, hnone⟩ : ∃ i, N ≤ i ∧ (streamMark b hw s0 t i).resyncWatch = none := by
    cases hwatch : (streamMark b hw s0 t N).resyncWatch with
    | none => exact ⟨N, Nat.le_refl N, hwatch⟩
    | some w =>
      have hopen : streamMark b hw s0 t N = ⟨(streamMark b hw s0 t N).lastSeqno, some w⟩ := by
        rw [← hwatch]
      obtain ⟨j0, hj0, hold0⟩ := hcalm.exists_old hR hhalf w.since
      obtain ⟨j, hj, _, hold, hyoung⟩ := first_old hj0 hold0
      have hstill := streamMark_watches hwin hno (Nat.le_refl N) hj hopen hyoung
      have htrip := (streamMark_trips hwin hno hj hstill hold).2
      exact ⟨j + 1, by omega, by rw [htrip]⟩
  -- The next watch is opened by frame `i` itself and trips inside the window.
  have hopen := streamMark_opens hwin hno hR hi hnone
  obtain ⟨j0, hij0, hj0w, hold0⟩ := hcalm.old_in_window hR hhalf hi
  obtain ⟨j, hj, hjj0, hold, hyoung⟩ := first_old (i := i + 1) hij0 hold0
  have hstill := streamMark_watches hwin hno (by omega) hj hopen hyoung
  apply (streamMark_trips hwin hno (by omega) hstill hold).1
  obtain ⟨k, rfl⟩ := Nat.exists_eq_add_of_le (Nat.le_of_succ_le hj)
  have hbound := b.window_lt
  rw [SeqnoBands.classify_eq_advance_iff, streamSeqno_add, Serial.dist_add_self _ _ (by omega)]
  omega

theorem Calm.selfCorrects (hR : 0 < b.resetProtectionMs)
    (hhalf : b.resetProtectionMs < 2 ^ 31) (hw : HighWater) (s0 : U32) :
    SelfCorrects b hw s0 t := by
  have hwin := hcalm.window_pos hR
  obtain ⟨n, hn, hadv⟩ := hcalm.exists_advanced hR hhalf hw s0
  have hcalm' : Calm b t n := ⟨fun k hk => hcalm.rate k (by omega),
    fun k hk => hcalm.pause k (by omega)⟩
  obtain ⟨m, hm, hlate⟩ := hcalm'.unbounded hR ((t 0).asMillis + b.resetProtectionMs)
  refine ⟨m, hlate, ?_, fun k hk => advanced_from hwin (by omega) hadv⟩
  have hm' := advanced_from hwin hm hadv
  cases hma : streamAdmission b hw s0 t m <;>
    simp_all [SeqnoAdmission.isAdvanced, SeqnoAdmission.highWaterWritten]

end Calm

/-! ### Originators that are too fast -/

/-- A cycle of the lock-out: no watch is open, and the mark is out of band for the
next `L + 1` frames. -/
def LockedAt (b : SeqnoBands) (hw : HighWater) (s0 : U32) (t : Nat → Duration) (L i : Nat) :
    Prop :=
  (streamMark b hw s0 t i).resyncWatch = none ∧
    ∀ r, r ≤ L → b.classify (streamMark b hw s0 t i).lastSeqno (streamSeqno s0 (i + r)) =
      .implausibleSeqno

theorem classify_beyond_window {s : U32} {k : Nat} (hlo : b.window < k) (hhi : k < 2 ^ 31) :
    b.classify s (s + BitVec.ofNat 32 k) = .implausibleSeqno := by
  have hd := Serial.dist_add_self s k (by omega)
  simp only [SeqnoBands.classify, hd]
  rw [if_neg (by omega), if_neg (by omega)]

section Cycle
variable {L : Nat} (hL : b.window < L) (hbound : 2 * L + 1 < 2 ^ 31)
  (hyoung : ∀ i r, r < L → (Millis.fromDuration (t (i + r))).elapsedSince
    (Millis.fromDuration (t i)) < b.resetProtectionMs)
  (hold : ∀ i, b.resetProtectionMs ≤
    (Millis.fromDuration (t (i + L))).elapsedSince (Millis.fromDuration (t i)))
include hyoung

theorem LockedAt.watching {i : Nat} (h : LockedAt b hw s0 t L i) {r : Nat} (hr : r < L) :
    streamMark b hw s0 t (i + (r + 1)) = ⟨(streamMark b hw s0 t i).lastSeqno,
        some ⟨Millis.fromDuration (t i), streamSeqno s0 i⟩⟩ ∧
      streamAdmission b hw s0 t (i + r) = .watching := by
  induction r with
  | zero =>
    have hc := h.2 0 (Nat.zero_le _)
    have hy := hyoung i 0 hr
    rw [Nat.add_zero] at hc hy
    have hstep : admitSeqno b (streamMark b hw s0 t i) (streamSeqno s0 i) (t i) =
        (⟨(streamMark b hw s0 t i).lastSeqno,
          some ⟨Millis.fromDuration (t i), streamSeqno s0 i⟩⟩, .watching) := by
      rw [admitSeqno, hc]
      simp [h.1, hy]
    exact ⟨congrArg Prod.fst hstep, congrArg Prod.snd hstep⟩
  | succ r ih =>
    obtain ⟨hmark, _⟩ := ih (by omega)
    have hc := h.2 (r + 1) (by omega)
    have hy := hyoung i (r + 1) hr
    have hstep : admitSeqno b (streamMark b hw s0 t (i + (r + 1)))
        (streamSeqno s0 (i + (r + 1))) (t (i + (r + 1))) =
        (⟨(streamMark b hw s0 t i).lastSeqno,
          some ⟨Millis.fromDuration (t i), streamSeqno s0 i⟩⟩, .watching) := by
      rw [admitSeqno, hmark, hc]
      simp [hy]
    exact ⟨congrArg Prod.fst hstep, congrArg Prod.snd hstep⟩

include hL hbound hold

/-- The frame that trips the watch has already left the opener's window, so the
mark is rewound to the opener and the cycle starts again. -/
theorem LockedAt.trip {i : Nat} (h : LockedAt b hw s0 t L i) :
    LockedAt b hw s0 t L (i + (L + 1)) ∧
      (streamAdmission b hw s0 t (i + L)).isAdvanced = false := by
  obtain ⟨l, rfl⟩ : ∃ l, L = l + 1 := ⟨L - 1, by omega⟩
  have hmark := (h.watching hyoung (Nat.lt_succ_self l)).1
  have hc := h.2 (l + 1) (Nat.le_refl _)
  have hverdict : b.classify (streamSeqno s0 i) (streamSeqno s0 (i + (l + 1))) =
      .implausibleSeqno := by
    rw [streamSeqno_add]
    exact classify_beyond_window hL (by omega)
  have hstep : admitSeqno b (streamMark b hw s0 t (i + (l + 1)))
      (streamSeqno s0 (i + (l + 1))) (t (i + (l + 1))) =
      (⟨streamSeqno s0 i, none⟩, .resynchronised .implausibleSeqno) := by
    rw [admitSeqno, hmark, hc]
    simp [Nat.not_lt.mpr (hold i), hverdict]
  have hnext : streamMark b hw s0 t (i + (l + 1 + 1)) = ⟨streamSeqno s0 i, none⟩ :=
    congrArg Prod.fst hstep
  refine ⟨⟨by rw [hnext], ?_⟩, ?_⟩
  · intro r hr
    rw [hnext, Nat.add_assoc, streamSeqno_add]
    exact classify_beyond_window (by omega) (by omega)
  · rw [streamAdmission, hstep]
    rfl

theorem LockedAt.forever (h : LockedAt b hw s0 t L 0) (q : Nat) :
    LockedAt b hw s0 t L (q * (L + 1)) := by
  induction q with
  | zero => simpa using h
  | succ q ih =>
    rw [Nat.succ_mul]
    exact (ih.trip hL hbound hyoung hold).1

theorem LockedAt.never_advanced (h : LockedAt b hw s0 t L 0) (n : Nat) :
    (streamAdmission b hw s0 t n).isAdvanced = false := by
  have hcycle := h.forever hL hbound hyoung hold (n / (L + 1))
  have hn : n = n / (L + 1) * (L + 1) + n % (L + 1) := by
    rw [Nat.mul_comm]
    exact (Nat.div_add_mod n (L + 1)).symm
  have hr : n % (L + 1) < L + 1 := Nat.mod_lt _ (Nat.succ_pos L)
  rw [hn]
  rcases Nat.lt_or_ge (n % (L + 1)) L with hlt | hge
  · rw [(hcycle.watching hyoung hlt).2]
    rfl
  · have heq : n % (L + 1) = L := by omega
    rw [heq]
    exact (hcycle.trip hL hbound hyoung hold).2

end Cycle

end Stream

/-! ### Steady originators -/

def steady (start : Duration) (p : Nat) (i : Nat) : Duration := start + Duration.ofMillis (p * i)

theorem steady_asMillis (start : Duration) (p i : Nat) :
    (steady start p i).asMillis = start.asMillis + p * i := by
  simp only [steady, Duration.asMillis, Duration.ofMillis]
  omega

theorem steady_monotone (start : Duration) (p : Nat) : Monotone (steady start p) := by
  intro i j hij
  have hmul : p * i ≤ p * j := Nat.mul_le_mul_left p hij
  exact Nat.add_le_add_left (Nat.mul_le_mul_right _ hmul) start

section Steady
variable {b : SeqnoBands} {start : Duration} {p : Nat}

theorem steady_elapsed (i : Nat) {r : Nat} (h : p * r < 2 ^ 31) :
    (Millis.fromDuration (steady start p (i + r))).elapsedSince
      (Millis.fromDuration (steady start p i)) = p * r := by
  have hsum : p * (i + r) = p * i + p * r := Nat.mul_add p i r
  rw [Millis.elapsedSince_fromDuration] <;> simp only [steady_asMillis] <;> omega

theorem steady_calm (hpause : p + b.resetProtectionMs ≤ 2 ^ 31)
    (hrate : b.resetProtectionMs ≤ b.window * p) : Calm b (steady start p) 0 := by
  constructor
  · intro i _
    have hsum : p * (i + b.window) = p * i + b.window * p := by
      rw [Nat.mul_add, Nat.mul_comm p b.window]
    simp only [steady_asMillis]
    omega
  · intro i _
    have hsum : p * (i + 1) = p * i + p := Nat.mul_succ p i
    simp only [steady_asMillis]
    omega

/-- Half the circle away from the first number: out of band for as long as a
cycle lasts. -/
theorem lockedAt_opposite {L : Nat} {s0 : U32} {t : Nat → Duration}
    (hsum : b.reorderTolerance + L < 2 ^ 31) :
    LockedAt b ⟨s0 + BitVec.ofNat 32 (2 ^ 31), none⟩ s0 t L 0 := by
  refine ⟨rfl, ?_⟩
  intro r hr
  have hhalf : Serial.dist (s0 + BitVec.ofNat 32 (2 ^ 31)) s0 = -(2 ^ 31 : Int) := by
    rw [Serial.dist, sub_add_cancel_left]
    decide
  have hd := Serial.dist_add (s0 + BitVec.ofNat 32 (2 ^ 31)) s0 r (by rw [hhalf]; omega)
  rw [hhalf] at hd
  simp only [streamMark, streamSeqno, Nat.zero_add, SeqnoBands.classify, hd]
  rw [if_neg (by omega), if_neg (by omega)]

/-- Faster than `window` frames in a reset-protection period, an originator half
a circle away is never admitted. -/
theorem steady_never_advanced (start : Duration) (hp : 0 < p) (hpause : p + b.resetProtectionMs ≤ 2 ^ 31)
    (hR : b.resetProtectionMs + b.reorderTolerance < 2 ^ 30)
    (hfast : b.window * p < b.resetProtectionMs) (s0 : U32) (n : Nat) :
    (streamAdmission b ⟨s0 + BitVec.ofNat 32 (2 ^ 31), none⟩ s0 (steady start p) n).isAdvanced =
      false := by
  -- `L` is the number of frames a watch lasts.
  obtain ⟨l, hl⟩ : ∃ l, l = (b.resetProtectionMs - 1) / p := ⟨_, rfl⟩
  have hdiv := Nat.div_add_mod (b.resetProtectionMs - 1) p
  have hmod := Nat.mod_lt (b.resetProtectionMs - 1) hp
  rw [← hl] at hdiv
  have hsucc : p * (l + 1) = p * l + p := Nat.mul_succ p l
  have hlR : l ≤ p * l := Nat.le_mul_of_pos_left l hp
  have hwin : b.window < l + 1 := by
    apply Nat.lt_of_mul_lt_mul_left (a := p)
    rw [Nat.mul_comm p b.window]
    omega
  apply LockedAt.never_advanced hwin (by omega) _ _ (lockedAt_opposite (by omega))
  · intro i r hr
    have hmul : p * r ≤ p * l := Nat.mul_le_mul_left p (by omega)
    rw [steady_elapsed i (by omega)]
    omega
  · intro i
    rw [steady_elapsed i (by omega)]
    omega

end Steady

theorem not_selfCorrects_of_never_advanced {b : SeqnoBands} {hw : HighWater} {s0 : U32}
    {t : Nat → Duration} (h : ∀ n, (streamAdmission b hw s0 t n).isAdvanced = false) :
    ¬ SelfCorrects b hw s0 t := by
  rintro ⟨n, _, _, hlater⟩
  have hadv := hlater (n + 1) (Nat.lt_succ_self n)
  simp [h (n + 1)] at hadv

/-- Self-correction, for both band sets: it holds from every mark and watch and
for every starting number as soon as the originator is calm from some frame on;
and for a steady originator that bound on the rate is exact. -/
theorem stream_selfCorrects_of_calm (b : SeqnoBands) (hb : b = .broadcast ∨ b = .ogm) :
    (∀ t : Nat → Duration, (∃ N, Calm b t N) → ∀ hw s0, SelfCorrects b hw s0 t) ∧
      ∀ start p, 0 < p → p + b.resetProtectionMs ≤ 2 ^ 31 →
        ((∀ hw s0, SelfCorrects b hw s0 (steady start p)) ↔
          b.resetProtectionMs ≤ b.window * p) := by
  have hR : b.resetProtectionMs = 30000 := by rcases hb with rfl | rfl <;> rfl
  have htol : b.reorderTolerance ≤ 64 := by rcases hb with rfl | rfl <;> decide
  have hcorrects : ∀ t : Nat → Duration, (∃ N, Calm b t N) → ∀ hw s0, SelfCorrects b hw s0 t := by
    rintro t ⟨N, hcalm⟩ hw s0
    exact hcalm.selfCorrects (by omega) (by omega) hw s0
  refine ⟨hcorrects, ?_⟩
  intro start p hp hpause
  constructor
  · intro hall
    by_contra hfast
    have hnever := steady_never_advanced start hp hpause (by omega) (by omega) 0
    exact not_selfCorrects_of_never_advanced hnever (hall _ _)
  · intro hrate
    exact hcorrects _ ⟨0, steady_calm hpause hrate⟩

theorem stream_selfCorrects_of_calm_30ms :
    SelfCorrects .broadcast ⟨BitVec.ofNat 32 (2 ^ 31), none⟩ 0 (steady 0 30) :=
  ((stream_selfCorrects_of_calm .broadcast (Or.inl rfl)).2 0 30 (by decide) (by decide)).mpr
    (by decide) _ _

/-- A broadcast every 29 ms is not: the restarted originator is locked out for good. -/
theorem stream_locked_out_29ms :
    Monotone (steady 0 29) ∧
      ¬ SelfCorrects .broadcast ⟨BitVec.ofNat 32 (2 ^ 31), none⟩ 0 (steady 0 29) := by
  refine ⟨steady_monotone 0 29, ?_⟩
  have hnever := steady_never_advanced (b := .broadcast) (p := 29) 0 (by decide) (by decide)
    (by decide) (by decide) 0
  exact not_selfCorrects_of_never_advanced hnever

end Wayfinder
