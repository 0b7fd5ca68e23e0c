import Wayfinder.Auth.Steps

/-!
# The requests a node waits for

A fingerprint that cannot be resolved makes a row of the bounded table of requests in
flight. A row goes when a clock finds its attempts used up, and an attempt is used only
when the originator is heard again: what is never heard again keeps its row. So the table
is reclaimed exactly where an originator falls silent no earlier than after its last
attempt.
-/

namespace Wayfinder

set_option autoImplicit false

open Table

inductive FetchOp where
  | heard (orig : Mac) (fp : Octets 8) (firstHop : Mac) (bufLen : Nat)
  | setTime (now : Duration) (wall : Clocked)

def InFlightCertRequest.lastRequest (r : InFlightCertRequest) : Duration :=
  r.nextAttempt - certRequestRetry

namespace OgmAuth

variable {c : AuthCapacities}

def fetchStep (k : Crypto) (s : OgmAuth c) : FetchOp → OgmAuth c
  | .heard orig fp firstHop bufLen => (s.buildCertRequest k orig fp firstHop bufLen).1
  | .setTime now wall => s.setTime now wall

def requested (s : OgmAuth c) : FetchOp → Option Mac
  | .heard orig fp firstHop _ =>
    if (s.trackCertRequest orig fp firstHop).2 then some orig else none
  | .setTime _ _ => none

def NowForward (s : OgmAuth c) : FetchOp → Prop
  | .heard _ _ _ _ => True
  | .setTime now _ => s.now ≤ now

instance (s : OgmAuth c) (op : FetchOp) : Decidable (s.NowForward op) :=
  match op with
  | .heard _ _ _ _ => .isTrue trivial
  | .setTime now _ => inferInstanceAs (Decidable (s.now ≤ now))

/-- The entry is in the table after `pre`, its originator is not requested in `post`, and
then its last request lies `bound` back. -/
structure Abandoned (k : Crypto) (bound : Duration) (s : OgmAuth c) (pre post : List FetchOp)
    (entry : InFlightCertRequest) : Prop where
  held : entry ∈ (Run.run (fetchStep k) s pre).inFlight.toList
  unheard : entry.orig ∉ Run.trace (fetchStep k) requested (Run.run (fetchStep k) s pre) post
  old : entry.lastRequest + bound ≤ (Run.run (fetchStep k) s (pre ++ post)).now

/-- All along the run, an abandoned entry is gone. -/
def Reclaims (k : Crypto) (bound : Duration) (s : OgmAuth c) (ops : List FetchOp) : Prop :=
  ∀ pre post entry, pre ++ post <+: ops → Abandoned k bound s pre post entry →
    ∀ entry' ∈ (Run.run (fetchStep k) s (pre ++ post)).inFlight.toList, entry'.orig ≠ entry.orig

/-- Wherever only clocks were set for that long, a request for any originator is built. -/
def FetchesAgain (k : Crypto) (bound : Duration) (s : OgmAuth c) (ops : List FetchOp) : Prop :=
  ∀ pre (quiet : List (Duration × Clocked)),
    pre ++ quiet.map (fun t => FetchOp.setTime t.1 t.2) <+: ops →
      let s₁ := Run.run (fetchStep k) s pre
      let s₂ := Run.run (fetchStep k) s₁ (quiet.map fun t => .setTime t.1 t.2)
      s₁.now + bound ≤ s₂.now → ∀ orig fp firstHop bufLen,
        MembershipCert.size + sigLen ≤ bufLen →
          (s₂.buildCertRequest k orig fp firstHop bufLen).2.isSome

/-- An originator falls silent for the bound only after its last attempt. -/
def SilentOnlyExhausted (k : Crypto) (bound : Duration) (s : OgmAuth c) (ops : List FetchOp) :
    Prop :=
  ∀ pre post entry, pre ++ post <+: ops → Abandoned k bound s pre post entry →
    maxCertRequestAttempts ≤ entry.attempts

/-! ### One step -/

def askFor (s : OgmAuth c) (entry : InFlightCertRequest) : OgmAuth c :=
  { s with inFlight := s.inFlight.put entry fun _ => none }

section Step
variable {k : Crypto} {s : OgmAuth c} {entry : InFlightCertRequest}

theorem buildCertRequest_fst (orig : Mac) (fp : Octets 8) (firstHop : Mac) (bufLen : Nat) :
    (s.buildCertRequest k orig fp firstHop bufLen).1 = (s.trackCertRequest orig fp firstHop).1 := by
  unfold buildCertRequest
  generalize s.trackCertRequest orig fp firstHop = tracked
  obtain ⟨s₁, _ | _⟩ := tracked
  · rfl
  · rfl

/-- All that hearing an originator can do: nothing, when its row bars it or the table is
full; else one more attempt under its row, or a first one in a new row. -/
theorem trackCertRequest_cases (s : OgmAuth c) (orig : Mac) (fp : Octets 8) (firstHop : Mac) :
    (s.trackCertRequest orig fp firstHop).2 = false ∧
        (s.trackCertRequest orig fp firstHop).1.inFlight.toList = s.inFlight.toList ∧
        (s.trackCertRequest orig fp firstHop).1.now = s.now ∨
      ∃ attempts, attempts < maxCertRequestAttempts ∧
        s.trackCertRequest orig fp firstHop =
          (s.askFor ⟨orig, fp, firstHop, attempts + 1, s.now + certRequestRetry⟩, true) ∧
        ((∃ row ∈ s.inFlight.toList, row.orig = orig) ∨
          s.inFlight.toList.length < c.maxInFlightCertRequests) := by
  unfold trackCertRequest
  cases hfind : s.inFlight.find? orig with
  | none =>
    dsimp only
    split
    · rename_i hroom
      exact Or.inr ⟨0, by decide, rfl, Or.inr hroom⟩
    · exact Or.inl ⟨rfl, rfl, rfl⟩
  | some row =>
    obtain ⟨hrow, horig⟩ := KeyedVec.find?_eq_some_iff.mp hfind
    dsimp only
    by_cases hfp : row.fp = fp
    · rw [if_neg (not_not.mpr hfp)]
      split
      · refine Or.inl ⟨rfl, ?_, rfl⟩
        exact KeyedVec.toList_put_self hrow
      · rename_i hopen
        refine Or.inr ⟨row.attempts, by omega, ?_, Or.inl ⟨row, hrow, horig⟩⟩
        rw [← hfp, ← horig]
        rfl
    · rw [if_pos hfp]
      dsimp only
      rw [if_neg (by simp [maxCertRequestAttempts])]
      refine Or.inr ⟨0, by decide, ?_, Or.inl ⟨row, hrow, horig⟩⟩
      rw [← horig]
      rfl

theorem setTime_now (now : Duration) (wall : Clocked) : (s.setTime now wall).now = now := by
  obtain ⟨_, _, _, heq⟩ := s.setTime_frame now wall
  rw [heq]
  rfl

theorem mem_inFlight_setTime {now : Duration} {wall : Clocked} :
    entry ∈ (s.setTime now wall).inFlight.toList ↔
      entry ∈ s.inFlight.toList ∧ entry.attempts < maxCertRequestAttempts := by
  obtain ⟨_, _, _, heq⟩ := s.setTime_frame now wall
  rw [heq]
  refine KeyedVec.mem_retain.trans ?_
  rw [decide_eq_true_eq]

theorem heard_now (orig : Mac) (fp : Octets 8) (firstHop : Mac) (bufLen : Nat) :
    (s.fetchStep k (.heard orig fp firstHop bufLen)).now = s.now := by
  rw [fetchStep, buildCertRequest_fst]
  rcases trackCertRequest_cases s orig fp firstHop with ⟨_, _, hnow⟩ | ⟨_, _, heq, _⟩
  · exact hnow
  · rw [heq]
    rfl

theorem mem_heard_of_unrequested {orig : Mac} {fp : Octets 8} {firstHop : Mac} {bufLen : Nat}
    (h : s.requested (.heard orig fp firstHop bufLen) ≠ some entry.orig) :
    entry ∈ (s.fetchStep k (.heard orig fp firstHop bufLen)).inFlight.toList ↔
      entry ∈ s.inFlight.toList := by
  rw [fetchStep, buildCertRequest_fst]
  rw [requested] at h
  rcases trackCertRequest_cases s orig fp firstHop with ⟨_, hsame, _⟩ | ⟨_, _, heq, hfits⟩
  · rw [hsame]
  · rw [heq] at h ⊢
    have hother : entry.orig ≠ orig := by
      intro heq'
      exact h (by rw [heq']; rfl)
    refine (KeyedVec.mem_put_iff (x := (_ : InFlightCertRequest)) hfits).trans ?_
    constructor
    · rintro (rfl | ⟨hmem, _⟩)
      · exact absurd rfl hother
      · exact hmem
    · intro hmem
      exact Or.inr ⟨hmem, hother⟩

end Step

/-! ### Runs in which an originator is not requested -/

section Silence
variable {k : Crypto} {s : OgmAuth c} {entry : InFlightCertRequest} {ops : List FetchOp}

theorem survives_silence (hentry : entry ∈ s.inFlight.toList)
    (hleft : entry.attempts < maxCertRequestAttempts)
    (hsilent : entry.orig ∉ Run.trace (fetchStep k) requested s ops) :
    entry ∈ (Run.run (fetchStep k) s ops).inFlight.toList := by
  induction ops generalizing s with
  | nil => exact hentry
  | cons op ops ih =>
    rw [Run.trace, List.mem_append, not_or] at hsilent
    obtain ⟨hnow, hlater⟩ := hsilent
    apply ih _ hlater
    cases op with
    | heard orig fp firstHop bufLen =>
      apply (mem_heard_of_unrequested _).mpr hentry
      intro hrequested
      exact hnow (Option.mem_toList.mpr hrequested)
    | setTime now wall => exact mem_inFlight_setTime.mpr ⟨hentry, hleft⟩

theorem absent_in_silence {orig : Mac} (habsent : ∀ e ∈ s.inFlight.toList, e.orig ≠ orig)
    (hsilent : orig ∉ Run.trace (fetchStep k) requested s ops) :
    ∀ e ∈ (Run.run (fetchStep k) s ops).inFlight.toList, e.orig ≠ orig := by
  induction ops generalizing s with
  | nil => exact habsent
  | cons op ops ih =>
    rw [Run.trace, List.mem_append, not_or] at hsilent
    obtain ⟨hnow, hlater⟩ := hsilent
    refine ih ?_ hlater
    intro e he horig
    cases op with
    | heard orig' fp firstHop bufLen =>
      apply habsent e ?_ horig
      apply (mem_heard_of_unrequested _).mp he
      intro hrequested
      rw [horig] at hrequested
      exact hnow (Option.mem_toList.mpr hrequested)
    | setTime now wall => exact habsent e (mem_inFlight_setTime.mp he).1 horig

theorem exhausted_in_silence (hentry : entry ∈ s.inFlight.toList)
    (hspent : maxCertRequestAttempts ≤ entry.attempts)
    (hsilent : entry.orig ∉ Run.trace (fetchStep k) requested s ops) :
    (Run.run (fetchStep k) s ops).now = s.now ∨
      ∀ e ∈ (Run.run (fetchStep k) s ops).inFlight.toList, e.orig ≠ entry.orig := by
  induction ops generalizing s with
  | nil => exact Or.inl rfl
  | cons op ops ih =>
    rw [Run.trace, List.mem_append, not_or] at hsilent
    obtain ⟨hnow, hlater⟩ := hsilent
    cases op with
    | heard orig fp firstHop bufLen =>
      have hstays : entry ∈ (s.fetchStep k (.heard orig fp firstHop bufLen)).inFlight.toList := by
        apply (mem_heard_of_unrequested _).mpr hentry
        intro hrequested
        exact hnow (Option.mem_toList.mpr hrequested)
      rw [← heard_now (k := k) (s := s) orig fp firstHop bufLen]
      exact ih hstays hlater
    | setTime now wall =>
      have hgone : ∀ e ∈ (s.setTime now wall).inFlight.toList, e.orig ≠ entry.orig := by
        intro e he horig
        obtain ⟨hold, hleft⟩ := mem_inFlight_setTime.mp he
        obtain rfl := KeyedVec.eq_of_key hold hentry horig
        exact Nat.not_lt.mpr hspent hleft
      exact Or.inr (absent_in_silence (s := s.setTime now wall) hgone hlater)

end Silence

/-! ### Whole runs -/

/-- What the rows of a node say about its clock. -/
structure Booked (s : OgmAuth c) : Prop where
  past : ∀ entry ∈ s.inFlight.toList, entry.nextAttempt ≤ s.now + certRequestRetry
  exhausted : ∀ entry ∈ s.inFlight.toList, maxCertRequestAttempts ≤ entry.attempts →
    entry.nextAttempt = s.now + certRequestRetry

section Runs
variable {k : Crypto} {s : OgmAuth c} {bound : Duration} {ops : List FetchOp}

theorem Booked.step (h : s.Booked) {op : FetchOp} (hforward : s.NowForward op) :
    (s.fetchStep k op).Booked := by
  cases op with
  | heard orig fp firstHop bufLen =>
    have hnow := heard_now (k := k) (s := s) orig fp firstHop bufLen
    rw [fetchStep, buildCertRequest_fst] at hnow ⊢
    rcases trackCertRequest_cases s orig fp firstHop with ⟨_, hsame, _⟩ | ⟨_, _, heq, hfits⟩
    · constructor
      · intro entry hentry
        rw [hsame] at hentry
        rw [hnow]
        exact h.past entry hentry
      · intro entry hentry
        rw [hsame] at hentry
        rw [hnow]
        exact h.exhausted entry hentry
    · rw [heq]
      constructor
      · intro entry hentry
        rcases KeyedVec.mem_put hentry with rfl | ⟨hold, _⟩
        · exact Nat.le_refl _
        · exact h.past entry hold
      · intro entry hentry hspent
        rcases KeyedVec.mem_put hentry with rfl | ⟨hold, _⟩
        · rfl
        · exact h.exhausted entry hold hspent
  | setTime now wall =>
    rw [fetchStep]
    constructor
    · intro entry hentry
      rw [setTime_now]
      exact (h.past entry (mem_inFlight_setTime.mp hentry).1).trans
        (Nat.add_le_add_right hforward _)
    · intro entry hentry hspent
      exact absurd (mem_inFlight_setTime.mp hentry).2 (Nat.not_lt.mpr hspent)

theorem booked_run (hfresh : s.inFlight = .empty)
    (hforward : Run.AllSafe (fetchStep k) NowForward s ops) {pre : List FetchOp}
    (hpre : pre <+: ops) : (Run.run (fetchStep k) s pre).Booked := by
  refine Run.allGood_of_allSafe ?_ (fun _ _ h hsafe => h.step hsafe) hforward pre hpre
  constructor
  · intro entry hentry
    rw [hfresh] at hentry
    cases hentry
  · intro entry hentry
    rw [hfresh] at hentry
    cases hentry

theorem reclaims_of_exhausted (hfresh : s.inFlight = .empty) (hbound : 0 < bound)
    (hforward : Run.AllSafe (fetchStep k) NowForward s ops)
    (h : SilentOnlyExhausted k bound s ops) : Reclaims k bound s ops := by
  intro pre post entry hpre habandoned
  have hspent := h pre post entry hpre habandoned
  have hbooked := booked_run hfresh hforward ((List.prefix_append pre post).trans hpre)
  have hnext := hbooked.exhausted entry habandoned.held hspent
  have hold := habandoned.old
  rw [Run.run_append] at hold ⊢
  apply (exhausted_in_silence habandoned.held hspent habandoned.unheard).resolve_left
  intro hsame
  rw [hsame, InFlightCertRequest.lastRequest, hnext, Nat.add_sub_cancel] at hold
  exact Nat.not_lt.mpr hold (Nat.lt_add_of_pos_right hbound)

theorem exhausted_of_reclaims (h : Reclaims k bound s ops) :
    SilentOnlyExhausted k bound s ops := by
  intro pre post entry hpre habandoned
  by_contra hleft
  apply h pre post entry hpre habandoned entry ?_ rfl
  rw [Run.run_append]
  exact survives_silence habandoned.held (Nat.not_le.mp hleft) habandoned.unheard

theorem mem_of_mem_quiet {quiet : List (Duration × Clocked)} {entry : InFlightCertRequest}
    (h : entry ∈ (Run.run (fetchStep k) s
      (quiet.map fun t => .setTime t.1 t.2)).inFlight.toList) : entry ∈ s.inFlight.toList := by
  induction quiet generalizing s with
  | nil => exact h
  | cons t quiet ih => exact (mem_inFlight_setTime.mp (ih h)).1

theorem trace_quiet (quiet : List (Duration × Clocked)) :
    Run.trace (fetchStep k) requested s (quiet.map fun t => FetchOp.setTime t.1 t.2) = [] := by
  induction quiet generalizing s with
  | nil => rfl
  | cons t quiet ih => exact ih

theorem buildCertRequest_of_empty (hempty : s.inFlight.toList = [])
    (hroom : 0 < c.maxInFlightCertRequests) {orig : Mac} {fp : Octets 8} {firstHop : Mac}
    {bufLen : Nat} (hlen : MembershipCert.size + sigLen ≤ bufLen) :
    (s.buildCertRequest k orig fp firstHop bufLen).2.isSome := by
  have hnone : s.inFlight.find? orig = none := by
    rw [KeyedVec.find?, hempty]
    rfl
  have htrack : (s.trackCertRequest orig fp firstHop).2 = true := by
    rw [trackCertRequest, hnone, hempty]
    dsimp only
    rw [List.length_nil, if_pos hroom]
  unfold buildCertRequest
  generalize s.trackCertRequest orig fp firstHop = tracked at htrack
  obtain ⟨s₁, sent⟩ := tracked
  obtain rfl : sent = true := htrack
  dsimp only
  rw [if_pos]
  · rfl
  · rw [List.length_append, MembershipCert.asBytes_length, Octets.length_eq]
    exact hlen

theorem fetchesAgain_of_reclaims (hfresh : s.inFlight = .empty)
    (hroom : 0 < c.maxInFlightCertRequests)
    (hforward : Run.AllSafe (fetchStep k) NowForward s ops) (h : Reclaims k bound s ops) :
    FetchesAgain k bound s ops := by
  intro pre quiet hpre s₁ s₂ helapsed orig fp firstHop bufLen hlen
  apply buildCertRequest_of_empty _ hroom hlen
  apply List.eq_nil_iff_forall_not_mem.mpr
  intro entry hentry
  have hheld : entry ∈ s₁.inFlight.toList := mem_of_mem_quiet hentry
  have hbooked := booked_run hfresh hforward ((List.prefix_append pre _).trans hpre)
  refine h pre _ entry hpre ⟨hheld, ?_, ?_⟩ entry ?_ rfl
  · rw [trace_quiet]
    exact List.not_mem_nil
  · rw [Run.run_append]
    have hpast := hbooked.past entry hheld
    refine Nat.le_trans ?_ helapsed
    apply Nat.add_le_add_right
    exact Nat.sub_le_iff_le_add.mpr hpast
  · rw [Run.run_append]
    exact hentry

/-- The requests in flight are reclaimed within a bound, and fetching recovers after it,
exactly in the runs in which an originator falls silent for the bound only after its last
attempt. -/
theorem reclaims_iff (k : Crypto) (s : OgmAuth c) (hfresh : s.inFlight = .empty)
    (hroom : 0 < c.maxInFlightCertRequests) (bound : Duration) (hbound : 0 < bound)
    (ops : List FetchOp) (hforward : Run.AllSafe (fetchStep k) NowForward s ops) :
    Reclaims k bound s ops ∧ FetchesAgain k bound s ops ↔ SilentOnlyExhausted k bound s ops := by
  constructor
  · rintro ⟨h, _⟩
    exact exhausted_of_reclaims h
  · intro h
    have hreclaims := reclaims_of_exhausted hfresh hbound hforward h
    exact ⟨hreclaims, fetchesAgain_of_reclaims hfresh hroom hforward hreclaims⟩

end Runs

end OgmAuth

namespace SmallMesh
open OgmAuth

def unknownFp : Octets 8 := .be 8 0x1122334455667788

/-- Two originators are heard once, and never again. -/
def heardOnce : List FetchOp :=
  [.heard mac2 unknownFp mac2 300, .heard cert4.nodeMac unknownFp mac2 300]

def entryOf2 : InFlightCertRequest := ⟨mac2, unknownFp, mac2, 1, certRequestRetry⟩

theorem entryOf2_held :
    entryOf2 ∈ (Run.run (fetchStep crypto) (node3 0) heardOnce).inFlight.toList :=
  List.mem_cons_self

/-- No bound will do: two originators heard once fill a table of two rows for good, and a
year later there is no request for a third. -/
theorem heardOnce_blocks_fetching :
    (¬ ∃ bound, 0 < bound ∧ ∀ ops, Run.AllSafe (fetchStep crypto) NowForward (node3 0) ops →
        Reclaims crypto bound (node3 0) ops ∧ FetchesAgain crypto bound (node3 0) ops) ∧
      ((Run.run (fetchStep crypto) (node3 0)
          (heardOnce ++ [.setTime (Duration.ofSecs 31536000) .unknown])).buildCertRequest crypto
        ⟨0x5a, 0x12, 0xab, 0xa1, 0x42, 0xc1⟩ unknownFp mac2 300).2 = none := by
  constructor
  · rintro ⟨bound, _, h⟩
    have hforward : Run.AllSafe (fetchStep crypto) NowForward (node3 0)
        (heardOnce ++ [.setTime bound .unknown]) := by
      unfold heardOnce
      rw [List.cons_append, List.cons_append, List.nil_append, Run.allSafe_cons,
        Run.allSafe_cons, Run.allSafe_cons]
      exact ⟨trivial, trivial, Nat.zero_le _, Run.allSafe_nil⟩
    have hspent := exhausted_of_reclaims (h _ hforward).1 heardOnce [.setTime bound .unknown]
      entryOf2 List.prefix_rfl
    have hleft : ¬ maxCertRequestAttempts ≤ entryOf2.attempts := by decide
    apply hleft
    apply hspent
    refine ⟨entryOf2_held, List.not_mem_nil, ?_⟩
    rw [Run.run_append_singleton, fetchStep, setTime_now]
    exact Nat.le_of_eq (Nat.zero_add bound)
  · decide +kernel

/-- An originator heard for as long as it takes, six attempts five seconds apart, and then no
more. -/
def heardOut : List FetchOp :=
  (List.range maxCertRequestAttempts).flatMap (fun n =>
    [.heard mac2 unknownFp mac2 300, .setTime (certRequestRetry * (n + 1)) .unknown]) ++
      [.setTime (Duration.ofSecs 120) .unknown]

deriving instance DecidableEq for InFlightCertRequest

def lastEntryOf2 : InFlightCertRequest :=
  ⟨mac2, unknownFp, mac2, maxCertRequestAttempts, Duration.ofSecs 30⟩

theorem lastEntryOf2_abandoned :
    Abandoned crypto (Duration.ofSecs 60) (node3 0) (heardOut.take 11) (heardOut.drop 11)
      lastEntryOf2 :=
  ⟨by decide +kernel, by decide +kernel, by decide +kernel⟩

/-- The row is given up after its last attempt, and gone a minute later. -/
theorem reclaims_iff_heardOut :
    (Reclaims crypto (Duration.ofSecs 60) (node3 0) heardOut ∧
        FetchesAgain crypto (Duration.ofSecs 60) (node3 0) heardOut ↔
      SilentOnlyExhausted crypto (Duration.ofSecs 60) (node3 0) heardOut) ∧
    Abandoned crypto (Duration.ofSecs 60) (node3 0) (heardOut.take 11) (heardOut.drop 11)
      lastEntryOf2 :=
  ⟨reclaims_iff crypto (node3 0) rfl (by decide) (Duration.ofSecs 60) (by decide) heardOut
    (by decide +kernel), lastEntryOf2_abandoned⟩

end SmallMesh

end Wayfinder
