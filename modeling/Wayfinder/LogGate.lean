import Wayfinder.Lib.Run
import Wayfinder.LogFilter

/-!
# The two stages of the log gate

A record is screened against one level first, and only what passes is judged by the filter.
Installing a filter stores the directives and then the level, in two steps that other callers
and readers come between.
-/

namespace Wayfinder

set_option autoImplicit false

/-! ### What a filter grants -/

namespace LogFilter

variable {debugAssertions : Bool} {f : LogFilter debugAssertions} {level : LogLevel}
  {target : List Char} {d : Directive}

def foremost (f : LogFilter debugAssertions) (d : Directive) : Bool :=
  f.directives.toList.find? (fun d' => d'.target = d.target) = some d

/-- The most that is granted to any target. -/
def peak (f : LogFilter debugAssertions) : LevelFilter :=
  ((f.directives.toList.filter f.foremost).map Directive.level).max?.getD
    (defaultLevel debugAssertions)

theorem foremost_of_find
    (h : f.directives.toList.find? (fun d => targetMatches target d.target.text) = some d) :
    f.foremost d = true := by
  obtain ⟨hmatch, before, after, hsplit, hbefore⟩ := List.find?_eq_some_iff_append.mp h
  apply decide_eq_true
  refine List.find?_eq_some_iff_append.mpr ⟨decide_eq_true rfl, before, after, hsplit, ?_⟩
  intro d' hd'
  have hnot := hbefore d' hd'
  rw [Bool.not_eq_true'] at hnot ⊢
  apply decide_eq_false
  intro hsame
  rw [hsame, hmatch] at hnot
  cases hnot

theorem find_of_foremost (h : f.foremost d = true) :
    f.directives.toList.find? (fun d' => targetMatches d.target.text d'.target.text) =
      some d := by
  obtain ⟨_, before, after, hsplit, hbefore⟩ :=
    List.find?_eq_some_iff_append.mp (of_decide_eq_true h)
  refine List.find?_eq_some_iff_append.mpr
    ⟨targetMatches_iff.mpr (Covers.refl _), before, after, hsplit, ?_⟩
  intro d' hd'
  have hother := hbefore d' hd'
  rw [Bool.not_eq_true'] at hother ⊢
  rw [Bool.eq_false_iff]
  intro hmatch
  have hcovers := targetMatches_iff.mp hmatch
  have hsorted := f.longest_first
  rw [hsplit] at hsorted
  -- A directive before it is no shorter, so that over the same target it has the same path.
  have hle := (List.pairwise_append.mp hsorted).2.2 d' hd' d List.mem_cons_self
  have hge := utf8Len_le_of_isPrefix hcovers.isPrefix
  have htext := hcovers.unique (Covers.refl _) (Nat.le_antisymm hge hle)
  exact of_decide_eq_false hother (FixedText.ext htext)

theorem enabled_eq (f : LogFilter debugAssertions) (hne : f.directives.toList ≠ [])
    (hfind : f.directives.toList.find? (fun d => targetMatches target d.target.text) = some d) :
    f.enabled level target = d.level.admits level := by
  unfold enabled
  rw [if_neg hne, hfind]

theorem screens_iff {screen : LevelFilter} :
    (∀ level target, f.enabled level target = true → screen.admits level = true) ↔
      f.peak ≤ screen := by
  unfold peak
  by_cases hempty : f.directives.toList = []
  · have henabled : ∀ level target, f.enabled level target =
        (defaultLevel debugAssertions).admits level := by
      intro level target
      unfold enabled
      rw [if_pos hempty]
    rw [hempty]
    constructor
    · intro h
      apply LevelFilter.le_of_admits
      intro level hadmits
      exact h level [] ((henabled level []).trans hadmits)
    · intro hle level target h
      rw [henabled] at h
      exact LevelFilter.admits_mono hle h
  · constructor
    · intro h
      cases hmax : ((f.directives.toList.filter f.foremost).map Directive.level).max? with
      | none =>
        -- The first directive of all is the first of its target.
        exfalso
        obtain ⟨first, rest, hfirst⟩ := List.exists_cons_of_ne_nil hempty
        have hnone := List.map_eq_nil_iff.mp (List.max?_eq_none_iff.mp hmax)
        refine List.filter_eq_nil_iff.mp hnone first ?_ ?_
        · rw [hfirst]
          exact List.mem_cons_self
        · apply decide_eq_true
          rw [hfirst]
          exact List.find?_cons_of_pos (decide_eq_true rfl)
      | some most =>
        obtain ⟨hmem, _⟩ := List.max?_eq_some_iff.mp hmax
        obtain ⟨d, hd, rfl⟩ := List.mem_map.mp hmem
        apply LevelFilter.le_of_admits
        intro level hadmits
        apply h level d.target.text
        rw [enabled_eq f hempty (find_of_foremost (List.mem_filter.mp hd).2)]
        exact hadmits
    · intro hle level target h
      unfold enabled at h
      rw [if_neg hempty] at h
      cases hfind : f.directives.toList.find? fun d => targetMatches target d.target.text with
      | none =>
        rw [hfind] at h
        cases h
      | some d =>
        rw [hfind] at h
        have hmem : d.level ∈ (f.directives.toList.filter f.foremost).map Directive.level :=
          List.mem_map_of_mem
            (List.mem_filter.mpr ⟨List.mem_of_find?_eq_some hfind, foremost_of_find hfind⟩)
        refine LevelFilter.admits_mono (le_trans ?_ hle) h
        cases hmax : ((f.directives.toList.filter f.foremost).map Directive.level).max? with
        | none =>
          rw [List.max?_eq_none_iff.mp hmax] at hmem
          cases hmem
        | some most => exact (List.max?_eq_some_iff.mp hmax).2 _ hmem

end LogFilter

/-! ### Callers and readers -/

/-- The directives and the level that are stored, the levels of the callers between their two
stores, and the records of the readers between their two looks. -/
structure LogGate (debugAssertions : Bool) where
  filter : LogFilter debugAssertions
  maxLevel : LevelFilter
  callers : List LevelFilter
  readers : List (LogLevel × List Char)

inductive GateOp where
  | storeFilter (spec : List Char)
  | storeLevel (caller : Nat)
  | screen (level : LogLevel) (target : List Char)
  | judge (reader : Nat)

namespace LogGate

variable {debugAssertions : Bool}

def start : LogGate debugAssertions := ⟨.defaultFilter, defaultLevel debugAssertions, [], []⟩

def step (g : LogGate debugAssertions) : GateOp → LogGate debugAssertions
  | .storeFilter spec =>
    match LogFilter.parse debugAssertions spec with
    | .error _ => g
    | .ok filter => { g with filter, callers := g.callers ++ [filter.maxLevel] }
  | .storeLevel caller =>
    match g.callers[caller]? with
    | none => g
    | some maxLevel => { g with maxLevel, callers := g.callers.eraseIdx caller }
  | .screen level target =>
    if g.maxLevel.admits level then { g with readers := g.readers ++ [(level, target)] } else g
  | .judge reader => { g with readers := g.readers.eraseIdx reader }

def verdict (g : LogGate debugAssertions) : GateOp → Option Bool
  | .screen level _ => if g.maxLevel.admits level then none else some false
  | .judge reader => g.readers[reader]?.map fun record => g.filter.enabled record.1 record.2
  | _ => none

/-- No record is lost: the screen lets through all that the filter keeps, and stands at the
level of the filter when no caller is between its stores. -/
structure Lossless (g : LogGate debugAssertions) : Prop where
  superset : ∀ level target, g.filter.enabled level target = true → g.maxLevel.admits level = true
  settled : g.callers = [] → g.maxLevel = g.filter.maxLevel

/-- New directives grant no more than the stored level, a level is stored that is no lower than
what the directives grant, and the last caller to finish is the one whose filter is there. -/
def Covered (g : LogGate debugAssertions) : GateOp → Prop
  | .storeFilter spec =>
    ∀ filter, LogFilter.parse debugAssertions spec = .ok filter → filter.peak ≤ g.maxLevel
  | .storeLevel caller => ∀ maxLevel ∈ g.callers[caller]?, g.filter.peak ≤ maxLevel ∧
      (g.callers.length = 1 → maxLevel = g.filter.maxLevel)
  | .screen _ _ => True
  | .judge _ => True

variable {g : LogGate debugAssertions}

theorem lossless_start : (start : LogGate debugAssertions).Lossless where
  superset := fun _ _ => LogFilter.maxLevel_admits
  settled := fun _ => rfl

theorem lossless_step_iff (h : g.Lossless) (op : GateOp) :
    (g.step op).Lossless ↔ g.Covered op := by
  cases op with
  | screen level target =>
    refine iff_of_true ?_ trivial
    unfold step
    dsimp only
    split
    · exact ⟨h.superset, h.settled⟩
    · exact h
  | judge reader => exact iff_of_true ⟨h.superset, h.settled⟩ trivial
  | storeFilter spec =>
    unfold step Covered
    dsimp only
    cases hparse : LogFilter.parse debugAssertions spec with
    | error e =>
      refine iff_of_true h ?_
      intro filter hfilter
      cases hfilter
    | ok filter =>
      constructor
      · intro hgood filter' hfilter'
        obtain rfl := Except.ok.inj hfilter'
        exact LogFilter.screens_iff.mp hgood.superset
      · intro hcovered
        refine ⟨LogFilter.screens_iff.mpr (hcovered filter rfl), ?_⟩
        intro hnone
        exact absurd hnone (List.append_ne_nil_of_right_ne_nil _ (List.cons_ne_nil _ _))
  | storeLevel caller =>
    unfold step Covered
    dsimp only
    cases hcaller : g.callers[caller]? with
    | none =>
      refine iff_of_true h ?_
      intro maxLevel hmem
      cases hmem
    | some maxLevel =>
      obtain ⟨hlt, _⟩ := List.getElem?_eq_some_iff.mp hcaller
      have hlength := List.length_eraseIdx_add_one hlt
      constructor
      · intro hgood maxLevel' hmem
        obtain rfl := Option.some.inj hmem
        refine ⟨LogFilter.screens_iff.mp hgood.superset, ?_⟩
        intro hone
        have hlast : g.callers.eraseIdx caller = [] :=
          List.eq_nil_of_length_eq_zero (by omega)
        exact hgood.settled hlast
      · intro hcovered
        obtain ⟨hpeak, hlast⟩ := hcovered maxLevel rfl
        refine ⟨LogFilter.screens_iff.mpr hpeak, ?_⟩
        intro hnone
        dsimp only at hnone
        rw [hnone, List.length_nil] at hlength
        exact hlast hlength.symm

theorem Lossless.screened (h : g.Lossless) {level : LogLevel} {target : List Char} {kept : Bool}
    (hverdict : g.verdict (.screen level target) = some kept) :
    kept = false ∧ g.filter.enabled level target = false := by
  unfold verdict at hverdict
  dsimp only at hverdict
  split at hverdict
  · cases hverdict
  · rename_i hrefused
    refine ⟨(Option.some.inj hverdict).symm, ?_⟩
    rw [Bool.eq_false_iff]
    exact fun hkept => hrefused (h.superset level target hkept)

/-- Where every store meets its condition, no reader is turned away by the screen from a filter
that would have kept its record. -/
theorem run_screened {ops pre : List GateOp} {level : LogLevel} {target : List Char} {kept : Bool}
    (h : Run.AllSafe step Covered (start : LogGate debugAssertions) ops) (hpre : pre <+: ops)
    (hverdict : (Run.run step (start : LogGate debugAssertions) pre).verdict
      (.screen level target) = some kept) :
    (Run.run step (start : LogGate debugAssertions) pre).filter.enabled level target = false := by
  have hgood := Run.allGood_of_allSafe lossless_start
    (fun _ op hgood hsafe => (lossless_step_iff hgood op).mpr hsafe) h
  exact ((hgood pre hpre).screened hverdict).2

/-- However callers and readers come between each other's steps: no record is lost exactly if
every store meets the condition in the state it is made in. -/
theorem gate_lossless_iff (debugAssertions : Bool) (ops : List GateOp) :
    Run.AllGood step Lossless (start : LogGate debugAssertions) ops ↔
      Run.AllSafe step Covered (start : LogGate debugAssertions) ops :=
  Run.allGood_iff_allSafe lossless_start fun _ op h => lossless_step_iff h op

theorem verbose_filter_loses :
    ¬ Run.AllGood step Lossless (start : LogGate false)
      [.storeFilter "trace".toList] := by
  intro h
  have hlost := (h _ (List.prefix_refl _)).superset .trace [] (by decide +kernel)
  revert hlost
  decide +kernel

end LogGate

end Wayfinder
