import Mathlib.Data.List.Sort
import Mathlib.Order.MinMax
import Wayfinder.Lib.Bounded
import Wayfinder.Lib.Text
import Wayfinder.LogRing

/-!
# Which log records are kept

A filter is a list of directives, each a module path and the level granted to what lies under
it. It is read from a text of directives between commas. The longest path over a record's
target decides, and for that the directives are kept longest first.
-/

namespace Wayfinder

set_option autoImplicit false

/-! ### Levels -/

def LogLevel.value : LogLevel → Nat
  | .error => 1
  | .warn => 2
  | .info => 3
  | .debug => 4
  | .trace => 5

inductive LevelFilter where
  | off | error | warn | info | debug | trace
  deriving DecidableEq

namespace LevelFilter

def value : LevelFilter → Nat
  | .off => 0
  | .error => 1
  | .warn => 2
  | .info => 3
  | .debug => 4
  | .trace => 5

theorem value_injective : Function.Injective value := by
  intro a b h
  cases a <;> cases b <;> first | rfl | cases h

instance : LinearOrder LevelFilter := LinearOrder.lift' value value_injective

def admits (threshold : LevelFilter) (level : LogLevel) : Bool := level.value ≤ threshold.value

def asSpec : LevelFilter → List Char
  | .off => "off".toList
  | .error => "error".toList
  | .warn => "warn".toList
  | .info => "info".toList
  | .debug => "debug".toList
  | .trace => "trace".toList

def names : List (List Char × LevelFilter) :=
  [("off".toList, .off), ("error".toList, .error), ("err".toList, .error), ("warn".toList, .warn),
    ("warning".toList, .warn), ("info".toList, .info), ("debug".toList, .debug),
    ("trace".toList, .trace)]

def parse (name : List Char) : Option LevelFilter :=
  (names.find? fun entry => eqIgnoreAsciiCase name entry.1).map Prod.snd

theorem parse_asSpec (threshold : LevelFilter) : parse threshold.asSpec = some threshold := by
  cases threshold <;> decide +kernel

theorem admits_mono {a b : LevelFilter} {level : LogLevel} (h : a ≤ b)
    (hadmits : a.admits level = true) : b.admits level = true :=
  decide_eq_true ((of_decide_eq_true hadmits).trans h)

theorem le_of_admits {a b : LevelFilter}
    (h : ∀ level, a.admits level = true → b.admits level = true) : a ≤ b := by
  change a.value ≤ b.value
  cases a with
  | off => exact Nat.zero_le _
  | error => exact of_decide_eq_true (h .error rfl)
  | warn => exact of_decide_eq_true (h .warn rfl)
  | info => exact of_decide_eq_true (h .info rfl)
  | debug => exact of_decide_eq_true (h .debug rfl)
  | trace => exact of_decide_eq_true (h .trace rfl)

theorem eq_of_admits {a b : LevelFilter} (h : ∀ level, a.admits level = b.admits level) :
    a = b := by
  apply le_antisymm
  · apply le_of_admits
    intro level
    rw [h]
    exact id
  · apply le_of_admits
    intro level
    rw [h]
    exact id

end LevelFilter

/-- The level that is in force where nothing else is said. -/
def defaultLevel (debugAssertions : Bool) : LevelFilter :=
  if debugAssertions then .debug else .info

/-! ### Directives -/

def maxDirectives : Nat := 12
def specCap : Nat := 192

inductive FilterParseError where
  | unknownLevel | unsupported | targetTooLong | tooManyDirectives | specTooLong
  deriving DecidableEq

/-- A module path and the level granted under it. The empty path is over everything. -/
structure Directive where
  target : FixedText targetCap
  level : LevelFilter
  deriving DecidableEq

def targetMatches (target path : List Char) : Bool :=
  if path = [] then true
  else match path.isPrefixOf? target with
    | none => false
    | some rest => rest = [] ∨ [':', ':'] <+: rest

/-- A path is over the targets that begin with it and end there or go on to a submodule. -/
def Covers (path target : List Char) : Prop :=
  path = [] ∨ target = path ∨ ∃ rest, target = path ++ [':', ':'] ++ rest

section Matching
variable {target path path' : List Char}

theorem isPrefixOf?_eq_some {rest : List Char} :
    path.isPrefixOf? target = some rest ↔ target = path ++ rest := by
  induction path generalizing target with
  | nil =>
    cases target <;> simp [List.isPrefixOf?, eq_comm]
  | cons ch path ih =>
    cases target with
    | nil => simp [List.isPrefixOf?]
    | cons ch' target =>
      rw [List.isPrefixOf?]
      split
      · rename_i hsame
        obtain rfl := eq_of_beq hsame
        rw [ih, List.cons_append, List.cons_inj_right]
      · rename_i hdiff
        simp only [reduceCtorEq, List.cons_append, List.cons.injEq, false_iff, not_and]
        intro hsame
        exact absurd (beq_iff_eq.mpr hsame.symm) hdiff

theorem targetMatches_iff : targetMatches target path = true ↔ Covers path target := by
  unfold targetMatches Covers
  by_cases hempty : path = []
  · simp [hempty]
  · rw [if_neg hempty]
    cases hstrip : path.isPrefixOf? target with
    | none =>
      have hnot : ∀ rest, target ≠ path ++ rest := by
        intro rest heq
        rw [isPrefixOf?_eq_some.mpr heq] at hstrip
        cases hstrip
      constructor
      · intro h
        cases h
      · rintro (h | h | ⟨rest, h⟩)
        · exact absurd h hempty
        · exact absurd (h.trans (List.append_nil path).symm) (hnot [])
        · rw [List.append_assoc] at h
          exact absurd h (hnot _)
    | some rest =>
      have heq := isPrefixOf?_eq_some.mp hstrip
      subst heq
      constructor
      · intro h
        rcases of_decide_eq_true h with rfl | ⟨after, rfl⟩
        · exact Or.inr (Or.inl (List.append_nil path))
        · exact Or.inr (Or.inr ⟨after, (List.append_assoc _ _ _).symm⟩)
      · rintro (h | h | ⟨after, h⟩)
        · exact absurd h hempty
        · exact decide_eq_true (Or.inl (List.append_right_eq_self.mp h))
        · rw [List.append_assoc] at h
          exact decide_eq_true (Or.inr ⟨after, (List.append_cancel_left h).symm⟩)

theorem Covers.isPrefix (h : Covers path target) : path <+: target := by
  rcases h with rfl | rfl | ⟨rest, rfl⟩
  · exact List.nil_prefix
  · exact List.prefix_refl _
  · rw [List.append_assoc]
    exact List.prefix_append _ _

theorem Covers.refl (path : List Char) : Covers path path := Or.inr (Or.inl rfl)

theorem Covers.unique (h : Covers path target) (h' : Covers path' target)
    (hlen : utf8Len path = utf8Len path') : path = path' :=
  prefix_unique h.isPrefix h'.isPrefix hlen

end Matching

/-! ### Reading a filter -/

/-- What stands between two commas: nothing, or a directive. -/
def readDirective (piece : List Char) : Except FilterParseError (Option Directive) :=
  let piece := trim piece
  if piece = [] then .ok none
  else
    let read : Except FilterParseError (List Char × LevelFilter) :=
      match splitOnce '=' piece with
      | some (target, level) =>
        match LevelFilter.parse (trim level) with
        | some level => .ok (trim target, level)
        | none => .error .unknownLevel
      | none =>
        -- A bare word that names no level is a target.
        match LevelFilter.parse piece with
        | some level => .ok ([], level)
        | none => .ok (piece, .trace)
    match read with
    | .error e => .error e
    | .ok (target, level) =>
      match FixedText.ofText? target with
      | some target => .ok (some ⟨target, level⟩)
      | none => .error .targetTooLong

def pushPiece (directives : Bounded Directive maxDirectives) (piece : List Char) :
    Except FilterParseError (Bounded Directive maxDirectives) :=
  match readDirective piece with
  | .error e => .error e
  | .ok none => .ok directives
  | .ok (some directive) =>
    if (directives.push directive).2 then .ok (directives.push directive).1
    else .error .tooManyDirectives

/-- Sorting by insertion, which is what the sort of a slice does below twenty elements. -/
def longestFirst (directives : Bounded Directive maxDirectives) :
    Bounded Directive maxDirectives where
  toList := directives.toList.insertionSort fun d d' =>
    utf8Len d'.target.text ≤ utf8Len d.target.text
  length_le := by
    rw [List.length_insertionSort]
    exact directives.length_le

/-- A list of directives, longest first, the text it was read from and the most that any of
them grants. -/
structure LogFilter (debugAssertions : Bool) where
  directives : Bounded Directive maxDirectives
  spec : FixedText specCap
  maxLevel : LevelFilter
  longest_first : directives.toList.Pairwise fun d d' =>
    utf8Len d'.target.text ≤ utf8Len d.target.text
  coarsest : maxLevel =
    (directives.toList.map Directive.level).max?.getD (defaultLevel debugAssertions)

namespace LogFilter

variable {debugAssertions : Bool}

def defaultFilter : LogFilter debugAssertions where
  directives := .empty
  spec := .empty
  maxLevel := defaultLevel debugAssertions
  longest_first := List.Pairwise.nil
  coarsest := rfl

def parse (debugAssertions : Bool) (spec : List Char) :
    Except FilterParseError (LogFilter debugAssertions) :=
  if h : specCap < utf8Len spec then .error .specTooLong
  else if spec.any (· ∈ ['[', ']', '\x7b', '\x7d']) then .error .unsupported
  else match (spec.splitOn ',').foldlM pushPiece .empty with
    | .error e => .error e
    | .ok directives =>
      .ok {
        directives := longestFirst directives
        spec := ⟨spec, Nat.not_lt.mp h⟩
        maxLevel := ((longestFirst directives).toList.map Directive.level).max?.getD
          (defaultLevel debugAssertions)
        longest_first := List.pairwise_insertionSort _ _
        coarsest := rfl }

def enabled (f : LogFilter debugAssertions) (level : LogLevel) (target : List Char) : Bool :=
  if f.directives.toList = [] then (defaultLevel debugAssertions).admits level
  else match f.directives.toList.find? fun d => targetMatches target d.target.text with
    | some d => d.level.admits level
    | none => false

def specText (f : LogFilter debugAssertions) : List Char :=
  if f.spec.text = [] then (defaultLevel debugAssertions).asSpec else f.spec.text

end LogFilter

/-! ### What a text is read as -/

def directive? (piece : List Char) : Option Directive :=
  match readDirective piece with
  | .ok directive => directive
  | .error _ => none

/-- The directives as they are written. -/
def written (spec : List Char) : List Directive := (spec.splitOn ',').filterMap directive?

def Reads (piece : List Char) : Prop := ∃ directive, readDirective piece = .ok directive

section Reading
variable {directives directives' : Bounded Directive maxDirectives} {piece : List Char}
  {pieces : List (List Char)}

theorem pushPiece_ok : pushPiece directives piece = .ok directives' ↔
    Reads piece ∧ directives'.toList = directives.toList ++ (directive? piece).toList := by
  unfold pushPiece Reads directive?
  cases hread : readDirective piece with
  | error e => simp
  | ok directive =>
    cases directive with
    | none =>
      simp only [Except.ok.injEq, exists_eq', Option.toList_none, List.append_nil, true_and]
      constructor
      · rintro rfl
        rfl
      · intro h
        exact Bounded.eq_of_toList h.symm
    | some d =>
      simp only [Except.ok.injEq, exists_eq', Option.toList_some, true_and]
      constructor
      · intro h
        split at h
        · rename_i hpush
          rw [← Except.ok.inj h]
          exact Bounded.toList_push hpush
        · cases h
      · intro h
        have hroom : directives.toList.length < maxDirectives := by
          have hlength := congrArg List.length h
          have hle := directives'.length_le
          rw [List.length_append, List.length_singleton] at hlength
          omega
        have hpush := Bounded.push_of_lt (x := d) hroom
        rw [if_pos hpush]
        exact congrArg Except.ok (Bounded.eq_of_toList ((Bounded.toList_push hpush).trans h.symm))

theorem pushPieces_ok : pieces.foldlM pushPiece directives = .ok directives' ↔
    (∀ piece ∈ pieces, Reads piece) ∧
      directives'.toList = directives.toList ++ pieces.filterMap directive? := by
  induction pieces generalizing directives with
  | nil =>
    rw [List.foldlM_nil]
    constructor
    · intro h
      rw [Except.ok.inj h]
      simp
    · intro h
      have heq : directives = directives' := Bounded.eq_of_toList (by simpa using h.2.symm)
      rw [heq]
      rfl
  | cons piece pieces ih =>
    rw [List.foldlM_cons]
    constructor
    · intro h
      cases hpush : pushPiece directives piece with
      | error e =>
        rw [hpush] at h
        cases h
      | ok next =>
        rw [hpush] at h
        obtain ⟨hreads, hrest⟩ := ih.mp h
        obtain ⟨hpiece, hnext⟩ := pushPiece_ok.mp hpush
        refine ⟨List.forall_mem_cons.mpr ⟨hpiece, hreads⟩, ?_⟩
        rw [hrest, hnext, List.append_assoc]
        congr 1
        cases hd : directive? piece <;> simp [hd]
    · intro ⟨hreads, htoList⟩
      obtain ⟨hpiece, hrest⟩ := List.forall_mem_cons.mp hreads
      have hsplit : (piece :: pieces).filterMap directive? =
          (directive? piece).toList ++ pieces.filterMap directive? := by
        cases hd : directive? piece <;> simp [hd]
      rw [hsplit, ← List.append_assoc] at htoList
      have hle : (directives.toList ++ (directive? piece).toList).length ≤ maxDirectives := by
        have hall := directives'.length_le
        rw [htoList, List.length_append] at hall
        omega
      have hpush : pushPiece directives piece = .ok ⟨_, hle⟩ := pushPiece_ok.mpr ⟨hpiece, rfl⟩
      rw [hpush]
      exact ih.mpr ⟨hrest, htoList⟩

end Reading

theorem longestFirst_perm (directives : Bounded Directive maxDirectives) :
    (longestFirst directives).toList.Perm directives.toList := List.perm_insertionSort _ _

namespace LogFilter

variable {debugAssertions : Bool} {spec : List Char} {f f' : LogFilter debugAssertions}
  {level : LogLevel} {target : List Char}

/-- What an accepted text is. -/
structure Accepted (spec : List Char) : Prop where
  short : utf8Len spec ≤ specCap
  plain : ∀ ch ∈ spec, ch ∉ ['[', ']', '\x7b', '\x7d']
  reads : ∀ piece ∈ spec.splitOn ',', Reads piece
  few : (written spec).length ≤ maxDirectives

/-- A filter is read from an accepted text and from no other, and has its directives. -/
theorem parse_ok (h : parse debugAssertions spec = .ok f) :
    Accepted spec ∧ f.directives.toList.Perm (written spec) := by
  unfold parse at h
  split at h
  · cases h
  · rename_i hshort
    split at h
    · cases h
    · rename_i hplain
      split at h
      · cases h
      · rename_i directives hfold
        obtain ⟨hreads, htoList⟩ := pushPieces_ok.mp hfold
        rw [Bounded.empty_toList, List.nil_append] at htoList
        have heq := Except.ok.inj h
        refine ⟨⟨Nat.not_lt.mp hshort, ?_, hreads, ?_⟩, ?_⟩
        · simpa using hplain
        · unfold written
          rw [← htoList]
          exact directives.length_le
        · rw [← heq]
          have hperm := longestFirst_perm directives
          rw [htoList] at hperm
          exact hperm

theorem parse_of_accepted (debugAssertions : Bool) (h : Accepted spec) :
    ∃ f, parse debugAssertions spec = .ok f := by
  have hfold : (spec.splitOn ',').foldlM pushPiece .empty = .ok ⟨written spec, h.few⟩ :=
    pushPieces_ok.mpr ⟨h.reads, rfl⟩
  have hplain : ¬ spec.any (· ∈ ['[', ']', '\x7b', '\x7d']) = true := by simpa using h.plain
  unfold parse
  rw [dif_neg (Nat.not_lt.mpr h.short), if_neg hplain, hfold]
  exact ⟨_, rfl⟩

/-! ### Which directive decides -/

/-- No path of a directive over the target is longer. -/
structure Decides (f : LogFilter debugAssertions) (target : List Char) (d : Directive) :
    Prop where
  mem : d ∈ f.directives.toList
  covers : Covers d.target.text target
  longest : ∀ d' ∈ f.directives.toList, Covers d'.target.text target →
    utf8Len d'.target.text ≤ utf8Len d.target.text

/-- The directive of the longest path over the target decides, no directive at all leaves it to
the default level, and a record no path is over is not kept. -/
structure Follows (f : LogFilter debugAssertions) (level : LogLevel) (target : List Char) :
    Prop where
  default : f.directives.toList = [] →
    f.enabled level target = (defaultLevel debugAssertions).admits level
  decided : ∀ d, f.Decides target d → f.enabled level target = d.level.admits level
  unmatched : f.directives.toList ≠ [] →
    (∀ d ∈ f.directives.toList, ¬ Covers d.target.text target) → f.enabled level target = false

/-- A target given twice is given the same level. -/
def Unambiguous (directives : List Directive) : Prop :=
  ∀ d ∈ directives, ∀ d' ∈ directives, d.target = d'.target → d.level = d'.level

instance (directives : List Directive) : Decidable (Unambiguous directives) :=
  inferInstanceAs (Decidable (∀ d ∈ directives, ∀ d' ∈ directives, _ → _))

theorem enabled_cases (f : LogFilter debugAssertions) (level : LogLevel) (target : List Char) :
    (f.directives.toList = [] ∧
      f.enabled level target = (defaultLevel debugAssertions).admits level) ∨
    (f.directives.toList ≠ [] ∧ (∀ d ∈ f.directives.toList, ¬ Covers d.target.text target) ∧
      f.enabled level target = false) ∨
    ∃ d, f.Decides target d ∧ f.enabled level target = d.level.admits level := by
  unfold enabled
  by_cases hempty : f.directives.toList = []
  · rw [if_pos hempty]
    exact Or.inl ⟨hempty, rfl⟩
  · rw [if_neg hempty]
    right
    cases hfind : f.directives.toList.find? fun d => targetMatches target d.target.text with
    | none =>
      refine Or.inl ⟨hempty, ?_, rfl⟩
      intro d hd hcovers
      exact List.find?_eq_none.mp hfind d hd (targetMatches_iff.mpr hcovers)
    | some d =>
      right
      obtain ⟨hmatch, before, after, hsplit, hbefore⟩ := List.find?_eq_some_iff_append.mp hfind
      refine ⟨d, ⟨?_, targetMatches_iff.mp hmatch, ?_⟩, rfl⟩
      · rw [hsplit]
        exact List.mem_append_right _ List.mem_cons_self
      · intro d' hd' hcovers
        have hsorted := f.longest_first
        rw [hsplit] at hd' hsorted
        -- Nothing before `d` is over the target, and what follows is no longer.
        rcases List.mem_append.mp hd' with hd' | hd'
        · have hnot := hbefore d' hd'
          rw [targetMatches_iff.mpr hcovers] at hnot
          cases hnot
        · rcases List.mem_cons.mp hd' with rfl | hd'
          · exact Nat.le_refl _
          · exact List.rel_of_pairwise_cons (List.pairwise_append.mp hsorted).2.1 hd'

theorem Decides.level_eq {d d' : Directive} (hd : f.Decides target d) (hd' : f.Decides target d')
    (hclear : Unambiguous f.directives.toList) : d.level = d'.level := by
  apply hclear d hd.mem d' hd'.mem
  have htext : d.target.text = d'.target.text :=
    hd.covers.unique hd'.covers
      (Nat.le_antisymm (hd'.longest d hd.mem hd.covers) (hd.longest d' hd'.mem hd'.covers))
  exact FixedText.ext htext

/-- The filter follows its rule exactly if no target is given two levels. -/
theorem follows_iff : (∀ level target, f.Follows level target) ↔
    Unambiguous f.directives.toList := by
  constructor
  · intro hfollows d hd d' hd' hsame
    -- A record of this very target is decided by both.
    have hdecides : ∀ d'' ∈ f.directives.toList, d''.target = d.target →
        f.Decides d.target.text d'' := by
      intro d'' hd'' htarget
      refine ⟨hd'', ?_, ?_⟩
      · rw [htarget]
        exact Covers.refl _
      · intro other _ hcovers
        rw [htarget]
        exact utf8Len_le_of_isPrefix hcovers.isPrefix
    apply LevelFilter.eq_of_admits
    intro level
    have h := (hfollows level d.target.text).decided
    rw [← h d (hdecides d hd rfl), h d' (hdecides d' hd' hsame.symm)]
  · intro hclear level target
    rcases enabled_cases f level target with
      ⟨hempty, henabled⟩ | ⟨hne, hnone, henabled⟩ | ⟨d, hd, henabled⟩
    · refine ⟨fun _ => henabled, ?_, fun hne => absurd hempty hne⟩
      intro d hd
      have hmem := hd.mem
      rw [hempty] at hmem
      cases hmem
    · refine ⟨fun hempty => absurd hempty hne, ?_, fun _ _ => henabled⟩
      intro d hd
      exact absurd hd.covers (hnone d hd.mem)
    · refine ⟨?_, ?_, ?_⟩
      · intro hempty
        have hmem := hd.mem
        rw [hempty] at hmem
        cases hmem
      · intro d' hd'
        rw [henabled, hd.level_eq hd' hclear]
      · intro _ hnone
        exact absurd hd.covers (hnone d hd.mem)

/-- Filters of the same directives agree where no target is given two levels. -/
theorem enabled_congr (hperm : f.directives.toList.Perm f'.directives.toList)
    (hclear : Unambiguous f.directives.toList) (level : LogLevel) (target : List Char) :
    f'.enabled level target = f.enabled level target := by
  have hfollows := follows_iff.mpr hclear level target
  rcases enabled_cases f' level target with
    ⟨hempty, henabled⟩ | ⟨hne, hnone, henabled⟩ | ⟨d, hd, henabled⟩
  · rw [henabled, hfollows.default]
    rw [hempty] at hperm
    exact hperm.eq_nil
  · rw [henabled, hfollows.unmatched]
    · intro hempty
      rw [hempty] at hperm
      exact hne hperm.symm.eq_nil
    · intro d hd
      exact hnone d (hperm.mem_iff.mp hd)
  · have hsame : f.Decides target d := by
      refine ⟨hperm.mem_iff.mpr hd.mem, hd.covers, ?_⟩
      intro d' hd'
      exact hd.longest d' (hperm.mem_iff.mp hd')
    rw [henabled, hfollows.decided d hsame]

theorem maxLevel_admits (h : f.enabled level target = true) : f.maxLevel.admits level = true := by
  rw [f.coarsest]
  rcases enabled_cases f level target with
    ⟨hempty, henabled⟩ | ⟨_, _, henabled⟩ | ⟨d, hd, henabled⟩
  · rw [henabled] at h
    rw [hempty]
    exact h
  · rw [henabled] at h
    cases h
  · rw [henabled] at h
    refine LevelFilter.admits_mono ?_ h
    have hmem : d.level ∈ f.directives.toList.map Directive.level := List.mem_map_of_mem hd.mem
    cases hmax : (f.directives.toList.map Directive.level).max? with
    | none =>
      rw [List.max?_eq_none_iff.mp hmax] at hmem
      cases hmem
    | some most => exact (List.max?_eq_some_iff.mp hmax).2 _ hmem

/-! ### The text in another order -/

theorem accepted_permuted {pieces : List (List Char)} (h : Accepted spec)
    (hperm : pieces.Perm (spec.splitOn ',')) :
    Accepted ([','].intercalate pieces) ∧
      (written ([','].intercalate pieces)).Perm (written spec) := by
  have hsplit : ([','].intercalate pieces).splitOn ',' = pieces := by
    apply List.splitOn_intercalate
    · intro piece hpiece
      exact not_mem_of_mem_splitOn (hperm.mem_iff.mp hpiece)
    · rintro rfl
      exact List.splitOn_ne_nil ',' spec hperm.symm.eq_nil
  have hchars : ([','].intercalate pieces).Perm spec := by
    have h := intercalate_perm hperm [',']
    rw [List.intercalate_splitOn] at h
    exact h
  have hwritten : (written ([','].intercalate pieces)).Perm (written spec) := by
    unfold written
    rw [hsplit]
    exact hperm.filterMap _
  refine ⟨⟨?_, ?_, ?_, ?_⟩, hwritten⟩
  · rw [utf8Len_perm hchars]
    exact h.short
  · intro ch hch
    exact h.plain ch (hchars.mem_iff.mp hch)
  · rw [hsplit]
    intro piece hpiece
    exact h.reads piece (hperm.mem_iff.mp hpiece)
  · rw [hwritten.length_eq]
    exact h.few

theorem Unambiguous.perm {directives directives' : List Directive}
    (h : Unambiguous directives) (hperm : directives'.Perm directives) :
    Unambiguous directives' := by
  intro d hd d' hd'
  exact h d (hperm.mem_iff.mp hd) d' (hperm.mem_iff.mp hd')

/-- A filter follows its rule, whatever the order its directives are written in, and its
coarsest level lets through all that it keeps, exactly if no target is given two levels. -/
theorem filter_follows_rule_iff (h : parse debugAssertions spec = .ok f) :
    ((∀ level target, f.Follows level target) ∧
      (∀ pieces, pieces.Perm (spec.splitOn ',') →
        ∃ f', parse debugAssertions ([','].intercalate pieces) = .ok f' ∧
          ∀ level target, f'.enabled level target = f.enabled level target) ∧
      ∀ level target, f.enabled level target = true → f.maxLevel.admits level = true) ↔
    Unambiguous (written spec) := by
  obtain ⟨haccepted, hperm⟩ := parse_ok h
  constructor
  · intro hall
    exact (follows_iff.mp hall.1).perm hperm.symm
  · intro hclear
    have hown := hclear.perm hperm
    refine ⟨follows_iff.mpr hown, ?_, fun level target => maxLevel_admits⟩
    intro pieces hpieces
    obtain ⟨haccepted', hwritten⟩ := accepted_permuted haccepted hpieces
    obtain ⟨f', hf'⟩ := parse_of_accepted debugAssertions haccepted'
    obtain ⟨_, hperm'⟩ := parse_ok hf'
    exact ⟨f', hf', enabled_congr (hperm.trans (hwritten.symm.trans hperm'.symm)) hown⟩

theorem filter_follows_rule_scoped :
    ∃ f, parse false "warn,batman=trace".toList = .ok f ∧
      ∀ level target, f.Follows level target := by
  cases hparse : parse false "warn,batman=trace".toList with
  | error e =>
    have hok : (parse false "warn,batman=trace".toList).isOk = true := by decide +kernel
    rw [hparse] at hok
    cases hok
  | ok f => exact ⟨f, rfl, ((filter_follows_rule_iff hparse).mpr (by decide +kernel)).1⟩

/-- A target given twice: the order decides. -/
theorem repeated_target_order :
    ["a=trace".toList, "a=info".toList].Perm ("a=info,a=trace".toList.splitOn ',') ∧
      (parse false "a=info,a=trace".toList).map (·.enabled .trace ['a']) = .ok false ∧
      (parse false ([','].intercalate ["a=trace".toList, "a=info".toList])).map
        (·.enabled .trace ['a']) = .ok true := by
  decide +kernel

end LogFilter

end Wayfinder
