import Mathlib.Data.Prod.Lex
import Wayfinder.Frame
import Wayfinder.Lib.Least
import Wayfinder.Lib.Ring
import Wayfinder.Lib.Run
import Wayfinder.Lib.Table
import Wayfinder.Lib.Text

/-!
# The alarm board

A node latches what is wrong with it in a table of bounded length, one row for each kind of
condition and subject. Raising a condition again folds into its row. A full table makes room
only for what is strictly worse than its least severe row.
-/

namespace Wayfinder

set_option autoImplicit false

open Table

/-! ### What is raised -/

inductive Severity where
  | info | warning | critical
  deriving DecidableEq

namespace Severity

def rank : Severity → Nat
  | .info => 0
  | .warning => 1
  | .critical => 2

theorem rank_injective : Function.Injective rank := by
  intro a b h
  cases a <;> cases b <;> first | rfl | cases h

instance : LinearOrder Severity := LinearOrder.lift' rank rank_injective

end Severity

inductive AlarmKind where
  | unauthenticatedTraffic | trafficFlood | managementAuthFailures | ogmReplay | revokedPeer
  | linkErrors | tableSaturation | clockUnsynchronized | selfRevoked | identityConflict
  | certExpiring | certifiedAddressMismatch | certNotDurable
  deriving DecidableEq

/-- The leading bytes of a mesh identifier or of a key fingerprint. -/
structure NodeId where
  bytes : Bytes
  length_le : bytes.length ≤ 8
  deriving DecidableEq

def NodeId.new (id : Bytes) : NodeId := ⟨id.take 8, List.length_take_le 8 id⟩

inductive Subject where
  | node (id : NodeId)
  | interface (idx : U8)
  | none
  deriving DecidableEq

/-- What a row is about. -/
structure Condition where
  kind : AlarmKind
  subject : Subject
  deriving DecidableEq

def detailCap : Nat := 64

abbrev Detail := FixedText detailCap

/-- A detail as it is written piece by piece. -/
def render (pieces : List (List Char)) : Detail := pieces.foldl FixedText.write .empty

structure Alarm where
  kind : AlarmKind
  subject : Subject
  severity : Severity
  firstMs : Nat
  lastMs : Nat
  count : U32
  detail : Detail

def Alarm.condition (a : Alarm) : Condition := ⟨a.kind, a.subject⟩

inductive Raised where
  | new | coalesced | escalated | dropped
  deriving DecidableEq

/-! ### The board -/

def saturatingSucc64 (n : Nat) : Nat := min (n + 1) (2 ^ 64 - 1)

structure AlarmBoard (cap : Nat) where
  alarms : Bounded Alarm cap
  dropped : Nat

namespace AlarmBoard

variable {cap : Nat}

def new : AlarmBoard cap := ⟨.empty, 0⟩

/-- What a raise does to the row it falls in. -/
def fold (severity : Severity) (detail : List (List Char)) (nowMs : Nat) (a : Alarm) : Alarm :=
  { a with
    count := saturatingAdd a.count 1
    lastMs := nowMs
    detail := render detail
    severity := if a.severity < severity then severity else a.severity }

/-- The order in which rows give way. -/
def urgency (a : Alarm) : Severity ×ₗ Nat := toLex (a.severity, a.lastMs)

def removeAt (rows : Bounded Alarm cap) (idx : Nat) (h : idx < rows.toList.length) :
    Bounded Alarm cap :=
  ⟨swapRemove rows.toList idx, by
    have hlength := length_swapRemove h
    have hle := rows.length_le
    omega⟩

/-- The least severe row, the stalest of them, gives way to something strictly worse. -/
def evictFor (b : AlarmBoard cap) (severity : Severity) : Bool × AlarmBoard cap :=
  match List.leastBy (fun p => urgency p.1) b.alarms.toList.zipIdx with
  | none => (false, b)
  | some (victim, idx) =>
    if severity ≤ victim.severity then (false, b)
    else if h : idx < b.alarms.toList.length then
      (true, ⟨removeAt b.alarms idx h, saturatingSucc64 b.dropped⟩)
    else (false, b)

def isFull (b : AlarmBoard cap) : Bool := b.alarms.toList.length = cap

def raise (b : AlarmBoard cap) (kind : AlarmKind) (subject : Subject) (severity : Severity)
    (detail : List (List Char)) (nowMs : Nat) : Raised × AlarmBoard cap :=
  match b.alarms.changeFirst (fun a => a.kind = kind ∧ a.subject = subject)
      (fold severity detail nowMs) with
  | some (existing, alarms) =>
    (if existing.severity < severity then .escalated else .coalesced, { b with alarms })
  | none =>
    let alarm : Alarm := ⟨kind, subject, severity, nowMs, nowMs, 1, render detail⟩
    if b.isFull then
      match b.evictFor severity with
      | (false, b) => (.dropped, { b with dropped := saturatingSucc64 b.dropped })
      | (true, b) => (.new, { b with alarms := (b.alarms.push alarm).1 })
    else (.new, { b with alarms := (b.alarms.push alarm).1 })

def clear (b : AlarmBoard cap) (kind : AlarmKind) (subject : Subject) : Bool × AlarmBoard cap :=
  let idx := b.alarms.toList.findIdx fun a => a.condition = ⟨kind, subject⟩
  if h : idx < b.alarms.toList.length then (true, { b with alarms := removeAt b.alarms idx h })
  else (false, b)

def conditions (b : AlarmBoard cap) : List Condition := b.alarms.toList.map Alarm.condition

/-! ### What a raise and a clear do -/

section Effects
variable {b : AlarmBoard cap} {kind : AlarmKind} {subject : Subject} {severity : Severity}
  {detail : List (List Char)} {nowMs : Nat}

def freshRow (kind : AlarmKind) (subject : Subject) (severity : Severity)
    (detail : List (List Char)) (nowMs : Nat) : Alarm :=
  ⟨kind, subject, severity, nowMs, nowMs, 1, render detail⟩

/-- Which row gives way, and that none does only where all are at least as severe. -/
theorem evictFor_cases (b : AlarmBoard cap) (severity : Severity) :
    (b.evictFor severity = (false, b) ∧ ∀ a ∈ b.alarms.toList, severity ≤ a.severity) ∨
    ∃ idx, ∃ h : idx < b.alarms.toList.length, (b.alarms.toList[idx]).severity < severity ∧
      (∀ a ∈ b.alarms.toList, urgency b.alarms.toList[idx] ≤ urgency a) ∧
      b.evictFor severity =
        (true, ⟨removeAt b.alarms idx h, saturatingSucc64 b.dropped⟩) := by
  unfold evictFor
  split
  · rename_i hnone
    have hempty : b.alarms.toList = [] := by
      simpa using List.leastBy_eq_none.mp hnone
    refine Or.inl ⟨rfl, ?_⟩
    rw [hempty]
    intro a ha
    cases ha
  · rename_i victim idx hleast
    obtain ⟨hmem, hall⟩ := List.leastBy_spec hleast
    obtain ⟨hidx, hvictim⟩ := List.mem_zipIdx' hmem
    have hmin : ∀ a ∈ b.alarms.toList, urgency victim ≤ urgency a := by
      intro a ha
      obtain ⟨i, hi, rfl⟩ := List.getElem_of_mem ha
      exact hall (b.alarms.toList[i], i) (List.mk_mem_zipIdx_iff_getElem?.mpr
        (List.getElem?_eq_getElem hi))
    split
    · rename_i hle
      refine Or.inl ⟨rfl, ?_⟩
      intro a ha
      have hurgency := (Prod.Lex.le_iff.mp (hmin a ha))
      rcases hurgency with hlt | ⟨heq, _⟩
      · exact hle.trans (le_of_lt hlt)
      · exact hle.trans (le_of_eq heq)
    · rename_i hnot
      rw [hvictim] at hmin hnot
      exact Or.inr ⟨idx, hidx, not_le.mp hnot, hmin, rfl⟩

theorem toList_push_of_lt {rows : Bounded Alarm cap} {a : Alarm} (h : rows.toList.length < cap) :
    (rows.push a).1.toList = rows.toList ++ [a] :=
  Bounded.toList_push (Bounded.push_of_lt h)

/-- All that a raise can do. -/
theorem raise_cases (hnodup : b.conditions.Nodup) :
    (⟨kind, subject⟩ ∈ b.conditions ∧ (b.raise kind subject severity detail nowMs).1 ≠ .dropped ∧
      (b.raise kind subject severity detail nowMs).2.alarms.toList = b.alarms.toList.map
        (fun a => if a.condition = ⟨kind, subject⟩ then fold severity detail nowMs a else a) ∧
      (b.raise kind subject severity detail nowMs).2.dropped = b.dropped) ∨
    (⟨kind, subject⟩ ∉ b.conditions ∧
      ((b.alarms.toList.length < cap ∧
        b.raise kind subject severity detail nowMs =
          (.new, { b with
            alarms := (b.alarms.push (freshRow kind subject severity detail nowMs)).1 })) ∨
      (b.isFull = true ∧ ∃ idx, ∃ h : idx < b.alarms.toList.length,
        (b.alarms.toList[idx]).severity < severity ∧
        (∀ a ∈ b.alarms.toList, urgency b.alarms.toList[idx] ≤ urgency a) ∧
        (b.raise kind subject severity detail nowMs).1 = .new ∧
        (b.raise kind subject severity detail nowMs).2.alarms.toList =
          swapRemove b.alarms.toList idx ++ [freshRow kind subject severity detail nowMs] ∧
        (b.raise kind subject severity detail nowMs).2.dropped = saturatingSucc64 b.dropped) ∨
      (b.isFull = true ∧ (∀ a ∈ b.alarms.toList, severity ≤ a.severity) ∧
        b.raise kind subject severity detail nowMs =
          (.dropped, { b with dropped := saturatingSucc64 b.dropped })))) := by
  unfold raise
  cases hfirst : b.alarms.changeFirst (fun a => a.kind = kind ∧ a.subject = subject)
      (fold severity detail nowMs) with
  | some found =>
    obtain ⟨existing, alarms⟩ := found
    have hrows := Bounded.toList_changeFirst hfirst
    have hfound : existing ∈ b.alarms.toList ∧ existing.condition = ⟨kind, subject⟩ := by
      obtain ⟨before, after, hsplit, _, htest, _⟩ := List.changeFirst_split hrows
      obtain ⟨hkind, hsubject⟩ := of_decide_eq_true htest
      rw [hsplit]
      refine ⟨List.mem_append_right before List.mem_cons_self, ?_⟩
      rw [Alarm.condition, hkind, hsubject]
    left
    refine ⟨?_, ?_, ?_, rfl⟩
    · rw [← hfound.2]
      exact List.mem_map_of_mem hfound.1
    · dsimp only
      split
      · exact nofun
      · exact nofun
    · have hall := List.changeFirst_eq_map hnodup (fun a ha => by
        obtain ⟨hkind, hsubject⟩ := of_decide_eq_true ha
        rw [hfound.2, Alarm.condition, hkind, hsubject]) hrows
      dsimp only
      rw [hall]
      apply List.map_congr_left
      intro a _
      simp [Alarm.condition]
  | none =>
    have hnone := Bounded.changeFirst_eq_none.mp hfirst
    right
    refine ⟨?_, ?_⟩
    · intro hmem
      obtain ⟨a, ha, hcond⟩ := List.mem_map.mp hmem
      obtain ⟨hkind, hsubject⟩ := Condition.mk.inj hcond
      have hnot := of_decide_eq_false (hnone a ha)
      exact hnot ⟨hkind, hsubject⟩
    · dsimp only
      by_cases hfull : b.isFull = true
      · rw [if_pos hfull]
        right
        rcases evictFor_cases b severity with ⟨heq, hall⟩ | ⟨idx, h, hworse, hmin, heq⟩
        · rw [heq]
          exact Or.inr ⟨hfull, hall, rfl⟩
        · rw [heq]
          refine Or.inl ⟨hfull, idx, h, hworse, hmin, rfl, ?_, rfl⟩
          apply toList_push_of_lt
          have hlength := length_swapRemove h
          have hle := b.alarms.length_le
          change (swapRemove b.alarms.toList idx).length < cap
          omega
      · rw [if_neg hfull]
        left
        refine ⟨?_, rfl⟩
        have hle := b.alarms.length_le
        have hne : b.alarms.toList.length ≠ cap := by
          intro heq
          exact hfull (decide_eq_true heq)
        omega

theorem clear_rows (kind : AlarmKind) (subject : Subject) (hnodup : b.conditions.Nodup) :
    ((b.clear kind subject).2.conditions).Nodup ∧
      (∀ a, a ∈ (b.clear kind subject).2.alarms.toList ↔
        a ∈ b.alarms.toList ∧ a.condition ≠ ⟨kind, subject⟩) ∧
      (b.clear kind subject).2.dropped = b.dropped := by
  unfold clear
  dsimp only
  split
  · rename_i h
    exact ⟨nodup_swapRemove hnodup h, fun a => mem_swapRemove_findIdx hnodup h, rfl⟩
  · rename_i h
    refine ⟨hnodup, ?_, rfl⟩
    intro a
    exact ⟨fun ha => ⟨ha, key_ne_of_findIdx h ha⟩, fun ha => ha.1⟩

end Effects

end AlarmBoard

/-! ### The board beside its history -/

inductive BoardOp where
  | raise (kind : AlarmKind) (subject : Subject) (severity : Severity)
      (detail : List (List Char)) (nowMs : Nat)
  | clear (kind : AlarmKind) (subject : Subject)

namespace BoardOp

def condition : BoardOp → Condition
  | .raise kind subject _ _ _ => ⟨kind, subject⟩
  | .clear kind subject => ⟨kind, subject⟩

def raised : BoardOp → Option Severity
  | .raise _ _ severity _ _ => some severity
  | .clear _ _ => none

def time : BoardOp → Option Nat
  | .raise _ _ _ _ nowMs => some nowMs
  | .clear _ _ => none

end BoardOp

namespace AlarmBoard

variable {cap : Nat}

def apply (b : AlarmBoard cap) : BoardOp → Option Raised × AlarmBoard cap
  | .raise kind subject severity detail nowMs =>
    let r := b.raise kind subject severity detail nowMs
    (some r.1, r.2)
  | .clear kind subject => (none, (b.clear kind subject).2)

/-- A row gives way to a condition that is new to a full board and strictly worse, and no
other row is less severe, or as severe and staler. -/
def GivesWay (b : AlarmBoard cap) (a : Alarm) (op : BoardOp) : Prop :=
  ∃ severity ∈ op.raised, op.condition ∉ b.conditions ∧ b.isFull = true ∧ a.severity < severity ∧
    ∀ other ∈ b.alarms.toList, urgency a ≤ urgency other

/-- A condition is new to a board full of others at least as severe. -/
def Refuses (b : AlarmBoard cap) (op : BoardOp) : Prop :=
  ∃ severity ∈ op.raised, op.condition ∉ b.conditions ∧ b.isFull = true ∧
    ∀ a ∈ b.alarms.toList, severity ≤ a.severity

end AlarmBoard

/-- A board, the severities of the raises of every row since it entered, how many raises were
refused and how many rows gave way, and the time of the last raise. -/
structure WatchedBoard (cap : Nat) where
  board : AlarmBoard cap
  since : Condition → List Severity
  refusals : Nat
  evictions : Nat
  lastMs : Nat

namespace WatchedBoard

variable {cap : Nat}

def new : WatchedBoard cap := ⟨.new, fun _ => [], 0, 0, 0⟩

/-- The conditions an operation takes off the board. -/
def left (w : WatchedBoard cap) (op : BoardOp) : List Condition :=
  w.board.conditions.filter fun c => decide (c ∉ (w.board.apply op).2.conditions)

def step (w : WatchedBoard cap) (op : BoardOp) : WatchedBoard cap where
  board := (w.board.apply op).2
  since := fun c =>
    if c ∉ (w.board.apply op).2.conditions then []
    else if c = op.condition then w.since c ++ op.raised.toList
    else w.since c
  refusals := w.refusals + if (w.board.apply op).1 = some .dropped then 1 else 0
  evictions := w.evictions + if op.raised.isSome then (w.left op).length else 0
  lastMs := op.time.getD w.lastMs

/-- Raises come in the order of their times. -/
def Ordered (w : WatchedBoard cap) (op : BoardOp) : Prop := ∀ nowMs ∈ op.time, w.lastMs ≤ nowMs

instance (w : WatchedBoard cap) (op : BoardOp) : Decidable (Ordered w op) :=
  inferInstanceAs (Decidable (∀ nowMs ∈ op.time, w.lastMs ≤ nowMs))

/-- A row says the worst that was raised since it entered, and how often. -/
structure RowSound (w : WatchedBoard cap) (a : Alarm) : Prop where
  worst : a.severity ∈ w.since a.condition ∧ ∀ severity ∈ w.since a.condition, severity ≤ a.severity
  count : a.count.toNat = min (w.since a.condition).length (2 ^ 32 - 1)
  window : a.firstMs ≤ a.lastMs
  past : a.lastMs ≤ w.lastMs

structure Inv (w : WatchedBoard cap) : Prop where
  nodup : w.board.conditions.Nodup
  rows : ∀ a ∈ w.board.alarms.toList, RowSound w a
  absent : ∀ c, c ∉ w.board.conditions → w.since c = []
  dropped : w.board.dropped = min (w.refusals + w.evictions) (2 ^ 64 - 1)

/-! ### One operation -/

section Step
variable {w w' : WatchedBoard cap} {op : BoardOp} {a : Alarm} {c : Condition}

theorem RowSound.of_since (h : RowSound w a) (hsince : w'.since a.condition = w.since a.condition)
    (htime : w.lastMs ≤ w'.lastMs) : RowSound w' a where
  worst := by
    rw [hsince]
    exact h.worst
  count := by
    rw [hsince]
    exact h.count
  window := h.window
  past := h.past.trans htime

theorem since_other (hmem : c ∈ (w.board.apply op).2.conditions) (hne : c ≠ op.condition) :
    (w.step op).since c = w.since c := by
  unfold step
  dsimp only
  rw [if_neg (not_not_intro hmem), if_neg hne]

theorem since_raised (hmem : op.condition ∈ (w.board.apply op).2.conditions) :
    (w.step op).since op.condition = w.since op.condition ++ op.raised.toList := by
  unfold step
  dsimp only
  rw [if_neg (not_not_intro hmem), if_pos rfl]

theorem since_absent (hnot : c ∉ (w.board.apply op).2.conditions) : (w.step op).since c = [] :=
  if_pos hnot

theorem lastMs_le (hordered : Ordered w op) : w.lastMs ≤ (w.step op).lastMs := by
  change w.lastMs ≤ op.time.getD w.lastMs
  cases htime : op.time with
  | none => exact Nat.le_refl _
  | some nowMs => exact hordered nowMs htime

theorem condition_mem (ha : a ∈ w.board.alarms.toList) : a.condition ∈ w.board.conditions :=
  List.mem_map_of_mem ha

theorem RowSound.step_other (h : RowSound w a) (hordered : Ordered w op)
    (hmem : a ∈ (w.board.apply op).2.alarms.toList) (hne : a.condition ≠ op.condition) :
    RowSound (w.step op) a :=
  h.of_since (since_other (List.mem_map_of_mem hmem) hne) (lastMs_le hordered)

theorem ne_of_new (hnew : op.condition ∉ w.board.conditions) (ha : a ∈ w.board.alarms.toList) :
    a.condition ≠ op.condition := by
  intro heq
  apply hnew
  rw [← heq]
  exact condition_mem ha

theorem left_eq_nil (h : ∀ c ∈ w.board.conditions, c ∈ (w.board.apply op).2.conditions) :
    w.left op = [] := by
  apply List.filter_eq_nil_iff.mpr
  intro c hc
  simpa using h c hc

section Raise
variable {kind : AlarmKind} {subject : Subject} {severity : Severity}
  {detail : List (List Char)} {nowMs : Nat}

theorem rowSound_fresh (h : w.Inv) (hnew : ⟨kind, subject⟩ ∉ w.board.conditions)
    (hmem : ⟨kind, subject⟩ ∈
      (w.board.apply (.raise kind subject severity detail nowMs)).2.conditions) :
    RowSound (w.step (.raise kind subject severity detail nowMs))
      (AlarmBoard.freshRow kind subject severity detail nowMs) := by
  have hsince : (w.step (.raise kind subject severity detail nowMs)).since ⟨kind, subject⟩ =
      [severity] := by
    refine (since_raised hmem).trans ?_
    change w.since ⟨kind, subject⟩ ++ [severity] = [severity]
    rw [h.absent _ hnew, List.nil_append]
  constructor
  · change severity ∈ (w.step _).since ⟨kind, subject⟩ ∧
      ∀ s ∈ (w.step _).since ⟨kind, subject⟩, s ≤ severity
    rw [hsince]
    simp
  · change (1 : U32).toNat = min ((w.step _).since ⟨kind, subject⟩).length _
    rw [hsince, List.length_singleton]
    decide
  · exact Nat.le_refl _
  · exact Nat.le_refl _

theorem rowSound_fold (h : RowSound w a)
    (hordered : Ordered w (.raise kind subject severity detail nowMs))
    (hcond : a.condition = ⟨kind, subject⟩)
    (hmem : ⟨kind, subject⟩ ∈
      (w.board.apply (.raise kind subject severity detail nowMs)).2.conditions) :
    RowSound (w.step (.raise kind subject severity detail nowMs))
      (AlarmBoard.fold severity detail nowMs a) := by
  have hsince : (w.step (.raise kind subject severity detail nowMs)).since a.condition =
      w.since a.condition ++ [severity] := by
    rw [hcond]
    exact since_raised hmem
  have hnow : w.lastMs ≤ nowMs := hordered nowMs rfl
  have hkept : (AlarmBoard.fold severity detail nowMs a).condition = a.condition := rfl
  constructor
  · rw [hkept, hsince]
    obtain ⟨hin, hall⟩ := h.worst
    unfold AlarmBoard.fold
    dsimp only
    split
    · rename_i hworse
      refine ⟨List.mem_append_right _ List.mem_cons_self, ?_⟩
      rw [List.forall_mem_append, List.forall_mem_singleton]
      exact ⟨fun s hs => (hall s hs).trans (le_of_lt hworse), le_refl _⟩
    · rename_i hnot
      refine ⟨List.mem_append_left _ hin, ?_⟩
      rw [List.forall_mem_append, List.forall_mem_singleton]
      exact ⟨hall, not_lt.mp hnot⟩
  · rw [hkept, hsince, List.length_append, List.length_singleton]
    change (saturatingAdd a.count 1).toNat = _
    rw [saturatingAdd_toNat, h.count]
    have hone : (1 : U32).toNat = 1 := rfl
    omega
  · exact h.window.trans (h.past.trans hnow)
  · exact Nat.le_refl nowMs

end Raise

theorem saturatingSucc64_min (n : Nat) :
    saturatingSucc64 (min n (2 ^ 64 - 1)) = min (n + 1) (2 ^ 64 - 1) := by
  unfold saturatingSucc64
  omega

theorem counters_kept (h : w.Inv) (hout : (w.board.apply op).1 ≠ some .dropped)
    (hleft : op.raised.isSome → w.left op = [])
    (hdropped : (w.board.apply op).2.dropped = w.board.dropped) :
    (w.step op).board.dropped =
      min ((w.step op).refusals + (w.step op).evictions) (2 ^ 64 - 1) := by
  have hrefusals : (w.step op).refusals = w.refusals := by
    unfold step
    dsimp only
    rw [if_neg hout, Nat.add_zero]
  have hevictions : (w.step op).evictions = w.evictions := by
    unfold step
    dsimp only
    split
    · rename_i hraise
      rw [hleft hraise]
      rfl
    · rfl
  rw [hrefusals, hevictions, ← h.dropped]
  exact hdropped

section RaiseKept
variable {kind : AlarmKind} {subject : Subject} {severity : Severity}
  {detail : List (List Char)} {nowMs : Nat}

theorem Inv.raise_folded (h : w.Inv)
    (hordered : Ordered w (.raise kind subject severity detail nowMs))
    (hmem : ⟨kind, subject⟩ ∈ w.board.conditions)
    (hout : (w.board.raise kind subject severity detail nowMs).1 ≠ .dropped)
    (hrows : (w.board.raise kind subject severity detail nowMs).2.alarms.toList =
      w.board.alarms.toList.map fun a => if a.condition = ⟨kind, subject⟩ then
        AlarmBoard.fold severity detail nowMs a else a)
    (hdropped : (w.board.raise kind subject severity detail nowMs).2.dropped = w.board.dropped) :
    (w.step (.raise kind subject severity detail nowMs)).Inv := by
  have hconds : (w.board.apply (.raise kind subject severity detail nowMs)).2.conditions =
      w.board.conditions := by
    change List.map Alarm.condition (w.board.raise _ _ _ _ _).2.alarms.toList = _
    rw [hrows, List.map_map]
    apply List.map_congr_left
    intro a _
    simp only [Function.comp_apply]
    split
    · rfl
    · rfl
  refine ⟨?_, ?_, fun c hc => since_absent hc, ?_⟩
  · change (w.board.apply _).2.conditions.Nodup
    rw [hconds]
    exact h.nodup
  · intro a' ha'
    have hrow : a' ∈ (w.board.apply (.raise kind subject severity detail nowMs)).2.alarms.toList :=
      ha'
    change a' ∈ (w.board.raise _ _ _ _ _).2.alarms.toList at ha'
    rw [hrows] at ha'
    obtain ⟨a, ha, heq⟩ := List.mem_map.mp ha'
    split at heq
    · rename_i hcond
      rw [← heq]
      apply rowSound_fold (h.rows a ha) hordered hcond
      rw [hconds]
      exact hmem
    · rename_i hcond
      rw [heq] at ha hcond
      exact (h.rows a' ha).step_other hordered hrow hcond
  · have hkept : (w.board.apply (.raise kind subject severity detail nowMs)).2.dropped =
        w.board.dropped := hdropped
    apply counters_kept h _ _ hkept
    · intro hd
      exact hout (Option.some.inj hd)
    · intro _
      apply left_eq_nil
      intro c hc
      rw [hconds]
      exact hc

theorem Inv.raise_added (h : w.Inv)
    (hordered : Ordered w (.raise kind subject severity detail nowMs))
    (hnew : ⟨kind, subject⟩ ∉ w.board.conditions) (hroom : w.board.alarms.toList.length < cap)
    (heq : w.board.raise kind subject severity detail nowMs = (.new, { w.board with
      alarms :=
        (w.board.alarms.push (AlarmBoard.freshRow kind subject severity detail nowMs)).1 })) :
    (w.step (.raise kind subject severity detail nowMs)).Inv := by
  have hrows : (w.board.apply (.raise kind subject severity detail nowMs)).2.alarms.toList =
      w.board.alarms.toList ++ [AlarmBoard.freshRow kind subject severity detail nowMs] := by
    change (w.board.raise _ _ _ _ _).2.alarms.toList = _
    rw [heq]
    exact AlarmBoard.toList_push_of_lt hroom
  have hconds : (w.board.apply (.raise kind subject severity detail nowMs)).2.conditions =
      w.board.conditions ++ [⟨kind, subject⟩] := by
    unfold AlarmBoard.conditions
    rw [hrows, List.map_append]
    rfl
  refine ⟨?_, ?_, fun c hc => since_absent hc, ?_⟩
  · change (w.board.apply _).2.conditions.Nodup
    rw [hconds]
    refine List.nodup_append'.mpr ⟨h.nodup, by simp, ?_⟩
    simpa using hnew
  · intro a' ha'
    have hrow : a' ∈ (w.board.apply (.raise kind subject severity detail nowMs)).2.alarms.toList :=
      ha'
    rw [hrows] at hrow
    rcases List.mem_append.mp hrow with ha | ha
    · exact (h.rows a' ha).step_other hordered ha' (ne_of_new hnew ha)
    · obtain rfl := List.mem_singleton.mp ha
      apply rowSound_fresh h hnew
      rw [hconds]
      exact List.mem_append_right _ List.mem_cons_self
  · apply counters_kept h
    · change some (w.board.raise _ _ _ _ _).1 ≠ _
      rw [heq]
      exact nofun
    · intro _
      apply left_eq_nil
      intro c hc
      rw [hconds]
      exact List.mem_append_left _ hc
    · change (w.board.raise _ _ _ _ _).2.dropped = _
      rw [heq]

theorem Inv.raise_displacing (h : w.Inv)
    (hordered : Ordered w (.raise kind subject severity detail nowMs))
    (hnew : ⟨kind, subject⟩ ∉ w.board.conditions) {idx : Nat}
    (hidx : idx < w.board.alarms.toList.length)
    (hout : (w.board.raise kind subject severity detail nowMs).1 = .new)
    (hrows : (w.board.raise kind subject severity detail nowMs).2.alarms.toList =
      swapRemove w.board.alarms.toList idx ++
        [AlarmBoard.freshRow kind subject severity detail nowMs])
    (hdropped : (w.board.raise kind subject severity detail nowMs).2.dropped =
      saturatingSucc64 w.board.dropped) :
    (w.step (.raise kind subject severity detail nowMs)).Inv := by
  have hmem : ∀ a, a ∈ swapRemove w.board.alarms.toList idx ↔
      a ∈ w.board.alarms.toList ∧ a.condition ≠ (w.board.alarms.toList[idx]).condition :=
    fun a => mem_swapRemove h.nodup hidx
  have hconds : (w.board.apply (.raise kind subject severity detail nowMs)).2.conditions =
      (swapRemove w.board.alarms.toList idx).map Alarm.condition ++ [⟨kind, subject⟩] := by
    change List.map Alarm.condition (w.board.raise _ _ _ _ _).2.alarms.toList = _
    rw [hrows, List.map_append]
    rfl
  have hcond : ∀ c ∈ w.board.conditions,
      (c ∉ (w.board.apply (.raise kind subject severity detail nowMs)).2.conditions ↔
        c = (w.board.alarms.toList[idx]).condition) := by
    intro c hc
    have hne : c ≠ ⟨kind, subject⟩ := fun heq => hnew (heq ▸ hc)
    obtain ⟨a, ha, rfl⟩ := List.mem_map.mp hc
    rw [hconds, List.mem_append, List.mem_singleton, not_or]
    constructor
    · intro hgone
      by_contra hother
      exact hgone.1 (List.mem_map_of_mem ((hmem a).mpr ⟨ha, hother⟩))
    · intro heq
      refine ⟨?_, hne⟩
      intro hin
      obtain ⟨a', ha', hsame⟩ := List.mem_map.mp hin
      exact ((hmem a').mp ha').2 (hsame.trans heq)
  have hleft : (w.left (.raise kind subject severity detail nowMs)).length = 1 := by
    unfold left
    have hfilter : (w.board.conditions.filter fun c => decide
        (c ∉ (w.board.apply (.raise kind subject severity detail nowMs)).2.conditions)) =
        w.board.conditions.filter
          fun c => decide (c = (w.board.alarms.toList[idx]).condition) := by
      apply List.filter_congr
      intro c hc
      exact decide_eq_decide.mpr (hcond c hc)
    rw [hfilter]
    have hone := List.count_eq_one_of_mem h.nodup
      (condition_mem (List.getElem_mem hidx))
    rw [List.count_eq_countP, List.countP_eq_length_filter] at hone
    exact hone
  refine ⟨?_, ?_, fun c hc => since_absent hc, ?_⟩
  · change (w.board.apply _).2.conditions.Nodup
    rw [hconds]
    refine List.nodup_append'.mpr ⟨nodup_swapRemove h.nodup hidx, by simp, ?_⟩
    rw [List.disjoint_singleton]
    intro hin
    obtain ⟨a, ha, hsame⟩ := List.mem_map.mp hin
    exact hnew (hsame ▸ condition_mem ((hmem a).mp ha).1)
  · intro a' ha'
    have hrow : a' ∈ (w.board.apply (.raise kind subject severity detail nowMs)).2.alarms.toList :=
      ha'
    change a' ∈ (w.board.raise _ _ _ _ _).2.alarms.toList at ha'
    rw [hrows] at ha'
    rcases List.mem_append.mp ha' with ha | ha
    · have hold := ((hmem a').mp ha).1
      exact (h.rows a' hold).step_other hordered hrow (ne_of_new hnew hold)
    · obtain rfl := List.mem_singleton.mp ha
      apply rowSound_fresh h hnew
      rw [hconds]
      exact List.mem_append_right _ List.mem_cons_self
  · have hrefusals : (w.step (.raise kind subject severity detail nowMs)).refusals =
        w.refusals := by
      unfold step
      dsimp only
      rw [if_neg, Nat.add_zero]
      intro hd
      rw [show (w.board.apply (.raise kind subject severity detail nowMs)).1 =
        some (w.board.raise kind subject severity detail nowMs).1 from rfl, hout] at hd
      cases hd
    have hevictions : (w.step (.raise kind subject severity detail nowMs)).evictions =
        w.evictions + 1 := by
      unfold step
      dsimp only
      rw [hleft]
      rfl
    rw [hrefusals, hevictions, ← Nat.add_assoc, ← saturatingSucc64_min, ← h.dropped]
    exact hdropped

/-- A refused raise is counted and nothing else. -/
theorem step_refused
    (heq : w.board.raise kind subject severity detail nowMs =
      (.dropped, { w.board with dropped := saturatingSucc64 w.board.dropped })) :
    (w.step (.raise kind subject severity detail nowMs)).board =
        { w.board with dropped := saturatingSucc64 w.board.dropped } ∧
      (w.step (.raise kind subject severity detail nowMs)).refusals = w.refusals + 1 ∧
      (w.step (.raise kind subject severity detail nowMs)).evictions = w.evictions := by
  have hnext : (w.board.apply (.raise kind subject severity detail nowMs)).2 =
      { w.board with dropped := saturatingSucc64 w.board.dropped } := congrArg Prod.snd heq
  have hkept : ∀ c ∈ w.board.conditions,
      c ∈ (w.board.apply (.raise kind subject severity detail nowMs)).2.conditions := by
    rw [hnext]
    exact fun c hc => hc
  refine ⟨hnext, ?_, ?_⟩
  · unfold step
    dsimp only
    rw [if_pos]
    exact congrArg some (congrArg Prod.fst heq)
  · unfold step
    dsimp only
    rw [left_eq_nil hkept]
    rfl

theorem Inv.raise_refused (h : w.Inv)
    (hordered : Ordered w (.raise kind subject severity detail nowMs))
    (hnew : ⟨kind, subject⟩ ∉ w.board.conditions)
    (heq : w.board.raise kind subject severity detail nowMs =
      (.dropped, { w.board with dropped := saturatingSucc64 w.board.dropped })) :
    (w.step (.raise kind subject severity detail nowMs)).Inv := by
  obtain ⟨hnext, hrefusals, hevictions⟩ := step_refused heq
  change (w.board.apply (.raise kind subject severity detail nowMs)).2 = _ at hnext
  have hconds : (w.board.apply (.raise kind subject severity detail nowMs)).2.conditions =
      w.board.conditions := by
    rw [hnext]
    rfl
  refine ⟨?_, ?_, fun c hc => since_absent hc, ?_⟩
  · change (w.board.apply _).2.conditions.Nodup
    rw [hconds]
    exact h.nodup
  · intro a' ha'
    have hold : a' ∈ w.board.alarms.toList := by
      have hrow : a' ∈
          (w.board.apply (.raise kind subject severity detail nowMs)).2.alarms.toList := ha'
      rw [hnext] at hrow
      exact hrow
    exact (h.rows a' hold).step_other hordered ha' (ne_of_new hnew hold)
  · rw [hrefusals, hevictions, Nat.add_right_comm, ← saturatingSucc64_min, ← h.dropped]
    change (w.board.apply _).2.dropped = _
    rw [hnext]

theorem Inv.raise (h : w.Inv) (hordered : Ordered w (.raise kind subject severity detail nowMs)) :
    (w.step (.raise kind subject severity detail nowMs)).Inv := by
  rcases AlarmBoard.raise_cases h.nodup with
    ⟨hmem, hout, hrows, hdropped⟩ | ⟨hnew, ⟨hroom, heq⟩ | ⟨_, _, hidx, _, _, hout, hrows,
      hdropped⟩ | ⟨_, _, heq⟩⟩
  · exact h.raise_folded hordered hmem hout hrows hdropped
  · exact h.raise_added hordered hnew hroom heq
  · exact h.raise_displacing hordered hnew hidx hout hrows hdropped
  · exact h.raise_refused hordered hnew heq

end RaiseKept

theorem Inv.clear (h : w.Inv) (kind : AlarmKind) (subject : Subject) :
    (w.step (.clear kind subject)).Inv := by
  obtain ⟨hnodup, hrows, hdropped⟩ := AlarmBoard.clear_rows kind subject h.nodup
  refine ⟨hnodup, ?_, fun c hc => since_absent hc, ?_⟩
  · intro a' ha'
    obtain ⟨hold, hne⟩ := (hrows a').mp ha'
    exact (h.rows a' hold).step_other (by intro nowMs hnow; cases hnow) ha' hne
  · have hkept : (w.board.apply (.clear kind subject)).2.dropped = w.board.dropped := hdropped
    apply counters_kept h _ _ hkept
    · intro hd
      cases hd
    · intro hraise
      cases hraise

theorem Inv.step (h : w.Inv) (hordered : Ordered w op) : (w.step op).Inv := by
  cases op with
  | raise kind subject severity detail nowMs => exact h.raise hordered
  | clear kind subject => exact h.clear kind subject

theorem leaves (h : w.board.conditions.Nodup) (ha : a ∈ w.board.alarms.toList)
    (hgone : a.condition ∉ (w.board.apply op).2.conditions) :
    op = .clear a.kind a.subject ∨ w.board.GivesWay a op := by
  cases op with
  | clear kind subject =>
    left
    by_contra hother
    apply hgone
    apply List.mem_map_of_mem
    refine ((AlarmBoard.clear_rows kind subject h).2.1 a).mpr ⟨ha, ?_⟩
    intro hcond
    obtain ⟨rfl, rfl⟩ := Condition.mk.inj hcond
    exact hother rfl
  | raise kind subject severity detail nowMs =>
    right
    have hconds : (w.board.apply (.raise kind subject severity detail nowMs)).2.conditions =
        List.map Alarm.condition
          (w.board.raise kind subject severity detail nowMs).2.alarms.toList := rfl
    rw [hconds] at hgone
    rcases AlarmBoard.raise_cases h with
      ⟨_, _, hrows, _⟩ | ⟨hnew, ⟨hroom, heq⟩ | ⟨hfull, idx, hidx, hworse, hmin, _, hrows, _⟩ |
        ⟨_, _, heq⟩⟩
    · rw [hrows, List.map_map] at hgone
      refine absurd ?_ hgone
      apply List.mem_map.mpr
      refine ⟨a, ha, ?_⟩
      rw [Function.comp_apply]
      split
      · rfl
      · rfl
    · rw [heq] at hgone
      dsimp only at hgone
      rw [AlarmBoard.toList_push_of_lt hroom] at hgone
      exact absurd (List.mem_map_of_mem (List.mem_append_left _ ha)) hgone
    · have hvictim : a.condition = (w.board.alarms.toList[idx]).condition := by
        by_contra hother
        apply hgone
        rw [hrows]
        exact List.mem_map_of_mem
          (List.mem_append_left _ ((mem_swapRemove h hidx).mpr ⟨ha, hother⟩))
      have hsame : a = w.board.alarms.toList[idx] :=
        List.inj_on_of_nodup_map h ha (List.getElem_mem hidx) hvictim
      rw [hsame]
      exact ⟨severity, rfl, hnew, hfull, hworse, hmin⟩
    · rw [heq] at hgone
      exact absurd (List.mem_map_of_mem ha) hgone

theorem refuses (h : w.board.conditions.Nodup)
    (hdropped : (w.board.apply op).1 = some .dropped) : w.board.Refuses op := by
  cases op with
  | clear kind subject => cases hdropped
  | raise kind subject severity detail nowMs =>
    have hout : (w.board.raise kind subject severity detail nowMs).1 = .dropped :=
      Option.some.inj hdropped
    rcases AlarmBoard.raise_cases h with
      ⟨_, hnot, _⟩ | ⟨hnew, ⟨_, heq⟩ | ⟨_, _, _, _, _, hother, _⟩ | ⟨hfull, hall, _⟩⟩
    · exact absurd hout hnot
    · rw [heq] at hout
      cases hout
    · rw [hother] at hout
      cases hout
    · exact ⟨severity, rfl, hnew, hfull, hall⟩

end Step

/-! ### Whole runs -/

section Runs
variable {ops : List BoardOp}

theorem inv_new : (new : WatchedBoard cap).Inv where
  nodup := List.nodup_nil
  rows := by
    intro a ha
    cases ha
  absent := fun _ _ => rfl
  dropped := rfl

theorem run_inv (hordered : Run.AllSafe step Ordered (new : WatchedBoard cap) ops) :
    Run.AllGood step Inv (new : WatchedBoard cap) ops := by
  refine Run.allGood_of_allSafe inv_new ?_ hordered
  intro pre op h hop
  exact h.step hop

/-- However conditions are raised and cleared: one row for each at most and no more than the
board holds, each with the worst and the number of its raises since it entered; a row leaves
only when it is cleared or gives way, a raise is dropped only by a board full of others at
least as severe, and refusals and evictions are counted, up to what 64 bits hold. -/
theorem board_holds (hordered : Run.AllSafe step Ordered (new : WatchedBoard cap) ops)
    {pre : List BoardOp} (hpre : pre <+: ops) :
    (Run.run step (new : WatchedBoard cap) pre).board.conditions.Nodup ∧
      (Run.run step (new : WatchedBoard cap) pre).board.alarms.toList.length ≤ cap ∧
      (∀ a ∈ (Run.run step (new : WatchedBoard cap) pre).board.alarms.toList,
        RowSound (Run.run step (new : WatchedBoard cap) pre) a) ∧
      (∀ op, ∀ a ∈ (Run.run step (new : WatchedBoard cap) pre).board.alarms.toList,
        a.condition ∉ ((Run.run step (new : WatchedBoard cap) pre).board.apply op).2.conditions →
          op = .clear a.kind a.subject ∨
            (Run.run step (new : WatchedBoard cap) pre).board.GivesWay a op) ∧
      (∀ op, ((Run.run step (new : WatchedBoard cap) pre).board.apply op).1 = some .dropped →
        (Run.run step (new : WatchedBoard cap) pre).board.Refuses op) ∧
      (Run.run step (new : WatchedBoard cap) pre).board.dropped =
        min ((Run.run step (new : WatchedBoard cap) pre).refusals +
          (Run.run step (new : WatchedBoard cap) pre).evictions) (2 ^ 64 - 1) := by
  have h := run_inv hordered pre hpre
  refine ⟨h.nodup, Bounded.length_le _, h.rows, ?_, ?_, h.dropped⟩
  · intro op a ha hgone
    exact leaves h.nodup ha hgone
  · intro op hdropped
    exact refuses h.nodup hdropped

/-- A board of two rows: a condition raised twice, a second one and a third that the first gives
way to, a fourth that is refused, and the second is cleared. -/
def crowded : List BoardOp :=
  [.raise .linkErrors .none .info [] 1, .raise .linkErrors .none .info [] 2,
    .raise .trafficFlood .none .warning [] 3, .raise .selfRevoked .none .critical [] 4,
    .raise .certExpiring .none .info [] 5, .clear .trafficFlood .none]

theorem board_holds_raised :
    (Run.run step (new : WatchedBoard 2) crowded).board.conditions.Nodup ∧
      (∀ a ∈ (Run.run step (new : WatchedBoard 2) crowded).board.alarms.toList,
        RowSound (Run.run step (new : WatchedBoard 2) crowded) a) ∧
      (Run.run step (new : WatchedBoard 2) crowded).board.dropped =
        min ((Run.run step (new : WatchedBoard 2) crowded).refusals +
          (Run.run step (new : WatchedBoard 2) crowded).evictions) (2 ^ 64 - 1) ∧
      (Run.run step (new : WatchedBoard 2) crowded).refusals = 1 ∧
      (Run.run step (new : WatchedBoard 2) crowded).evictions = 1 ∧
      (Run.run step (new : WatchedBoard 2) crowded).board.conditions = [⟨.selfRevoked, .none⟩] := by
  have hordered : Run.AllSafe step Ordered (new : WatchedBoard 2) crowded := by decide +kernel
  obtain ⟨hnodup, -, hrows, -, -, hdropped⟩ := board_holds hordered (List.prefix_refl crowded)
  exact ⟨hnodup, hrows, hdropped, by decide +kernel, by decide +kernel, by decide +kernel⟩

end Runs

/-! ### The counter at its end -/

/-- The board keeps refusing an operation. -/
structure Stands (w : WatchedBoard cap) (op : BoardOp) : Prop where
  nodup : w.board.conditions.Nodup
  refuses : w.board.Refuses op
  ordered : Ordered w op

theorem Stands.step {w : WatchedBoard cap} {op : BoardOp} (h : w.Stands op) :
    (w.step op).Stands op ∧ (w.step op).board.dropped = saturatingSucc64 w.board.dropped ∧
      (w.step op).refusals = w.refusals + 1 ∧ (w.step op).evictions = w.evictions := by
  obtain ⟨severity, hraised, hnew, hfull, hall⟩ := h.refuses
  cases op with
  | clear kind subject => cases hraised
  | raise kind subject worst detail nowMs =>
    obtain rfl : worst = severity := Option.some.inj hraised
    rcases AlarmBoard.raise_cases h.nodup with
      ⟨hmem, _⟩ | ⟨_, ⟨hroom, _⟩ | ⟨_, idx, hidx, hless, _⟩ | ⟨_, _, heq⟩⟩
    · exact absurd hmem hnew
    · have heqcap : w.board.alarms.toList.length = cap := of_decide_eq_true hfull
      omega
    · exact absurd (hall _ (List.getElem_mem hidx)) (not_le.mpr hless)
    · obtain ⟨hnext, hrefusals, hevictions⟩ := step_refused heq
      refine ⟨?_, by rw [hnext], hrefusals, hevictions⟩
      constructor
      · rw [hnext]
        exact h.nodup
      · rw [hnext]
        exact ⟨worst, rfl, hnew, hfull, hall⟩
      · intro time htime
        obtain rfl := Option.some.inj htime
        exact Nat.le_refl _

theorem Stands.run {w : WatchedBoard cap} {op : BoardOp} (h : w.Stands op)
    (hdropped : w.board.dropped = min (w.refusals + w.evictions) (2 ^ 64 - 1)) (n : Nat) :
    Run.AllSafe WatchedBoard.step Ordered w (List.replicate n op) ∧
      (Run.run WatchedBoard.step w (List.replicate n op)).board.dropped =
        min (w.refusals + w.evictions + n) (2 ^ 64 - 1) ∧
      (Run.run WatchedBoard.step w (List.replicate n op)).refusals +
        (Run.run WatchedBoard.step w (List.replicate n op)).evictions =
          w.refusals + w.evictions + n := by
  induction n generalizing w with
  | zero => exact ⟨Run.allSafe_nil, hdropped, rfl⟩
  | succ n ih =>
    obtain ⟨hnext, hcount, hrefusals, hevictions⟩ := h.step
    have hkept : (w.step op).board.dropped =
        min ((w.step op).refusals + (w.step op).evictions) (2 ^ 64 - 1) := by
      rw [hcount, hdropped, saturatingSucc64_min, hrefusals, hevictions, Nat.add_right_comm]
    obtain ⟨hsafe, hend, hsum⟩ := ih hnext hkept
    have hmore : (w.step op).refusals + (w.step op).evictions + n =
        w.refusals + w.evictions + (n + 1) := by
      rw [hrefusals, hevictions]
      omega
    rw [hmore] at hend hsum
    exact ⟨Run.allSafe_cons.mpr ⟨h.ordered, hsafe⟩, hend, hsum⟩

/-- As many critical conditions as a board of sixteen rows holds. -/
def sixteen : List BoardOp :=
  (List.range 16).map fun idx =>
    .raise .linkErrors (.interface (BitVec.ofNat 8 idx)) .critical [] 0

def notice : BoardOp := .raise .linkErrors .none .info [] 0

/-- The counter of a board of sixteen stands still at the largest number it holds. -/
theorem dropped_stands_still :
    ¬∀ ops : List BoardOp, Run.AllSafe step Ordered (new : WatchedBoard 16) ops →
      (Run.run step (new : WatchedBoard 16) ops).board.dropped =
        (Run.run step (new : WatchedBoard 16) ops).refusals +
          (Run.run step (new : WatchedBoard 16) ops).evictions := by
  intro h
  have hsafe : Run.AllSafe step Ordered (new : WatchedBoard 16) sixteen := by decide +kernel
  have hstart := run_inv hsafe sixteen (List.prefix_refl _)
  have hstands : (Run.run step (new : WatchedBoard 16) sixteen).Stands notice :=
    ⟨hstart.nodup, ⟨.info, rfl, by decide +kernel, by decide +kernel, by decide +kernel⟩,
      by decide +kernel⟩
  obtain ⟨hmore, hend, hsum⟩ := hstands.run hstart.dropped (2 ^ 64)
  have hall := h (sixteen ++ List.replicate (2 ^ 64) notice)
    (hsafe.append hmore)
  rw [Run.run_append, hend, hsum] at hall
  omega

end WatchedBoard

end Wayfinder
