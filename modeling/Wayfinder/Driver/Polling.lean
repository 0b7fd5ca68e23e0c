import Mathlib.Data.Prod.Lex
import Wayfinder.Auth.Rows
import Wayfinder.ChallengeSchedule
import Wayfinder.DueOrder
import Wayfinder.Driver.Receive
import Wayfinder.Lib.Loop
import Wayfinder.TrickleSchedule

/-!
# What falls due

The periodic work of a driver: announcements, heartbeats, challenges, a probe and a renewal,
planned into its sink. The first three are loops that run until the router has nothing left
at this moment; each turn is to move its timer past it.
-/

namespace Wayfinder

set_option autoImplicit false

open Table

namespace MeshSink

def emitFrame (s : MeshSink) (egress : Egress) : Option LinkFrameData → MeshSink
  | none => s
  | some f => (s.emit ⟨f.dst, f.protocol, f.payload, egress⟩).1

end MeshSink

namespace NodeRouter

variable {e : Capacities} {a : AuthCapacities} {t : TableCapacities}

def onInterfaceEmitted (n : NodeRouter e a t) (idx : Nat) (now : Duration) : NodeRouter e a t :=
  n.withCore { n.core with batman := n.core.batman.onInterfaceEmitted idx now }

def onKeepaliveEmitted (n : NodeRouter e a t) (idx : Nat) (now : Duration) : NodeRouter e a t :=
  n.withCore { n.core with batman := n.core.batman.onKeepaliveEmitted idx now }

/-- One turn of the announcements. A link that does not announce has its timer moved on all
the same. -/
def ogmTurn (k : Crypto) (now : Duration) (txLen : Nat) (st : NodeRouter e a t × MeshSink) :
    (NodeRouter e a t × MeshSink) × Bool :=
  match st.1.core.batman.dueInterface now with
  | none => (st, false)
  | some idx =>
    let (n, frame) := if (st.1.managed.linkFeatures idx).txOgm then st.1.poll k now txLen
      else (st.1, none)
    ((n.onInterfaceEmitted idx now, st.2.emitFrame (.iface idx) frame), true)

def pollDueOgms (k : Crypto) (now : Duration) (txLen fuel : Nat)
    (st : NodeRouter e a t × MeshSink) : Option (NodeRouter e a t × MeshSink) :=
  Loop.iterate (ogmTurn k now txLen) fuel st

def keepaliveTurn (k : Crypto) (now : Duration) (txLen : Nat)
    (st : NodeRouter e a t × MeshSink) : (NodeRouter e a t × MeshSink) × Bool :=
  match st.1.core.batman.dueKeepaliveInterface now with
  | none => (st, false)
  | some idx =>
    let (core, frame) := st.1.core.pollKeepalive k txLen
    (((st.1.withCore core).onKeepaliveEmitted idx now, st.2.emitFrame (.iface idx) frame), true)

def pollDueKeepalives (k : Crypto) (now : Duration) (txLen fuel : Nat)
    (st : NodeRouter e a t × MeshSink) : Option (NodeRouter e a t × MeshSink) :=
  Loop.iterate (keepaliveTurn k now txLen) fuel st

/-- A challenge goes out on every interface whose gate lets it, whatever the routes say. -/
def fanChallenge (n : NodeRouter e a t) (ifaces : Nat) (frame : LinkFrameData)
    (sink : MeshSink) : MeshSink :=
  (List.range ifaces).foldl (fun sink idx =>
    if n.linkMayTx idx (some .nextHopChallenge) then sink.emitFrame (.iface idx) (some frame)
    else sink) sink

/-- One turn of the challenges. The round ends at a neighbor none can be written for, who
counts as challenged. -/
def challengeTurn (k : Crypto) (now : Duration) (txLen ifaces : Nat)
    (st : NodeRouter e a t × MeshSink) : (NodeRouter e a t × MeshSink) × Bool :=
  let (core, polled) := st.1.core.pollChallenge k now txLen
  let n := st.1.withCore core
  match polled with
  | none => ((n, st.2), false)
  | some (_, frame) => ((n, n.fanChallenge ifaces frame st.2), true)

def pollDueChallenges (k : Crypto) (now : Duration) (txLen fuel : Nat)
    (st : NodeRouter e a t × MeshSink) : Option (NodeRouter e a t × MeshSink) :=
  Loop.iterate (challengeTurn k now txLen st.1.managed.ifaceCount) fuel st

/-- One probe a call, however many have been missed. -/
def pollDuePings (now : Duration) (txLen : Nat) (st : NodeRouter e a t × MeshSink) :
    NodeRouter e a t × MeshSink :=
  let (p, frame) := st.1.asPing.pollPing now txLen
  (st.1.withPing p, st.2.emitFrame .auto frame)

def pollDueRenewal (k : Crypto) (now : Duration) (txLen : Nat)
    (st : NodeRouter e a t × MeshSink) : NodeRouter e a t × MeshSink :=
  let (n, frame) := st.1.pollRenewal k now txLen
  (n, st.2.emitFrame .auto frame)

/-- All but the renewal, which is for the shells that can make it last. -/
def pollDueAll (k : Crypto) (now : Duration) (txLen fuel : Nat)
    (st : NodeRouter e a t × MeshSink) : Option (NodeRouter e a t × MeshSink) := do
  let st ← pollDueOgms k now txLen fuel st
  let st ← pollDueKeepalives k now txLen fuel st
  let st ← pollDueChallenges k now txLen fuel st
  some (pollDuePings now txLen st)

end NodeRouter

/-! ### Timers served at one moment -/

namespace TrickleTimer

variable {t : TrickleTimer} {now : Duration}

theorem wait_pos_iff (t : TrickleTimer) (span : Duration) :
    0 < (t.jittered span).2 ↔ 2 ≤ span % 2 ^ 64 := by
  have hdrawn : ∀ half scaled spanNs : Nat, half = spanNs / 2 →
      scaled < max (spanNs - half) 1 → (0 < half + scaled ↔ 2 ≤ spanNs) := by
    intro half scaled spanNs hhalf hscaled
    omega
  exact hdrawn _ _ _ rfl (t.scaled_jittered span)

/-- The interval after so many emissions. -/
def intervalAfter (t : TrickleTimer) (m : Nat) : Duration :=
  (fun interval => min (interval * 2) t.iMax)^[m] t.interval

theorem serve_interval (t : TrickleTimer) (now : Duration) (m : Nat) :
    ((fun t => t.onEmit now)^[m] t).interval = t.intervalAfter m := by
  induction m generalizing t with
  | zero => rfl
  | succ m ih => exact ih (t.onEmit now)

theorem due_onEmit_iff (t : TrickleTimer) (now : Duration) :
    (t.onEmit now).due now = false ↔ 2 ≤ t.interval % 2 ^ 64 := by
  rw [← t.wait_pos_iff]
  show decide (now + (t.jittered t.interval).2 ≤ now) = false ↔ _
  rw [decide_eq_false_iff_not, Nat.not_le]
  exact Nat.lt_add_right_iff_pos

/-- Emitting over and over at one moment moves the timer past it exactly if one of its
intervals has two nanoseconds in its low sixty-four bits. -/
theorem wears_iff (t : TrickleTimer) (now : Duration) :
    Loop.Wears (fun t => t.due now) (fun t => t.onEmit now) t ↔
      t.due now = false ∨ ∃ m, 2 ≤ t.intervalAfter m % 2 ^ 64 := by
  constructor
  · intro ⟨m, hm⟩
    cases m with
    | zero => exact .inl hm
    | succ m =>
      rw [Function.iterate_succ_apply'] at hm
      right
      refine ⟨m, ?_⟩
      rw [← t.serve_interval now]
      exact (due_onEmit_iff _ now).mp hm
  · intro h
    rcases h with hidle | ⟨m, hm⟩
    · exact ⟨0, hidle⟩
    · refine ⟨m + 1, ?_⟩
      rw [Function.iterate_succ_apply']
      rw [← t.serve_interval now] at hm
      exact (due_onEmit_iff _ now).mpr hm

end TrickleTimer

namespace TimerSlots

variable {slots : TimerSlots} {now : Duration} {idx : Nat}

theorem pick_eq_some (h : slots.pick now = some idx) :
    ∃ t, (t, idx) ∈ slots ∧ t.due now = true := by
  rw [pick_eq] at h
  obtain ⟨p, hp, rfl⟩ := Option.map_eq_some_iff.mp h
  obtain ⟨hmem, hdue⟩ := List.mem_filter.mp (List.mem_of_mem_head? hp)
  exact ⟨p.1, hmem, hdue⟩

theorem pick_eq_none (h : slots.pick now = none) {t : TrickleTimer} (ht : (t, idx) ∈ slots) :
    t.due now = false := by
  rw [pick_eq, Option.map_eq_none_iff, List.head?_eq_none_iff] at h
  have hnot := List.filter_eq_nil_iff.mp h (t, idx) ht
  simpa using hnot

end TimerSlots

namespace BatmanEngine

variable {c : Capacities} {b : BatmanEngine c} {now : Duration} {idx : Nat} {t : TrickleTimer}

theorem mem_ogmSlots : (t, idx) ∈ b.ogmSlots ↔ b.ogmTimers.toList[idx]? = some t := by
  unfold ogmSlots
  rw [List.mem_zipIdx_iff_getElem?]

theorem mem_keepaliveSlots :
    (t, idx) ∈ b.keepaliveSlots ↔ b.keepaliveTimers.toList[idx]? = some (some t) := by
  unfold keepaliveSlots
  rw [List.mem_filterMap]
  constructor
  · intro ⟨p, hp, heq⟩
    obtain ⟨timer, i⟩ := p
    obtain ⟨t', htimer, heq⟩ := Option.map_eq_some_iff.mp heq
    obtain ⟨rfl, rfl⟩ := Prod.mk.inj heq
    rw [← htimer]
    exact List.mem_zipIdx_iff_getElem?.mp hp
  · intro h
    exact ⟨(some t, idx), List.mem_zipIdx_iff_getElem?.mpr h, rfl⟩

theorem dueInterface_eq_some (h : b.dueInterface now = some idx) :
    ∃ t, b.ogmTimers.toList[idx]? = some t ∧ t.due now = true := by
  have hpick : TimerSlots.pick b.ogmSlots now = some idx := h
  obtain ⟨t, ht, hdue⟩ := TimerSlots.pick_eq_some hpick
  exact ⟨t, mem_ogmSlots.mp ht, hdue⟩

theorem dueInterface_eq_none (h : b.dueInterface now = none) :
    ∀ t ∈ b.ogmTimers.toList, t.due now = false := by
  intro t ht
  have hpick : TimerSlots.pick b.ogmSlots now = none := h
  obtain ⟨idx, hidx⟩ := List.mem_iff_getElem?.mp ht
  exact TimerSlots.pick_eq_none hpick (mem_ogmSlots.mpr hidx)

theorem dueKeepaliveInterface_eq_some (h : b.dueKeepaliveInterface now = some idx) :
    ∃ t, b.keepaliveTimers.toList[idx]? = some (some t) ∧ t.due now = true := by
  have hpick : TimerSlots.pick b.keepaliveSlots now = some idx := h
  obtain ⟨t, ht, hdue⟩ := TimerSlots.pick_eq_some hpick
  exact ⟨t, mem_keepaliveSlots.mp ht, hdue⟩

theorem dueKeepaliveInterface_eq_none (h : b.dueKeepaliveInterface now = none) :
    ∀ t, some t ∈ b.keepaliveTimers.toList → t.due now = false := by
  intro t ht
  have hpick : TimerSlots.pick b.keepaliveSlots now = none := h
  obtain ⟨idx, hidx⟩ := List.mem_iff_getElem?.mp ht
  exact TimerSlots.pick_eq_none hpick (mem_keepaliveSlots.mpr hidx)

end BatmanEngine

/-! ### The heartbeats -/

theorem CentralRouter.pollKeepalive_batman {e : Capacities} {a : AuthCapacities} (k : Crypto)
    (r : CentralRouter e a) (txLen : Nat) : (r.pollKeepalive k txLen).1.batman = r.batman := by
  unfold pollKeepalive
  dsimp only
  split
  · rfl
  split
  · rfl
  split
  · rfl
  · rfl

namespace NodeRouter

variable {e : Capacities} {a : AuthCapacities} {t : TableCapacities} {k : Crypto}
  {now : Duration} {txLen : Nat}

def slotDue (now : Duration) (slot : Option TrickleTimer) : Bool := slot.any fun t => t.due now

def slotServed (now : Duration) (slot : Option TrickleTimer) : Option TrickleTimer :=
  slot.map fun t => t.onEmit now

theorem wears_slot {t : TrickleTimer} : Loop.Wears (slotDue now) (slotServed now) (some t) ↔
    Loop.Wears (fun t => t.due now) (fun t => t.onEmit now) t := by
  have hserved : ∀ (m : Nat) (t : TrickleTimer), (slotServed now)^[m] (some t) =
      some ((fun t => t.onEmit now)^[m] t) := by
    intro m
    induction m with
    | zero => exact fun t => rfl
    | succ m ih => exact fun t => ih (t.onEmit now)
  unfold Loop.Wears
  simp only [hserved]
  rfl

theorem keepaliveTurn_serves (k : Crypto) (now : Duration) (txLen : Nat) :
    Loop.Serves (keepaliveTurn (e := e) (a := a) (t := t) k now txLen)
      (fun st => st.1.core.batman.keepaliveTimers.toList) (slotDue now) (slotServed now)
      (fun _ => True) := by
  intro st _ hgoes
  unfold keepaliveTurn at hgoes ⊢
  cases hdue : st.1.core.batman.dueKeepaliveInterface now with
  | none =>
    rw [hdue] at hgoes
    cases hgoes
  | some idx =>
    obtain ⟨t, hslot, ht⟩ := BatmanEngine.dueKeepaliveInterface_eq_some hdue
    refine ⟨trivial, idx, some t, hslot, ht, ?_⟩
    have hkept := CentralRouter.pollKeepalive_batman k st.1.core txLen
    show ((st.1.core.pollKeepalive k txLen).1.batman.keepaliveTimers.toList.modify idx _) = _
    rw [hkept, List.modify_eq_set_getElem?, hslot]
    rfl

/-- The heartbeats of a moment come to an end exactly if the interval of every timer that is
due has two nanoseconds in its low sixty-four bits, now or after some doublings. -/
theorem keepalives_return_iff (k : Crypto) (now : Duration) (txLen : Nat)
    (st : NodeRouter e a t × MeshSink) :
    (∃ r, Loop.Returns (keepaliveTurn k now txLen) st r) ↔
      ∀ timer, some timer ∈ st.1.core.batman.keepaliveTimers.toList →
        timer.due now = true → ∃ m, 2 ≤ timer.intervalAfter m % 2 ^ 64 := by
  rw [(keepaliveTurn_serves k now txLen).returns_iff ?_ trivial]
  · constructor
    · intro hwears timer htimer hdue
      rcases (timer.wears_iff now).mp (wears_slot.mp (hwears _ htimer)) with hidle | hlong
      · rw [hdue] at hidle
        cases hidle
      · exact hlong
    · intro hlong slot hslot
      cases slot with
      | none => exact ⟨0, rfl⟩
      | some timer =>
        apply wears_slot.mpr
        apply (timer.wears_iff now).mpr
        cases hdue : timer.due now with
        | false => exact .inl rfl
        | true => exact .inr (hlong timer hslot hdue)
  · intro st _ hlast slot hslot
    unfold keepaliveTurn at hlast
    cases hdue : st.1.core.batman.dueKeepaliveInterface now with
    | some idx =>
      rw [hdue] at hlast
      cases hlast
    | none =>
      cases slot with
      | none => rfl
      | some timer => exact BatmanEngine.dueKeepaliveInterface_eq_none hdue timer hslot

end NodeRouter

/-! ### The announcements -/

namespace TrickleTimer

variable {t : TrickleTimer} {now : Duration}

/-- Emitting over and over, the timer draws a wait at some point. -/
def Draws (t : TrickleTimer) : Prop := ∃ m, 2 ≤ t.intervalAfter m % 2 ^ 64

def atFloor (t : TrickleTimer) : TrickleTimer := { t with interval := t.iMin }

theorem intervalAfter_reset (t : TrickleTimer) (now : Duration) (m : Nat) :
    (t.reset now).intervalAfter m = t.atFloor.intervalAfter m ∧
      (t.reset now).atFloor.intervalAfter m = t.atFloor.intervalAfter m := by
  unfold TrickleTimer.reset
  dsimp only
  split
  · exact ⟨rfl, rfl⟩
  · exact ⟨rfl, rfl⟩

theorem draws_reset (t : TrickleTimer) (now : Duration) :
    ((t.reset now).Draws ↔ t.atFloor.Draws) ∧
      ((t.reset now).atFloor.Draws ↔ t.atFloor.Draws) := by
  unfold Draws
  simp only [t.intervalAfter_reset now, and_self]

theorem due_reset (hdue : t.due now = true) : (t.reset now).due now = true := by
  have hfire : t.nextFire ≤ now := of_decide_eq_true hdue
  have hkept : ¬ now + t.iMin < t.nextFire :=
    Nat.not_lt_of_le (Nat.le_trans hfire (Nat.le_add_right _ _))
  unfold TrickleTimer.reset
  dsimp only
  rw [if_neg hkept]
  exact hdue

theorem intervalAfter_of_settled (hsettled : t.interval = t.iMax) (m : Nat) :
    t.intervalAfter m = t.iMax := by
  have hfixed : min (t.iMax * 2) t.iMax = t.iMax :=
    Nat.min_eq_right (Nat.le_mul_of_pos_right _ Nat.two_pos)
  unfold intervalAfter
  rw [hsettled]
  exact Function.iterate_fixed (f := fun interval => min (interval * 2) t.iMax) hfixed m

theorem not_draws_of_settled (hsettled : t.interval = t.iMax) (hlow : t.iMax % 2 ^ 64 < 2) :
    ¬ t.Draws := by
  intro ⟨m, hm⟩
  rw [intervalAfter_of_settled hsettled] at hm
  exact absurd hm (Nat.not_le_of_lt hlow)

/-- The timer gets past the moment if it is due, and would if it were due after a reset. -/
structure Passes (now : Duration) (t : TrickleTimer) : Prop where
  draws : t.due now = true → t.Draws
  floor : t.atFloor.Draws

theorem Passes.wears (h : t.Passes now) :
    Loop.Wears (fun t => t.due now) (fun t => t.onEmit now) t := by
  apply (t.wears_iff now).mpr
  cases hdue : t.due now with
  | false => exact .inl rfl
  | true => exact .inr (h.draws hdue)

theorem Passes.onEmit (hdue : t.due now = true) (h : t.Passes now) :
    (t.onEmit now).Passes now := by
  refine ⟨?_, h.floor⟩
  intro hstill
  obtain ⟨m, hm⟩ := h.draws hdue
  cases m with
  | zero =>
    -- It has drawn a wait just now.
    rw [(due_onEmit_iff t now).mpr hm] at hstill
    cases hstill
  | succ m => exact ⟨m, hm⟩

theorem Passes.reset (h : t.Passes now) : (t.reset now).Passes now := by
  obtain ⟨hdraws, hfloor⟩ := t.draws_reset now
  exact ⟨fun _ => hdraws.mpr h.floor, hfloor.mpr h.floor⟩

/-- Due now, and every wait it draws is empty, also after a reset. -/
structure Stuck (now : Duration) (t : TrickleTimer) : Prop where
  due : t.due now = true
  undrawn : ¬ t.Draws
  floor : ¬ t.atFloor.Draws

theorem Stuck.onEmit (h : t.Stuck now) : (t.onEmit now).Stuck now := by
  refine ⟨?_, fun ⟨m, hm⟩ => h.undrawn ⟨m + 1, hm⟩, h.floor⟩
  cases hdue : (t.onEmit now).due now with
  | true => rfl
  | false => exact absurd ⟨0, (due_onEmit_iff t now).mp hdue⟩ h.undrawn

theorem Stuck.reset (h : t.Stuck now) : (t.reset now).Stuck now := by
  obtain ⟨hdraws, hfloor⟩ := t.draws_reset now
  exact ⟨due_reset h.due, fun hd => h.floor (hdraws.mp hd), fun hd => h.floor (hfloor.mp hd)⟩

end TrickleTimer

namespace BatmanEngine

variable {c : Capacities} {b : BatmanEngine c}

def holding (b : BatmanEngine c) : Nat :=
  (b.originatorTable.values.map fun r => 1 + r.paths.toList.length).sum

/-- What is left to lose, and whether a loss is to be announced. -/
def unrest (b : BatmanEngine c) : Nat := 2 * b.holding + if b.topologyChanged then 1 else 0

/-- From one announcement of a moment to the next the timers stand still, or are reset for a
loss that the next has no more to tell of. -/
def Announces (now : Duration) (b b' : BatmanEngine c) : Prop :=
  b'.ogmTimers = b.ogmTimers ∧ b'.unrest ≤ b.unrest ∨
    b'.ogmTimers = b.ogmTimers.map (fun t => t.reset now) ∧ b'.unrest < b.unrest

theorem sum_filter {α : Type} (f : α → Nat) (hpos : ∀ x, 0 < f x) (p : α → Bool) (xs : List α) :
    ((xs.filter p).map f).sum ≤ (xs.map f).sum ∧
      ((xs.filter p).length ≠ xs.length → ((xs.filter p).map f).sum < (xs.map f).sum) := by
  induction xs with
  | nil => exact ⟨Nat.le_refl _, fun hne => absurd rfl hne⟩
  | cons x xs ih =>
    obtain ⟨hle, hlt⟩ := ih
    have hx := hpos x
    cases hp : p x with
    | true =>
      rw [List.filter_cons_of_pos hp, List.map_cons, List.map_cons, List.sum_cons, List.sum_cons]
      refine ⟨Nat.add_le_add_left hle _, ?_⟩
      intro hne
      exact Nat.add_lt_add_left (hlt fun heq => hne (congrArg (· + 1) heq)) _
    | false =>
      rw [List.filter_cons_of_neg (by rw [hp]; exact Bool.false_ne_true), List.map_cons,
        List.sum_cons]
      refine ⟨Nat.le_trans hle (Nat.le_add_left _ _), fun _ => ?_⟩
      exact Nat.lt_of_le_of_lt hle (Nat.lt_add_of_pos_left hx)

theorem sum_pointwise {α : Type} (f g : α → Nat) (hle : ∀ x, g x ≤ f x) (xs : List α) :
    (xs.map g).sum ≤ (xs.map f).sum ∧
      (xs.map g ≠ xs.map f → (xs.map g).sum < (xs.map f).sum) := by
  induction xs with
  | nil => exact ⟨Nat.le_refl _, fun hne => absurd rfl hne⟩
  | cons x xs ih =>
    obtain ⟨hrest, hlt⟩ := ih
    rw [List.map_cons, List.map_cons, List.sum_cons, List.sum_cons]
    refine ⟨Nat.add_le_add (hle x) hrest, ?_⟩
    intro hne
    by_cases heq : g x = f x
    · rw [heq]
      refine Nat.add_lt_add_left (hlt fun hsame => hne ?_) _
      rw [heq, hsame]
    · exact Nat.add_lt_add_of_lt_of_le (Nat.lt_of_le_of_ne (hle x) heq) hrest

/-- What is held never grows in a sweep, and shrinks when the sweep has something to tell. -/
theorem purgeStale_holding (b : BatmanEngine c) (now : Duration) :
    (b.purgeStale now).holding ≤ b.holding ∧
      ((b.purgeStale now).topologyChanged = true → b.topologyChanged = false →
        (b.purgeStale now).holding < b.holding) := by
  let keep : NeighborStats → Bool := fun p =>
    !pathStale (Millis.fromDuration now) p b.seedIntervalMs
  let size : OriginatorRecord → Nat := fun r => 1 + r.paths.toList.length
  have hsize : ∀ r, 0 < size r := fun r => Nat.add_pos_left Nat.one_pos _
  let swept : List OriginatorRecord := b.originatorTable.values.map fun r =>
    recomputeBest (prunePaths r keep) (BatmanEngine.isSelectable
      { b with originatorTable := b.originatorTable.mapEntries fun _ r => prunePaths r keep } now)
  have hvalues : (b.purgeStale now).originatorTable.values =
      swept.filter fun r => !r.paths.toList.isEmpty := by
    show (List.filter _ (List.map _ (List.map _ b.originatorTable.entries))).map Prod.snd = _
    unfold swept IndexMap.values
    rw [List.map_map, List.filter_map, List.map_map, List.map_map, List.filter_map]
    rfl
  have hsizes : swept.map size = b.originatorTable.values.map fun r =>
      size (prunePaths r keep) := by
    unfold swept
    rw [List.map_map]
    apply List.map_congr_left
    intro r _
    show 1 + (recomputeBest _ _).paths.toList.length = _
    rw [recomputeBest_paths]
  obtain ⟨hpruned, hpruned'⟩ := sum_pointwise size (fun r => size (prunePaths r keep))
    (fun r => Nat.add_le_add_left (List.length_filter_le _ _) 1) b.originatorTable.values
  obtain ⟨hkept, hkept'⟩ := sum_filter size hsize (fun r => !r.paths.toList.isEmpty) swept
  rw [hsizes] at hkept hkept'
  have hholding : (b.purgeStale now).holding =
      ((swept.filter fun r => !r.paths.toList.isEmpty).map size).sum := by
    unfold holding
    rw [hvalues]
  rw [hholding]
  refine ⟨Nat.le_trans hkept hpruned, ?_⟩
  intro hchanged hcalm
  have htold : ((b.purgeStale now).originatorTable.len ≠ b.originatorTable.len) ∨
      (b.originatorTable.values.map fun r => size (prunePaths r keep)) ≠
        b.originatorTable.values.map size := by
    have hflag : ((b.topologyChanged || decide ((b.purgeStale now).originatorTable.len ≠
        b.originatorTable.len)) || decide ((b.originatorTable.mapEntries fun _ r =>
          prunePaths r keep).values.map (fun r => r.paths.toList.length) ≠
            b.originatorTable.values.map fun r => r.paths.toList.length)) = true := hchanged
    rw [hcalm, Bool.false_or, Bool.or_eq_true, decide_eq_true_eq, decide_eq_true_eq] at hflag
    refine hflag.imp id ?_
    intro hlens hsame
    apply hlens
    have hless := congrArg (List.map fun m => m - 1) hsame
    rw [List.map_map, List.map_map] at hless
    have hone : ∀ r : OriginatorRecord, size r - 1 = r.paths.toList.length :=
      fun r => Nat.add_sub_cancel_left 1 _
    unfold IndexMap.values at hless ⊢
    unfold IndexMap.mapEntries
    rw [List.map_map, List.map_map] at hless ⊢
    simpa only [Function.comp_def, hone, List.map_map] using hless
  rcases htold with hrows | hpaths
  · have hcount : (swept.filter fun r => !r.paths.toList.isEmpty).length ≠ swept.length := by
      rw [← hvalues]
      unfold swept
      rw [List.length_map]
      unfold IndexMap.values
      rw [List.length_map, List.length_map]
      exact hrows
    exact Nat.lt_of_lt_of_le (hkept' hcount) hpruned
  · exact Nat.lt_of_le_of_lt hkept (hpruned' hpaths)

theorem produce_announces (b : BatmanEngine c) (now : Duration) :
    b.Announces now (b.producePeriodicBroadcast now).1 := by
  obtain ⟨hle, hlt⟩ := b.purgeStale_holding now
  have hkept : (b.producePeriodicBroadcast now).1.holding = (b.purgeStale now).holding ∧
      (b.producePeriodicBroadcast now).1.topologyChanged = false ∧
      (b.producePeriodicBroadcast now).1.ogmTimers =
        if (b.purgeStale now).topologyChanged then b.ogmTimers.map fun t => t.reset now
        else b.ogmTimers := by
    show ((b.purgeStale now).applyTopologyChange now).holding = _ ∧
      ((b.purgeStale now).applyTopologyChange now).topologyChanged = _ ∧
      ((b.purgeStale now).applyTopologyChange now).ogmTimers = _
    unfold applyTopologyChange
    cases hflag : (b.purgeStale now).topologyChanged with
    | true => exact ⟨rfl, rfl, rfl⟩
    | false => exact ⟨rfl, hflag, rfl⟩
  obtain ⟨hholding, hcalm, htimers⟩ := hkept
  have hunrest : (b.producePeriodicBroadcast now).1.unrest = 2 * (b.purgeStale now).holding := by
    unfold unrest
    rw [hholding, hcalm, if_neg Bool.false_ne_true, Nat.add_zero]
  unfold Announces
  rw [htimers, hunrest]
  unfold unrest
  cases hflag : (b.purgeStale now).topologyChanged with
  | false =>
    left
    exact ⟨rfl, Nat.le_trans (Nat.mul_le_mul_left 2 hle) (Nat.le_add_right _ _)⟩
  | true =>
    right
    refine ⟨rfl, ?_⟩
    cases hbefore : b.topologyChanged with
    | true => exact Nat.lt_succ_of_le (Nat.mul_le_mul_left 2 hle)
    | false => exact Nat.mul_lt_mul_of_pos_left (hlt hflag hbefore) (by decide)

end BatmanEngine

namespace BatmanEngine

variable {c : Capacities} {b b' b'' : BatmanEngine c} {now : Duration}

theorem Announces.refl (b : BatmanEngine c) : b.Announces now b := .inl ⟨rfl, Nat.le_refl _⟩

theorem Announces.of_calm (htimers : b'.ogmTimers = b.ogmTimers) (hunrest : b'.unrest ≤ b.unrest)
    (h : b'.Announces now b'') : b.Announces now b'' := by
  rcases h with ⟨hsame, hle⟩ | ⟨hreset, hlt⟩
  · exact .inl ⟨hsame.trans htimers, Nat.le_trans hle hunrest⟩
  · right
    rw [htimers] at hreset
    exact ⟨hreset, Nat.lt_of_lt_of_le hlt hunrest⟩

theorem unrest_reset (b : BatmanEngine c) : b.reset.unrest ≤ b.unrest :=
  Nat.add_le_add_right (Nat.zero_le _) _

end BatmanEngine

namespace NodeRouter

variable {e : Capacities} {a : AuthCapacities} {t : TableCapacities} {k : Crypto}
  {now : Duration} {txLen : Nat}

theorem corePoll_announces (k : Crypto) (r : CentralRouter e a) (now : Duration) (txLen : Nat) :
    r.batman.Announces now (r.poll k now txLen).1.batman := by
  have hrevoked : r.applySelfRevocation.1.batman = r.batman ∨
      r.applySelfRevocation.1.batman = r.batman.reset := by
    unfold CentralRouter.applySelfRevocation
    split
    · exact .inl rfl
    split
    · exact .inl rfl
    · exact .inr rfl
  have hcalm : r.applySelfRevocation.1.batman.ogmTimers = r.batman.ogmTimers ∧
      r.applySelfRevocation.1.batman.unrest ≤ r.batman.unrest := by
    rcases hrevoked with hsame | hreset
    · rw [hsame]
      exact ⟨rfl, Nat.le_refl _⟩
    · rw [hreset]
      exact ⟨rfl, BatmanEngine.unrest_reset _⟩
  apply BatmanEngine.Announces.of_calm hcalm.1 hcalm.2
  unfold CentralRouter.poll
  dsimp only
  split
  · exact .refl _
  · split
    · exact BatmanEngine.produce_announces ..
    · exact BatmanEngine.produce_announces ..

theorem core_poll (k : Crypto) (n : NodeRouter e a t) (now : Duration) (txLen : Nat) :
    (n.poll k now txLen).1.core = (n.core.poll k now txLen).1 := by
  unfold poll
  dsimp only
  split
  · exact core_afterCore ..
  · exact (core_retainLive _).trans (core_afterCore ..)

/-- What a turn does to the timers: after what the announcement leaves of them, the one that
was due moves on. -/
theorem ogmTurn_next {st : NodeRouter e a t × MeshSink}
    (hgoes : (ogmTurn k now txLen st).2 = true) :
    ∃ b idx, st.1.core.batman.Announces now b ∧
      st.1.core.batman.dueInterface now = some idx ∧
      (ogmTurn k now txLen st).1.1.core.batman = b.onInterfaceEmitted idx now := by
  unfold ogmTurn at hgoes ⊢
  cases hdue : st.1.core.batman.dueInterface now with
  | none =>
    rw [hdue] at hgoes
    cases hgoes
  | some idx =>
    dsimp only
    split
    · refine ⟨(st.1.poll k now txLen).1.core.batman, idx, ?_, rfl, rfl⟩
      rw [core_poll]
      exact corePoll_announces ..
    · exact ⟨st.1.core.batman, idx, .refl _, rfl, rfl⟩

theorem ogmTurn_last {st : NodeRouter e a t × MeshSink}
    (hlast : (ogmTurn k now txLen st).2 = false) :
    (ogmTurn k now txLen st).1 = st ∧ st.1.core.batman.dueInterface now = none := by
  unfold ogmTurn at hlast ⊢
  cases hdue : st.1.core.batman.dueInterface now with
  | none => exact ⟨rfl, rfl⟩
  | some idx =>
    rw [hdue] at hlast
    cases hlast

theorem mem_modify {α : Type} {f : α → α} {xs : List α} {i : Nat} {y : α}
    (h : y ∈ xs.modify i f) : y ∈ xs ∨ ∃ x, xs[i]? = some x ∧ y = f x := by
  obtain ⟨j, hj⟩ := List.mem_iff_getElem?.mp h
  rw [List.getElem?_modify] at hj
  obtain ⟨x, hx, rfl⟩ := Option.map_eq_some_iff.mp hj
  split
  · rename_i heq
    exact .inr ⟨x, heq ▸ hx, rfl⟩
  · exact .inl (List.mem_of_getElem? hx)

theorem mem_modify_of_mem {α : Type} {xs : List α} {x : α} (i : Nat) (f : α → α)
    (h : x ∈ xs) : x ∈ xs.modify i f ∨ f x ∈ xs.modify i f := by
  obtain ⟨j, hj⟩ := List.mem_iff_getElem?.mp h
  have hmodified : (xs.modify i f)[j]? = some (if i = j then f x else x) := by
    rw [List.getElem?_modify, hj]
    rfl
  split at hmodified
  · exact .inr (List.mem_of_getElem? hmodified)
  · exact .inl (List.mem_of_getElem? hmodified)

theorem announced_due {b b' : BatmanEngine e} {idx : Nat} {timer : TrickleTimer}
    (hannounced : b.Announces now b') (hdue : b.dueInterface now = some idx)
    (htimer : b'.ogmTimers.toList[idx]? = some timer) : timer.due now = true := by
  obtain ⟨held, hheld, hnow⟩ := BatmanEngine.dueInterface_eq_some hdue
  rcases hannounced with ⟨hsame, -⟩ | ⟨hreset, -⟩
  · rw [hsame, hheld] at htimer
    exact Option.some.inj htimer ▸ hnow
  · rw [hreset] at htimer
    have hmapped : (b.ogmTimers.toList.map fun t => t.reset now)[idx]? = some timer := htimer
    rw [List.getElem?_map, hheld] at hmapped
    exact Option.some.inj hmapped ▸ TrickleTimer.due_reset hnow

/-- What resets keep of a timer, and an emission that was due, a turn keeps of all of them. -/
theorem ogmTurn_keeps {P : TrickleTimer → Prop}
    (hemit : ∀ timer, timer.due now = true → P timer → P (timer.onEmit now))
    (hreset : ∀ timer, P timer → P (timer.reset now)) {st : NodeRouter e a t × MeshSink}
    (hgoes : (ogmTurn k now txLen st).2 = true)
    (h : ∀ timer ∈ st.1.core.batman.ogmTimers.toList, P timer) :
    ∀ timer ∈ (ogmTurn k now txLen st).1.1.core.batman.ogmTimers.toList, P timer := by
  obtain ⟨b, idx, hannounced, hdue, hnext⟩ := ogmTurn_next hgoes
  have hb : ∀ timer ∈ b.ogmTimers.toList, P timer := by
    rcases hannounced with ⟨hsame, -⟩ | ⟨hreset', -⟩
    · rw [hsame]
      exact h
    · rw [hreset']
      intro timer htimer
      obtain ⟨before, hbefore, rfl⟩ := List.mem_map.mp htimer
      exact hreset before (h before hbefore)
  rw [hnext]
  intro timer htimer
  rcases mem_modify htimer with hold | ⟨before, hbefore, rfl⟩
  · exact hb timer hold
  · exact hemit before (announced_due hannounced hdue hbefore)
      (hb before (List.mem_of_getElem? hbefore))

theorem ogms_return_of_passes {st : NodeRouter e a t × MeshSink}
    (hpasses : ∀ timer ∈ st.1.core.batman.ogmTimers.toList, timer.Passes now) :
    ∃ r, Loop.Returns (ogmTurn k now txLen) st r ∧
      ∀ timer ∈ r.1.core.batman.ogmTimers.toList, timer.due now = false := by
  let I : NodeRouter e a t × MeshSink → Prop := fun st =>
    ∀ timer ∈ st.1.core.batman.ogmTimers.toList, timer.Passes now
  let left : TrickleTimer → Nat :=
    Loop.turnsLeft (fun t => t.due now) (fun t => t.onEmit now)
  let μ : NodeRouter e a t × MeshSink → Nat ×ₗ Nat := fun st =>
    toLex (st.1.core.batman.unrest, (st.1.core.batman.ogmTimers.toList.map left).sum)
  have hturn : ∀ st, I st → (ogmTurn k now txLen st).2 = true →
      I (ogmTurn k now txLen st).1 ∧ μ (ogmTurn k now txLen st).1 < μ st := by
    intro st hst hgoes
    refine ⟨ogmTurn_keeps (fun _ hdue h => h.onEmit hdue) (fun _ h => h.reset) hgoes hst, ?_⟩
    obtain ⟨b, idx, hannounced, hdue, hnext⟩ := ogmTurn_next hgoes
    unfold μ
    rw [hnext, Prod.Lex.toLex_lt_toLex]
    rcases hannounced with ⟨hsame, hle⟩ | ⟨-, hlt⟩
    · rcases Nat.lt_or_eq_of_le hle with hless | heq
      · exact .inl hless
      · right
        refine ⟨heq, ?_⟩
        obtain ⟨timer, htimer, hnow⟩ := BatmanEngine.dueInterface_eq_some hdue
        have hworn := (hst timer (List.mem_of_getElem? htimer)).wears
        show ((b.ogmTimers.toList.modify idx _).map left).sum < _
        rw [hsame, List.modify_eq_set_getElem?, htimer]
        exact Loop.sum_map_set_lt htimer (Loop.turnsLeft_serve hnow hworn)
    · exact .inl hlt
  obtain ⟨r, hr⟩ := Loop.returns_of_measure μ hturn hpasses
  obtain ⟨s', -, hlast⟩ := hr.invariant (fun _ _ => trivial) (I := fun _ => True) trivial
  obtain ⟨hsame, hidle⟩ := ogmTurn_last (congrArg Prod.snd hlast)
  refine ⟨r, hr, ?_⟩
  have hr' : r = s' := (congrArg Prod.fst hlast).symm.trans hsame
  rw [hr']
  exact BatmanEngine.dueInterface_eq_none hidle

theorem not_ogms_return_of_stuck {st : NodeRouter e a t × MeshSink}
    (hstuck : ∃ timer ∈ st.1.core.batman.ogmTimers.toList, timer.Stuck now) :
    ¬ ∃ r, Loop.Returns (ogmTurn k now txLen) st r := by
  refine Loop.not_returns_of_trap (I := fun st : NodeRouter e a t × MeshSink =>
    ∃ timer ∈ st.1.core.batman.ogmTimers.toList, timer.Stuck now) ?_ hstuck
  intro st ⟨timer, htimer, hstuck⟩
  have hgoes : (ogmTurn k now txLen st).2 = true := by
    cases hlast : (ogmTurn k now txLen st).2 with
    | true => rfl
    | false =>
      have hidle := BatmanEngine.dueInterface_eq_none (ogmTurn_last hlast).2 timer htimer
      rw [hstuck.due] at hidle
      cases hidle
  refine ⟨hgoes, ?_⟩
  obtain ⟨b, idx, hannounced, -, hnext⟩ := ogmTurn_next hgoes
  have hb : ∃ timer ∈ b.ogmTimers.toList, timer.Stuck now := by
    rcases hannounced with ⟨hsame, -⟩ | ⟨hreset, -⟩
    · rw [hsame]
      exact ⟨timer, htimer, hstuck⟩
    · rw [hreset]
      exact ⟨timer.reset now, List.mem_map_of_mem htimer, hstuck.reset⟩
  obtain ⟨held, hheld, hstill⟩ := hb
  rw [hnext]
  rcases mem_modify_of_mem idx (fun t => t.onEmit now) hheld with hkept | hserved
  · exact ⟨held, hkept, hstill⟩
  · exact ⟨held.onEmit now, hserved, hstill.onEmit⟩

/-- The announcements of a moment come to an end, with nothing left due, when every timer that
is due draws a wait at some point, and every timer would from its floor; they never do when a
timer that is due never draws one, neither from its interval nor from its floor. -/
theorem ogms_return (k : Crypto) (now : Duration) (txLen : Nat)
    (st : NodeRouter e a t × MeshSink) :
    ((∀ timer ∈ st.1.core.batman.ogmTimers.toList, timer.Passes now) →
      ∃ r, Loop.Returns (ogmTurn k now txLen) st r ∧
        ∀ timer ∈ r.1.core.batman.ogmTimers.toList, timer.due now = false) ∧
    ((∃ timer ∈ st.1.core.batman.ogmTimers.toList, timer.Stuck now) →
      ¬ ∃ r, Loop.Returns (ogmTurn k now txLen) st r) :=
  ⟨ogms_return_of_passes, not_ogms_return_of_stuck⟩

end NodeRouter

/-! ### The challenges -/

namespace BatmanEngine

variable {c : Capacities} {b : BatmanEngine c} {now : Duration} {m : Mac}

abbrev Attempt := Mac × Option (Millis × U32)

def Attempt.due (b : BatmanEngine c) (now : Duration) (x : Attempt) : Bool :=
  b.proofNeedsRefresh now x.1 && x.2.all fun p =>
    decide (b.challengeBackoffMs p.2 ≤ (Millis.fromDuration now).elapsedSince p.1)

def Attempt.again (now : Duration) (x : Attempt) : Attempt :=
  (x.1, some (Millis.fromDuration now, x.2.elim 0 fun p => saturatingAdd p.2 1))

theorem elapsedSince_now (now : Duration) :
    (Millis.fromDuration now).elapsedSince (Millis.fromDuration now) = 0 := by
  rw [Millis.elapsedSince_fromDuration (Nat.le_refl _) (by rw [Nat.sub_self]; decide)]
  exact Nat.sub_self _

theorem again_misses (now : Duration) (x : Attempt) (j : Nat) (hj : j ≤ 32) :
    ∃ misses : U32, ((Attempt.again now)^[j + 1] x).2 = some (Millis.fromDuration now, misses) ∧
      j ≤ misses.toNat := by
  induction j with
  | zero => exact ⟨_, rfl, Nat.zero_le _⟩
  | succ j ih =>
    obtain ⟨misses, hentry, hle⟩ := ih (by omega)
    refine ⟨saturatingAdd misses 1, ?_, ?_⟩
    · rw [Function.iterate_succ_apply']
      show some (Millis.fromDuration now, ((Attempt.again now)^[j + 1] x).2.elim 0 fun p =>
        saturatingAdd p.2 1) = _
      rw [hentry]
      rfl
    · rw [saturatingAdd_toNat]
      have hone : (1#32).toNat = 1 := rfl
      have hlt := misses.isLt
      show j + 1 ≤ min (misses.toNat + (1#32).toNat) (2 ^ 32 - 1)
      omega

theorem backoff_of_misses {misses : U32} (h : 32 ≤ misses.toNat) :
    b.challengeBackoffMs misses = b.seedIntervalMs := by
  unfold challengeBackoffMs
  dsimp only
  rw [if_pos (.inl h)]

theorem attempt_wears (hseed : 1 ≤ b.seedIntervalMs) (x : Attempt) :
    Loop.Wears (Attempt.due b now) (Attempt.again now) x := by
  obtain ⟨misses, hentry, hle⟩ := again_misses now x 32 (Nat.le_refl _)
  refine ⟨33, ?_⟩
  unfold Attempt.due
  rw [hentry, Option.all_some, elapsedSince_now, backoff_of_misses hle, decide_eq_false (by omega),
    Bool.and_false]

/-- The table of challenges has room for whoever offers a path. -/
def RoomForChallenges (b : BatmanEngine c) : Prop :=
  (b.challenged.keys ++ b.pathNeighbors).dedup.length ≤ c.maxOriginators

/-- The engine, but for who was challenged of a set that has room. -/
structure Challenging (b : BatmanEngine c) (b' : BatmanEngine c) : Prop where
  same : ∃ challenged, b' = { b with challenged := challenged }
  within : ∀ m ∈ b'.challenged.keys, m ∈ (b.challenged.keys ++ b.pathNeighbors).dedup

theorem challengeCandidate_eq_some {target : Mac} (h : b.challengeCandidate now = some target) :
    target ∈ b.pathNeighbors ∧ b.challengeDue now target = true := by
  unfold challengeCandidate at h
  split at h
  · cases h
  · exact ⟨List.mem_of_find?_eq_some h, List.find?_some h⟩

theorem Challenging.note {b' : BatmanEngine c} (now : Duration) (hroom : b.RoomForChallenges)
    (h : Challenging b b') {target : Mac} (htarget : target ∈ b.pathNeighbors) :
    Challenging b (b'.noteChallenged now target) ∧
      ∀ m, (b'.noteChallenged now target).challenged.get? m =
        if m = target then (Attempt.again now (target, b'.challenged.get? target)).2
        else b'.challenged.get? m := by
  have hmember : target ∈ (b.challenged.keys ++ b.pathNeighbors).dedup :=
    List.mem_dedup.mpr (List.mem_append_right _ htarget)
  have hfits : b'.challenged.contains target = true ∨ b'.challenged.len < c.maxOriginators := by
    cases hheld : b'.challenged.contains target with
    | true => exact .inl rfl
    | false =>
      right
      have hall : (target :: b'.challenged.keys).Nodup :=
        List.nodup_cons.mpr ⟨IndexMap.not_mem_keys hheld, b'.challenged.nodup⟩
      have hsub : target :: b'.challenged.keys ⊆ (b.challenged.keys ++ b.pathNeighbors).dedup := by
        intro m hm
        rcases List.mem_cons.mp hm with rfl | hkey
        · exact hmember
        · exact h.within m hkey
      have hcount := (List.subperm_of_subset hall hsub).length_le
      rw [List.length_cons] at hcount
      have hlen : b'.challenged.keys.length = b'.challenged.len := List.length_map _
      rw [← hlen]
      exact Nat.lt_of_lt_of_le hcount hroom
  obtain ⟨table, htable⟩ := IndexMap.insert_isSome hfits (v := (Millis.fromDuration now,
    (b'.challenged.get? target).elim 0 fun p => saturatingAdd p.2 1))
  have hnoted : (b'.noteChallenged now target) = { b' with challenged := table } := by
    unfold noteChallenged insertEvictingOldest
    dsimp only
    rw [htable]
  rw [hnoted]
  refine ⟨⟨?_, ?_⟩, fun m => IndexMap.get?_insert htable m⟩
  · obtain ⟨challenged, rfl⟩ := h.same
    exact ⟨table, rfl⟩
  · intro m hm
    by_cases heq : m = target
    · rw [heq]
      exact hmember
    · apply h.within m
      have hsome := IndexMap.contains_iff.mpr hm
      rw [IndexMap.contains_eq_isSome, IndexMap.get?_insert htable m, if_neg heq,
        ← IndexMap.contains_eq_isSome] at hsome
      exact IndexMap.contains_iff.mp hsome

end BatmanEngine

namespace NodeRouter

variable {e : Capacities} {a : AuthCapacities} {t : TableCapacities} {k : Crypto}
  {now : Duration} {txLen ifaces : Nat}

theorem pollChallenge_some {r : CentralRouter e a} {sent : Mac × LinkFrameData}
    (h : (r.pollChallenge k now txLen).2 = some sent) :
    ∃ target, r.batman.challengeCandidate now = some target ∧
      (r.pollChallenge k now txLen).1.batman = r.batman.noteChallenged now target := by
  unfold CentralRouter.pollChallenge at h ⊢
  split at h
  · cases h
  rename_i hopen
  rw [if_neg hopen]
  cases hcandidate : r.batman.challengeCandidate now with
  | none =>
    rw [hcandidate] at h
    cases h
  | some target =>
    refine ⟨target, rfl, ?_⟩
    dsimp only
    split
    · rfl
    · rfl

theorem challengeTurn_next {st : NodeRouter e a t × MeshSink}
    (hgoes : (challengeTurn k now txLen ifaces st).2 = true) :
    ∃ target, st.1.core.batman.challengeCandidate now = some target ∧
      (challengeTurn k now txLen ifaces st).1.1.core.batman =
        st.1.core.batman.noteChallenged now target := by
  have hsplit : ∃ sent, (st.1.core.pollChallenge k now txLen).2 = some sent := by
    unfold challengeTurn at hgoes
    dsimp only at hgoes
    split at hgoes
    · cases hgoes
    · rename_i heq
      exact ⟨_, heq⟩
  obtain ⟨sent, hsent⟩ := hsplit
  obtain ⟨target, hcandidate, hnoted⟩ := pollChallenge_some hsent
  refine ⟨target, hcandidate, ?_⟩
  unfold challengeTurn
  dsimp only
  rw [hsent]
  exact hnoted

theorem map_update {α β : Type} {f g : α → β} {xs : List α} (hnodup : xs.Nodup) {i : Nat} {x : α}
    {y : β} (hx : xs[i]? = some x) (hself : g x = y) (hother : ∀ z, z ≠ x → g z = f z) :
    xs.map g = (xs.map f).set i y := by
  induction xs generalizing i with
  | nil => cases hx
  | cons z zs ih =>
    obtain ⟨hfresh, hrest⟩ := List.nodup_cons.mp hnodup
    cases i with
    | zero =>
      obtain rfl := Option.some.inj hx
      rw [List.map_cons, List.map_cons, List.set_cons_zero, hself]
      refine congrArg _ (List.map_congr_left ?_)
      intro w hw
      apply hother
      intro heq
      exact hfresh (heq ▸ hw)
    | succ i =>
      rw [List.map_cons, List.map_cons, List.set_cons_succ, ih hrest hx, hother]
      intro heq
      exact hfresh (heq ▸ List.mem_of_getElem? hx)

/-- The challenges of a moment come to an end when the table has room for whoever offers a
path and the longest interval is a millisecond at least. -/
theorem challenges_return (k : Crypto) (now : Duration) (txLen ifaces : Nat)
    (st : NodeRouter e a t × MeshSink) (hroom : st.1.core.batman.RoomForChallenges)
    (hseed : 1 ≤ st.1.core.batman.seedIntervalMs) :
    ∃ r, Loop.Returns (challengeTurn k now txLen ifaces) st r := by
  let b := st.1.core.batman
  let targets := b.pathNeighbors.dedup
  let I : NodeRouter e a t × MeshSink → Prop := fun st =>
    BatmanEngine.Challenging b st.1.core.batman
  have hserves : Loop.Serves (challengeTurn k now txLen ifaces)
      (fun st => targets.map fun m => ((m, st.1.core.batman.challenged.get? m) :
        BatmanEngine.Attempt)) (BatmanEngine.Attempt.due b now) (BatmanEngine.Attempt.again now)
      I := by
    intro st hst hgoes
    obtain ⟨target, hcandidate, hnoted⟩ := challengeTurn_next hgoes
    obtain ⟨hpath, hdue⟩ := BatmanEngine.challengeCandidate_eq_some hcandidate
    obtain ⟨challenged, hsame⟩ := hst.same
    have hpaths : st.1.core.batman.pathNeighbors = b.pathNeighbors := by
      rw [hsame]
      rfl
    rw [hpaths] at hpath
    obtain ⟨hnext, hget⟩ := hst.note now hroom hpath
    have hmem : target ∈ targets := List.mem_dedup.mpr hpath
    obtain ⟨i, hi⟩ := List.mem_iff_getElem?.mp hmem
    dsimp only
    refine ⟨?_, i, (target, st.1.core.batman.challenged.get? target), ?_, ?_, ?_⟩
    · unfold I
      rw [hnoted]
      exact hnext
    · rw [List.getElem?_map, hi]
      rfl
    · have hsame' : BatmanEngine.challengeDue st.1.core.batman now target =
          BatmanEngine.Attempt.due b now (target, st.1.core.batman.challenged.get? target) := by
        rw [hsame]
        rfl
      rw [← hsame']
      exact hdue
    · rw [hnoted]
      apply map_update (List.nodup_dedup _) hi
      · rw [hget target, if_pos rfl]
        rfl
      · intro m hm
        rw [hget m, if_neg hm]
  have hinit : I st := ⟨⟨b.challenged, rfl⟩, fun m hm =>
    List.mem_dedup.mpr (List.mem_append_left _ hm)⟩
  exact hserves.returns hinit fun x _ => BatmanEngine.attempt_wears hseed x

end NodeRouter

/-! ### The gates -/

namespace NodeRouter

variable {e : Capacities} {a : AuthCapacities} {t : TableCapacities} {k : Crypto}
  {now : Duration} {txLen ifaces : Nat}

/-- A turn of the upkeep: the router keeps what it keeps, whatever was offered names only
interfaces whose gate was asked, and a locked node that is inert offers nothing. -/
structure Paces (st st' : NodeRouter e a t × MeshSink) : Prop where
  keeps : st.1.Keeps st'.1
  offers : st.2.Offers (OutgoingFrame.Gated st.1.linkMayTx) st'.2
  inert : st.1.core.Inert → st'.1.core.Inert
  mute : st.1.core.Inert → st.1.core.authLocked = true → st'.2 = st.2

theorem Paces.refl (st : NodeRouter e a t × MeshSink) : Paces st st :=
  ⟨.refl _, .refl _, id, fun _ _ => rfl⟩

theorem Paces.trans {st st' st'' : NodeRouter e a t × MeshSink} (h : Paces st st')
    (h' : Paces st' st'') : Paces st st'' where
  keeps := h.keeps.trans h'.keeps
  offers := by
    have hoffers := h'.offers
    rw [h.keeps.linkMayTx] at hoffers
    exact h.offers.trans hoffers
  inert hinert := h'.inert (h.inert hinert)
  mute hinert hlocked :=
    (h'.mute (h.inert hinert) (h.keeps.core.locked hlocked)).trans (h.mute hinert hlocked)

end NodeRouter

namespace SmallMesh

def slowThenFastNode : NodeRouter BatmanEngine.smallCapacities capacities ⟨4, 4⟩ :=
  (NodeRouter.new _ _ _ (Mac.low 1)).withCore
    { CentralRouter.withCapacities BatmanEngine.smallCapacities capacities (Mac.low 1) with
      batman := BatmanEngine.slowThenFast }

theorem slowThenFast_passes :
    ∀ timer ∈ slowThenFastNode.core.batman.ogmTimers.toList,
      timer.Passes (Duration.ofSecs 10) := by
  have hlong : ∀ timer ∈ slowThenFastNode.core.batman.ogmTimers.toList,
      2 ≤ timer.interval % 2 ^ 64 ∧ 2 ≤ timer.iMin % 2 ^ 64 := by decide +kernel
  intro timer htimer
  obtain ⟨hinterval, hfloor⟩ := hlong timer htimer
  exact ⟨fun _ => ⟨0, hinterval⟩, ⟨0, hfloor⟩⟩

/-- The node with a link whose bounds have no low bits. -/
def longLinkNode : NodeRouter BatmanEngine.smallCapacities capacities ⟨4, 4⟩ :=
  slowThenFastNode.withCore { slowThenFastNode.core with
    batman := slowThenFastNode.core.batman.configureInterfaceOgm 1 (Duration.ofMillis (2 ^ 58))
      (Duration.ofMillis (2 ^ 58)) 0 }

theorem longLink_stuck :
    ∃ timer ∈ longLinkNode.core.batman.ogmTimers.toList,
      timer.Stuck (Duration.ofSecs 10) := by
  have hheld : ∃ timer ∈ longLinkNode.core.batman.ogmTimers.toList,
      timer.due (Duration.ofSecs 10) = true ∧ timer.interval = timer.iMax ∧
        timer.iMin = timer.iMax ∧ timer.iMax % 2 ^ 64 < 2 := by decide +kernel
  obtain ⟨timer, htimer, hdue, hsettled, hfloor, hlow⟩ := hheld
  exact ⟨timer, htimer, hdue, TrickleTimer.not_draws_of_settled hsettled hlow,
    TrickleTimer.not_draws_of_settled hfloor hlow⟩

theorem ogms_return_slowThenFast :
    (∃ r, Loop.Returns (NodeRouter.ogmTurn pairwiseCrypto (Duration.ofSecs 10) 64)
        (slowThenFastNode, roomySink) r ∧
      ∀ timer ∈ r.1.core.batman.ogmTimers.toList, timer.due (Duration.ofSecs 10) = false) ∧
    ¬ ∃ r, Loop.Returns (NodeRouter.ogmTurn pairwiseCrypto (Duration.ofSecs 10) 64)
        (longLinkNode, roomySink) r :=
  ⟨(NodeRouter.ogms_return pairwiseCrypto (Duration.ofSecs 10) 64
      (slowThenFastNode, roomySink)).1 slowThenFast_passes,
    (NodeRouter.ogms_return pairwiseCrypto (Duration.ofSecs 10) 64
      (longLinkNode, roomySink)).2 longLink_stuck⟩

def bothHeard3 : OgmAuth capacities :=
  (node3 100).play crypto34 [.auth (.verifyOgm (ogm7 228)), .auth (.verifyOgm ogmOf4)]

/-- Nodes 2 and 4 each offer node 3 a path, and neither is proven. -/
def unprovenPaths : BatmanEngine BatmanEngine.smallCapacities :=
  (((BatmanEngine.new BatmanEngine.smallCapacities mac3).configureInterfaceOgm 0
    (Duration.ofSecs 1) (Duration.ofSecs 4) 0).run
      [.setRequireProof true,
        .handleRx 0 (BatmanEngine.ogmFrom mac2 (Mac.low 9) 1 200) none 64 .unbounded,
        .handleRx 0 (BatmanEngine.ogmFrom mac4 (Mac.low 9) 1 180) none 64 .unbounded])

def challenger3 : NodeRouter BatmanEngine.smallCapacities capacities ⟨4, 4⟩ :=
  (routerOf mac3 bothHeard3).withCore
    { (routerOf mac3 bothHeard3).core with batman := unprovenPaths }

/-- Each is challenged on both interfaces, and the third turn finds nobody. -/
theorem challenges_return_challenger3 :
    (∃ r, Loop.Returns (NodeRouter.challengeTurn crypto34 (Duration.ofSecs 10) 64 2)
      (challenger3, roomySink) r) ∧
    ((Loop.iterate (NodeRouter.challengeTurn crypto34 (Duration.ofSecs 10) 64 2) 3
      (challenger3, roomySink)).map fun r => r.2.offered.map fun p => p.1.dst) =
        some [mac2, mac2, mac4, mac4] :=
  ⟨NodeRouter.challenges_return crypto34 (Duration.ofSecs 10) 64 2 (challenger3, roomySink)
    (by unfold BatmanEngine.RoomForChallenges; decide +kernel) (by decide +kernel),
    by decide +kernel⟩

end SmallMesh

end Wayfinder
