import Wayfinder.EngineRun
import Wayfinder.Lib.Run

/-!
# Which interface is served next

Among the interfaces whose timer is due the engine picks one of least remaining time. A
remaining time is never negative, so that it is the same for all of them, and the pick falls
on the first in the table, however long the others have been waiting.
-/

namespace Wayfinder

set_option autoImplicit false

open Table

abbrev TimerSlots := List (TrickleTimer × Nat)

namespace TimerSlots

def overdue (slots : TimerSlots) (now : Duration) : TimerSlots := slots.filter fun p => p.1.due now

/-- The pick of `due_interface` and of `due_keepalive_interface`. -/
def pick (slots : TimerSlots) (now : Duration) : Option Nat :=
  (minByKey (fun p => p.1.timeUntil now) (slots.overdue now)).map Prod.snd

/-- Nothing is picked if nothing is due, else an interface whose deadline came first. -/
def MostOverdue (slots : TimerSlots) (now : Duration) : Option Nat → Prop
  | none => slots.overdue now = []
  | some idx => ∃ p ∈ slots.overdue now, p.2 = idx ∧
      ∀ q ∈ slots.overdue now, p.1.nextFire ≤ q.1.nextFire

/-- No interface that is due has an earlier deadline than the first one in the table. -/
def FirstEarliest (slots : TimerSlots) (now : Duration) : Prop :=
  ∀ p ∈ (slots.overdue now).head?, ∀ q ∈ slots.overdue now, p.1.nextFire ≤ q.1.nextFire

variable {slots : TimerSlots} {now : Duration}

instance : (picked : Option Nat) → Decidable (slots.MostOverdue now picked)
  | none => inferInstanceAs (Decidable (slots.overdue now = []))
  | some idx => inferInstanceAs (Decidable (∃ p ∈ slots.overdue now, p.2 = idx ∧
      ∀ q ∈ slots.overdue now, p.1.nextFire ≤ q.1.nextFire))

instance : Decidable (slots.FirstEarliest now) :=
  match h : (slots.overdue now).head? with
  | none => .isTrue fun p hp => by rw [h] at hp; cases hp
  | some p =>
    decidable_of_iff (∀ q ∈ slots.overdue now, p.1.nextFire ≤ q.1.nextFire) <| by
      unfold FirstEarliest
      rw [h]
      simp

theorem timeUntil_overdue {p : TrickleTimer × Nat} (hp : p ∈ slots.overdue now) :
    p.1.timeUntil now = 0 := by
  have hdue := of_decide_eq_true (List.mem_filter.mp hp).2
  exact Nat.sub_eq_zero_of_le hdue

theorem pick_eq (slots : TimerSlots) (now : Duration) :
    slots.pick now = (slots.overdue now).head?.map Prod.snd := by
  unfold pick
  rw [minByKey_of_const fun p hp => timeUntil_overdue hp]

theorem mostOverdue_iff (hdistinct : (slots.map Prod.snd).Nodup) :
    slots.MostOverdue now (slots.pick now) ↔ slots.FirstEarliest now := by
  rw [pick_eq]
  unfold FirstEarliest
  cases hhead : (slots.overdue now).head? with
  | none =>
    have hempty := List.head?_eq_none_iff.mp hhead
    simp [MostOverdue, hempty]
  | some first =>
    have hfirst : first ∈ slots.overdue now := List.mem_of_mem_head? hhead
    constructor
    · intro ⟨p, hp, hidx, hearliest⟩ q hq
      have hsame : p = first := List.inj_on_of_nodup_map hdistinct (List.mem_filter.mp hp).1
        (List.mem_filter.mp hfirst).1 hidx
      obtain rfl := Option.some.inj hq
      rw [← hsame]
      exact hearliest
    · intro hearliest
      exact ⟨first, hfirst, rfl, hearliest first rfl⟩

end TimerSlots

namespace BatmanEngine

variable {c : Capacities}

def ogmSlots (e : BatmanEngine c) : TimerSlots := e.ogmTimers.toList.zipIdx

def keepaliveSlots (e : BatmanEngine c) : TimerSlots :=
  e.keepaliveTimers.toList.zipIdx.filterMap fun p => p.1.map fun t => (t, p.2)

theorem ogmSlots_distinct (e : BatmanEngine c) : (e.ogmSlots.map Prod.snd).Nodup := by
  unfold ogmSlots
  rw [List.zipIdx_map_snd]
  exact List.nodup_range'

theorem keepaliveSlots_distinct (e : BatmanEngine c) :
    (e.keepaliveSlots.map Prod.snd).Nodup := by
  have hsub : (e.keepaliveSlots.map Prod.snd).Sublist
      (e.keepaliveTimers.toList.zipIdx.map Prod.snd) := by
    unfold keepaliveSlots
    generalize e.keepaliveTimers.toList.zipIdx = slots
    induction slots with
    | nil => exact List.Sublist.slnil
    | cons p slots ih =>
      obtain ⟨timer, idx⟩ := p
      cases timer with
      | none => exact ih.cons idx
      | some t => exact ih.cons_cons idx
  apply hsub.nodup
  rw [List.zipIdx_map_snd]
  exact List.nodup_range'

/-! ### Serving -/

def serveOgm (e : BatmanEngine c) (now : Duration) : BatmanEngine c :=
  match e.dueInterface now with
  | none => e
  | some idx => (e.producePeriodicBroadcast now).1.onInterfaceEmitted idx now

def serveKeepalive (e : BatmanEngine c) (now : Duration) : BatmanEngine c :=
  match e.dueKeepaliveInterface now with
  | none => e
  | some idx => e.onKeepaliveEmitted idx now

/-- Whenever interfaces are served, each pick is the one that has waited longest, exactly if
no interface that was due then had waited longer than the first one due. -/
theorem due_in_order_iff (e : BatmanEngine c) (times : List Duration) :
    (Run.AllSafe serveOgm (fun e now => e.ogmSlots.MostOverdue now (e.dueInterface now)) e times ↔
      Run.AllSafe serveOgm (fun e now => e.ogmSlots.FirstEarliest now) e times) ∧
    (Run.AllSafe serveKeepalive
        (fun e now => e.keepaliveSlots.MostOverdue now (e.dueKeepaliveInterface now)) e times ↔
      Run.AllSafe serveKeepalive (fun e now => e.keepaliveSlots.FirstEarliest now) e times) := by
  constructor
  · exact Run.allSafe_congr fun e _ => TimerSlots.mostOverdue_iff (ogmSlots_distinct e)
  · exact Run.allSafe_congr fun e _ => TimerSlots.mostOverdue_iff (keepaliveSlots_distinct e)

def slowThenFast : BatmanEngine smallCapacities :=
  ((BatmanEngine.new smallCapacities (Mac.low 1)).configureInterfaceOgm 0 (Duration.ofSecs 5)
    (Duration.ofSecs 60) 0).configureInterfaceOgm 1 (Duration.ofSecs 1) (Duration.ofSecs 4) 0

/-- Ten seconds later both are due, and the fast link since longer, but the slow one is
served. -/
theorem slow_link_first :
    slowThenFast.dueInterface (Duration.ofSecs 10) = some 0 ∧
      ¬ slowThenFast.ogmSlots.MostOverdue (Duration.ofSecs 10)
        (slowThenFast.dueInterface (Duration.ofSecs 10)) := by
  decide +kernel

end BatmanEngine

end Wayfinder
