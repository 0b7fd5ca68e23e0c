import Wayfinder.Lib.Bounded
import Wayfinder.Wire

/-!
# What the driver plans

The frames the shared planning logic produces, the sink that takes or refuses
them, and what the planning asks of a router.
-/

namespace Wayfinder

set_option autoImplicit false

inductive Egress where
  | auto
  | iface (idx : Nat)
  deriving DecidableEq, Repr

structure OutgoingFrame where
  dst : Mac
  protocol : U16
  payload : Bytes
  egress : Egress
  deriving DecidableEq, Repr

/-- `EgressInterface`: where the router sends what is addressed to a mac. -/
inductive EgressInterface where
  | all
  | interface (idx : Nat)
  deriving DecidableEq, Repr

/-- A shell that takes frames. Whether it takes the next one may depend on every
frame it was offered before and on what became of each. -/
structure MeshSink where
  offered : List (OutgoingFrame × Bool)
  delivered : List Bytes
  accepts : List (OutgoingFrame × Bool) → OutgoingFrame → Bool

namespace MeshSink

def emit (s : MeshSink) (frame : OutgoingFrame) : MeshSink × Bool :=
  let accepted := s.accepts s.offered frame
  ({ s with offered := s.offered ++ [(frame, accepted)] }, accepted)

def deliverLocal (s : MeshSink) (inner : Bytes) : MeshSink :=
  { s with delivered := s.delivered ++ [inner] }

def sent (s : MeshSink) : List OutgoingFrame := (s.offered.filter Prod.snd).map Prod.fst

theorem sent_emit (s : MeshSink) (frame : OutgoingFrame) :
    (s.emit frame).1.sent = s.sent ++ if (s.emit frame).2 then [frame] else [] := by
  unfold emit sent
  dsimp only
  rw [List.filter_append, List.map_append]
  cases s.accepts s.offered frame <;> rfl

theorem sent_emit_of_accepted {s : MeshSink} {frame : OutgoingFrame}
    (h : (s.emit frame).2 = true) : (s.emit frame).1.sent = s.sent ++ [frame] := by
  rw [sent_emit, if_pos h]

theorem sent_emit_of_refused {s : MeshSink} {frame : OutgoingFrame}
    (h : (s.emit frame).2 = false) : (s.emit frame).1.sent = s.sent := by
  rw [sent_emit, h]
  exact List.append_nil _

end MeshSink

/-- What a link that reaches every neighbour in one send declares. -/
structure FanOut where
  threshold : U8
  threshold_ne_zero : threshold ≠ 0
  maxFrameLen : Nat

class RouterOps (R : Type) where
  getEgressInterface : Duration → Mac → R → R × Option EgressInterface
  linkMayTx : R → Nat → Option BatmanPacketType → Bool
  authenticated : R → Bool
  recordMcastGroupDrop : Nat → R → R

end Wayfinder
