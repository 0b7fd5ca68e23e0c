import Wayfinder.Frame

/-!
# The Trickle timer

Paces emission on one interface: the interval doubles from `iMin` toward `iMax`
and drops back to `iMin` on a reset; each wait is jittered into the upper half of
the interval.
-/

namespace Wayfinder

set_option autoImplicit false

structure TrickleTimer where
  iMin : Duration
  iMax : Duration
  interval : Duration
  nextFire : Duration
  rng : U32
  deriving DecidableEq, Repr

namespace TrickleTimer

def fmix32 (h : U32) : U32 :=
  let h := h ^^^ (h >>> 16)
  let h := h * 0x85ebca6b
  let h := h ^^^ (h >>> 13)
  let h := h * 0xc2b2ae35
  h ^^^ (h >>> 16)

def nextRand (t : TrickleTimer) : TrickleTimer × U32 :=
  let x := t.rng
  let x := x ^^^ (x <<< 13)
  let x := x ^^^ (x >>> 17)
  let x := x ^^^ (x <<< 5)
  ({ t with rng := x }, x)

-- `as_nanos() as u64` keeps the low 64 bits.
def jittered (t : TrickleTimer) (span : Duration) : TrickleTimer × Duration :=
  let spanNs := span % 2 ^ 64
  let half := spanNs / 2
  let width := max (spanNs - half) 1
  let r := t.nextRand
  let scaled := r.2.toNat * width / 2 ^ 32
  (r.1, half + scaled)

def new (iMin iMax now : Duration) (seed : U32) : TrickleTimer :=
  let iMin := max iMin 1
  let iMax := max iMax iMin
  let rng := fmix32 (seed ^^^ 0x9E3779B9)
  let timer : TrickleTimer :=
    { iMin, iMax, interval := iMin, nextFire := now, rng := if rng = 0 then 0x9E3779B9 else rng }
  let r := timer.jittered iMin
  { r.1 with nextFire := now + r.2 }

def onEmit (t : TrickleTimer) (now : Duration) : TrickleTimer :=
  let r := t.jittered t.interval
  { r.1 with nextFire := now + r.2, interval := min (t.interval * 2) t.iMax }

def reset (t : TrickleTimer) (now : Duration) : TrickleTimer :=
  let t := { t with interval := t.iMin }
  if now + t.iMin < t.nextFire then
    let r := t.jittered t.iMin
    { r.1 with nextFire := now + r.2 }
  else t

def timeUntil (t : TrickleTimer) (now : Duration) : Duration := t.nextFire - now

def due (t : TrickleTimer) (now : Duration) : Bool := t.nextFire ≤ now

@[simp] theorem jittered_iMax (t : TrickleTimer) (span : Duration) :
    (t.jittered span).1.iMax = t.iMax := rfl

@[simp] theorem onEmit_iMax (t : TrickleTimer) (now : Duration) :
    (t.onEmit now).iMax = t.iMax := rfl

@[simp] theorem reset_iMax (t : TrickleTimer) (now : Duration) :
    (t.reset now).iMax = t.iMax := by
  unfold reset
  dsimp only
  split <;> rfl

end TrickleTimer

end Wayfinder
