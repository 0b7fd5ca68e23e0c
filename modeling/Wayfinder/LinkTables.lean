import Wayfinder.Lib.Ring
import Wayfinder.Lib.Table
import Wayfinder.Link.Fragment

/-!
# What a node knows of its links

Two bounded tables beside the routing engine. One holds a smoothed quality for each
neighbor on each interface it was heard on, and loses its weakest row when it is full;
the other remembers, for a link destination, the interface a frame to it last came in on,
and loses the least recently used.
-/

namespace Wayfinder

set_option autoImplicit false

open Table

/-! ### Link quality -/

/-- A score on 0..=255, or none for a frame that carried no measurement. -/
def normalizeQuality (metrics : LinkMetrics) : Option U8 :=
  match metrics.quality, metrics.rssiDbm, metrics.snrDb with
  | some q, _, _ => some q
  | none, none, none => none
  | none, rssi, snr =>
    let rssiOffset := max 0 (min 70 (rssi.getD (-120) + 120))
    let rssiScore := rssiOffset * 255 / 70
    let snrBias := max (-60) (min 60 (snr.getD 0 * 3))
    some (BitVec.ofInt 8 (max 0 (min 255 (rssiScore + snrBias))))

structure LinkQualityRecord where
  neighbor : Mac
  ifaceIdx : Nat
  ewmaQuality : Option U8
  sampleCount : U32
  deriving DecidableEq

namespace LinkQualityRecord

/-- An unmeasured link ranks below every measured one. -/
def rank (r : LinkQualityRecord) : Nat := r.ewmaQuality.elim 0 fun q => q.toNat + 1

def isFor (neighbor : Mac) (ifaceIdx : Nat) (r : LinkQualityRecord) : Bool :=
  decide (r.neighbor = neighbor) && decide (r.ifaceIdx = ifaceIdx)

/-- A frame without a measurement counts, and moves no average. -/
def fold (sample : Option U8) (r : LinkQualityRecord) : LinkQualityRecord :=
  { r with
    sampleCount := saturatingAdd r.sampleCount 1
    ewmaQuality :=
      match sample, r.ewmaQuality with
      | none, held => held
      | some sample, none => some sample
      | some sample, some prev => some (BitVec.ofNat 8 ((sample.toNat + 3 * prev.toNat) / 4)) }

end LinkQualityRecord

abbrev LinkQualityTable (cap : Nat) := Bounded LinkQualityRecord cap

namespace LinkQualityTable

variable {cap : Nat}

def retainLive (t : LinkQualityTable cap) (isLive : Mac → Bool) : LinkQualityTable cap :=
  ⟨t.toList.filter fun r => isLive r.neighbor,
    (List.length_filter_le ..).trans t.length_le⟩

/-- The weakest row makes way for a new one when the table is full. -/
def placeRow (t : LinkQualityTable cap) (row : LinkQualityRecord) : LinkQualityTable cap :=
  if t.toList.length < cap then (t.push row).1
  else
    match minByKey (fun p => p.1.rank) t.toList.zipIdx with
    | none => t
    | some (_, idx) => ⟨t.toList.set idx row, by rw [List.length_set]; exact t.length_le⟩

def update (t : LinkQualityTable cap) (neighbor : Mac) (ifaceIdx : Nat) (sample : Option U8) :
    LinkQualityTable cap :=
  match t.changeFirst (LinkQualityRecord.isFor neighbor ifaceIdx)
      (LinkQualityRecord.fold sample) with
  | some (_, t) => t
  | none => t.placeRow ⟨neighbor, ifaceIdx, sample, 1⟩

def bestInterfaceFor (t : LinkQualityTable cap) (neighbor : Mac) : Option Nat :=
  (maxByKey LinkQualityRecord.rank
    (t.toList.filter fun r => decide (r.neighbor = neighbor))).map LinkQualityRecord.ifaceIdx

def qualityFor (t : LinkQualityTable cap) (neighbor : Mac) (ifaceIdx : Nat) : Option U8 :=
  (t.toList.find? (LinkQualityRecord.isFor neighbor ifaceIdx)).bind
    LinkQualityRecord.ewmaQuality

end LinkQualityTable

/-! ### Last seen -/

/-- Link destinations with the interface a frame to each last came in on, the most
recently used first. -/
abbrev IdentTable (maxLive : Nat) := Bounded (Mac × Nat) maxLive

namespace IdentTable

variable {maxLive : Nat}

def moveToFront (t : IdentTable maxLive) (entry : Mac × Nat) : IdentTable maxLive :=
  ⟨(entry :: t.toList.filter fun p => decide (p.1 ≠ entry.1)).take maxLive,
    List.length_take_le ..⟩

def addRecord (t : IdentTable maxLive) (ifaceIdx : Nat) (dest : Mac) : IdentTable maxLive :=
  t.moveToFront (dest, ifaceIdx)

def peekEgressInterface (t : IdentTable maxLive) (dest : Mac) : Option Nat :=
  (t.toList.find? fun p => decide (p.1 = dest)).map Prod.snd

/-- The lookup counts as a use. -/
def getEgressInterface (t : IdentTable maxLive) (dest : Mac) : Option Nat × IdentTable maxLive :=
  match t.peekEgressInterface dest with
  | none => (none, t)
  | some ifaceIdx => (some ifaceIdx, t.moveToFront (dest, ifaceIdx))

end IdentTable

end Wayfinder
