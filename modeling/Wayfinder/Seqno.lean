import Wayfinder.Frame

/-!
# Admission of sequence numbers

The single decision both sequence-number spaces are judged by: flooded
broadcasts and originator messages. A number ahead of the recorded high-water by
at most the window advances it; one at or within the tolerance behind is a
duplicate; anything else opens (or continues) a resynchronisation watch, and a
watch that has persisted rewinds the high-water to the number that opened it.
-/

namespace Wayfinder

set_option autoImplicit false

def broadcastSeqnoWindow : Nat := 1024
def broadcastSeqnoReorderTolerance : Nat := 64
def broadcastSeqnoResetProtection : Duration := Duration.ofSecs 30
def ogmSeqnoWindow : Nat := 256
def ogmSeqnoReorderTolerance : Nat := 16
def ogmSeqnoResetProtection : Duration := Duration.ofSecs 30

inductive SeqnoVerdict where
  | advance
  | duplicate
  | implausibleSeqno
  deriving DecidableEq, Repr

/-- The evidence against a high-water: when the run began, and the number that began it. -/
structure SeqnoResyncWatch where
  since : Millis
  seqno : U32
  deriving DecidableEq, Repr

/-- Band widths and dwell time. The bounds are the assertions of `SeqnoBands::new`. -/
structure SeqnoBands where
  window : Nat
  reorderTolerance : Nat
  resetProtectionMs : Nat
  window_lt : window < 2 ^ 31 - 1
  tolerance_lt : reorderTolerance < 2 ^ 31 - 1
  resetProtection_le : resetProtectionMs ≤ 2 ^ 32 - 1

namespace SeqnoBands

def broadcast : SeqnoBands where
  window := broadcastSeqnoWindow
  reorderTolerance := broadcastSeqnoReorderTolerance
  resetProtectionMs := broadcastSeqnoResetProtection.asMillis
  window_lt := by decide
  tolerance_lt := by decide
  resetProtection_le := by decide

def ogm : SeqnoBands where
  window := ogmSeqnoWindow
  reorderTolerance := ogmSeqnoReorderTolerance
  resetProtectionMs := ogmSeqnoResetProtection.asMillis
  window_lt := by decide
  tolerance_lt := by decide
  resetProtection_le := by decide

def classify (b : SeqnoBands) (highWater seqno : U32) : SeqnoVerdict :=
  let aheadBy := Serial.dist highWater seqno
  if 0 < aheadBy ∧ aheadBy ≤ b.window then .advance
  else if aheadBy ≤ 0 ∧ -(b.reorderTolerance : Int) ≤ aheadBy then .duplicate
  else .implausibleSeqno

variable {b : SeqnoBands} {highWater seqno : U32}

theorem classify_eq_advance_iff :
    b.classify highWater seqno = .advance ↔
      0 < Serial.dist highWater seqno ∧ Serial.dist highWater seqno ≤ b.window := by
  unfold classify
  dsimp only
  split
  · simpa
  · split <;> simp_all

theorem classify_eq_duplicate_iff :
    b.classify highWater seqno = .duplicate ↔
      Serial.dist highWater seqno ≤ 0 ∧
        -(b.reorderTolerance : Int) ≤ Serial.dist highWater seqno := by
  unfold classify
  dsimp only
  split
  · simp
    omega
  · split <;> simp_all

end SeqnoBands

inductive SeqnoAdmission where
  | advanced
  | duplicate (exact : Bool)
  | watching
  | resynchronised (verdict : SeqnoVerdict)
  deriving DecidableEq, Repr

namespace SeqnoAdmission

/-- `SeqnoAdmission::advanced`: the high-water now holds this frame's number. -/
def isAdvanced : SeqnoAdmission → Bool
  | .advanced => true
  | .resynchronised .advance => true
  | _ => false

def highWaterWritten : SeqnoAdmission → Bool
  | .advanced => true
  | .resynchronised _ => true
  | _ => false

def contentsAreCurrent (a : SeqnoAdmission) : Bool :=
  a.isAdvanced || a == .duplicate true

def isStaleCopy : SeqnoAdmission → Bool
  | .duplicate false => true
  | _ => false

/-- The `matches!(.., Resynchronised { .. })` both handlers count by. -/
def isResynchronised : SeqnoAdmission → Bool
  | .resynchronised _ => true
  | _ => false

end SeqnoAdmission

/-- The pair of fields `admit_seqno` works on, kept by both kinds of record. -/
structure HighWater where
  lastSeqno : U32
  resyncWatch : Option SeqnoResyncWatch
  deriving DecidableEq, Repr

def admitSeqno (b : SeqnoBands) (hw : HighWater) (seqno : U32) (now : Duration) :
    HighWater × SeqnoAdmission :=
  match b.classify hw.lastSeqno seqno with
  | .advance => (⟨seqno, none⟩, .advanced)
  | .duplicate => (hw, .duplicate (seqno == hw.lastSeqno))
  | .implausibleSeqno =>
    let nowMs := Millis.fromDuration now
    let watch := hw.resyncWatch.getD ⟨nowMs, seqno⟩
    if nowMs.elapsedSince watch.since < b.resetProtectionMs then
      ({ hw with resyncWatch := some watch }, .watching)
    else
      -- The frame that trips the deadline is judged afresh against the opener.
      let verdict := b.classify watch.seqno seqno
      (⟨if verdict = .advance then seqno else watch.seqno, none⟩, .resynchronised verdict)

section Admit
variable {b : SeqnoBands} {hw hw' : HighWater} {seqno : U32} {now : Duration}
  {adm : SeqnoAdmission}

/-- Everything one call can do, guards included. -/
theorem admitSeqno_cases (h : admitSeqno b hw seqno now = (hw', adm)) :
    (b.classify hw.lastSeqno seqno = .advance ∧ hw' = ⟨seqno, none⟩ ∧ adm = .advanced) ∨
    (b.classify hw.lastSeqno seqno = .duplicate ∧ hw' = hw ∧
      adm = .duplicate (seqno == hw.lastSeqno)) ∨
    (b.classify hw.lastSeqno seqno = .implausibleSeqno ∧ ∃ watch,
      watch = hw.resyncWatch.getD ⟨Millis.fromDuration now, seqno⟩ ∧
      ((Millis.fromDuration now).elapsedSince watch.since < b.resetProtectionMs ∧
          hw' = { hw with resyncWatch := some watch } ∧ adm = .watching ∨
        b.resetProtectionMs ≤ (Millis.fromDuration now).elapsedSince watch.since ∧
          hw' = ⟨if b.classify watch.seqno seqno = .advance then seqno else watch.seqno, none⟩ ∧
          adm = .resynchronised (b.classify watch.seqno seqno))) := by
  unfold admitSeqno at h
  split at h
  · rename_i hc
    obtain ⟨rfl, rfl⟩ := Prod.mk.inj h
    exact .inl ⟨hc, rfl, rfl⟩
  · rename_i hc
    obtain ⟨rfl, rfl⟩ := Prod.mk.inj h
    exact .inr (.inl ⟨hc, rfl, rfl⟩)
  · rename_i hc
    refine .inr (.inr ⟨hc, _, rfl, ?_⟩)
    dsimp only at h
    split at h
    · rename_i hlt
      obtain ⟨rfl, rfl⟩ := Prod.mk.inj h
      exact .inl ⟨hlt, rfl, rfl⟩
    · rename_i hge
      obtain ⟨rfl, rfl⟩ := Prod.mk.inj h
      exact .inr ⟨Nat.le_of_not_lt hge, rfl, rfl⟩

theorem admitSeqno_of_advance (h : b.classify hw.lastSeqno seqno = .advance) :
    admitSeqno b hw seqno now = (⟨seqno, none⟩, .advanced) := by
  simp [admitSeqno, h]

theorem admitSeqno_of_duplicate (h : b.classify hw.lastSeqno seqno = .duplicate) :
    admitSeqno b hw seqno now = (hw, .duplicate (seqno == hw.lastSeqno)) := by
  simp [admitSeqno, h]

/-- An admitted frame leaves its own number behind, and no watch. -/
theorem admitSeqno_isAdvanced (h : admitSeqno b hw seqno now = (hw', adm))
    (ha : adm.isAdvanced = true) : hw' = ⟨seqno, none⟩ := by
  rcases admitSeqno_cases h with ⟨_, rfl, rfl⟩ | ⟨_, rfl, rfl⟩ | ⟨_, w, _, hw⟩
  · rfl
  · simp [SeqnoAdmission.isAdvanced] at ha
  · rcases hw with ⟨_, rfl, rfl⟩ | ⟨_, rfl, rfl⟩
    · simp [SeqnoAdmission.isAdvanced] at ha
    · cases hv : b.classify w.seqno seqno <;> simp_all [SeqnoAdmission.isAdvanced]

/-- A number that is not ahead is refused, and leaves the high-water alone unless the
watch comes to its end. -/
theorem admitSeqno_refused (h : admitSeqno b hw seqno now = (hw', adm))
    (hclass : b.classify hw.lastSeqno seqno ≠ .advance) (hsteady : adm.isResynchronised = false) :
    hw'.lastSeqno = hw.lastSeqno ∧ adm.isAdvanced = false := by
  rcases admitSeqno_cases h with
    ⟨hadvance, _⟩ | ⟨_, rfl, rfl⟩ | ⟨_, w, _, ⟨_, rfl, rfl⟩ | ⟨_, _, rfl⟩⟩
  · exact absurd hadvance hclass
  · exact ⟨rfl, rfl⟩
  · exact ⟨rfl, rfl⟩
  · cases hsteady

end Admit

/-- Broadcast dedup state for one originator. -/
structure BroadcastSeqnoEntry extends HighWater where
  lastUpdated : Millis
  deriving DecidableEq, Repr

namespace BroadcastSeqnoEntry

/-- A first sighting takes its number on trust. -/
def seeded (seqno : U32) (now : Duration) : BroadcastSeqnoEntry where
  lastSeqno := seqno
  resyncWatch := none
  lastUpdated := Millis.fromDuration now

def admitEntry (e : BroadcastSeqnoEntry) (seqno : U32) (now : Duration) :
    BroadcastSeqnoEntry × SeqnoAdmission :=
  let (hw, admission) := admitSeqno SeqnoBands.broadcast e.toHighWater seqno now
  ({ toHighWater := hw
     lastUpdated := if admission.highWaterWritten then Millis.fromDuration now
       else e.lastUpdated }, admission)

@[simp] theorem admitEntry_toHighWater (e : BroadcastSeqnoEntry) (seqno : U32) (now : Duration) :
    (e.admitEntry seqno now).1.toHighWater =
      (admitSeqno SeqnoBands.broadcast e.toHighWater seqno now).1 := rfl

@[simp] theorem admitEntry_admission (e : BroadcastSeqnoEntry) (seqno : U32) (now : Duration) :
    (e.admitEntry seqno now).2 = (admitSeqno SeqnoBands.broadcast e.toHighWater seqno now).2 := rfl

end BroadcastSeqnoEntry

end Wayfinder
