import Wayfinder.Storage.Settings

/-!
# The clock checkpoint

A board without a clock of its own writes its estimate of the time beside its credential,
and takes it up again after a reset. Between resets the estimate runs on the monotonic
clock from the latest instant anyone has vouched for.
-/

namespace Wayfinder

set_option autoImplicit false

def checkpointInterval : Duration := Duration.ofSecs (6 * 60 * 60)

def checkpointIntervalSecs : Nat := 6 * 60 * 60

/-- What a driver has of the time: its store, the wall clock it estimates, the monotonic
clock it reads, and when it last tried to write a checkpoint. -/
structure ClockedBoard (S : Type) where
  store : NodeStore S
  wall : WallClock
  now : Duration
  checkpointAttempted : Option Duration

/-- A certificate is what its start says of it: the one the node runs under for `setTime`,
the one just verified for `setAuth`. -/
inductive ClockOp where
  | elapse (d : Duration)
  | setTime (installerUnix notBefore : BitVec 64)
  | setAuth (update : SettingsRecord) (installerUnix notBefore : BitVec 64)
  | persist (update : SettingsRecord)
  | pass
  | reset (mintSeed : Octets seedLen) (now : Duration)

namespace ClockedBoard

variable {S SE : Type} (d : ErasableStore S SE) (debug : SE → String)

/-- A board that has not been powered on yet. -/
def off (medium : S) : ClockedBoard S := ⟨.null medium, ⟨none⟩, 0, none⟩

def estimate (b : ClockedBoard S) : Option Nat := b.wall.estimate b.now

/-- The checkpoint a pass of the loop would write. -/
def dueCheckpoint (b : ClockedBoard S) : Option Nat :=
  match b.estimate, b.store.storedCheckpoint with
  | some estimate, some stored =>
    if estimate < saturatingAdd64 stored.toNat checkpointIntervalSecs then none
    else if b.checkpointAttempted.any fun last => b.now - last < checkpointInterval then none
    else some estimate
  | _, _ => none

def writeCheckpointIfDue (b : ClockedBoard S) : ClockedBoard S :=
  match b.dueCheckpoint with
  | none => b
  | some estimate => { b with
      checkpointAttempted := some b.now
      store := (b.store.call d debug (.checkpoint (BitVec.ofNat 64 estimate))).2 }

def setTime (b : ClockedBoard S) (installerUnix notBefore : Nat) : ClockedBoard S :=
  if installerUnix < minPlausibleUnix then b
  else { b with wall := b.wall.anchorAt (max installerUnix notBefore) b.now }

/-- The credential is made durable first; the clock takes its start only then. -/
def setAuth (b : ClockedBoard S) (update : SettingsRecord) (installerUnix notBefore : Nat) :
    ClockedBoard S :=
  match b.store.call d debug (.persist update) with
  | (.error _, store) => { b with store := store }
  | (.ok (), store) => { b with
      store := store
      wall := b.wall.anchorAt (max installerUnix notBefore) b.now }

/-- A driver that is given a record starts its clock from the checkpoint and from nothing
else. -/
def restore (store : NodeStore S) (now : Duration) : ClockedBoard S :=
  let wall : WallClock := ⟨none⟩
  match store with
  | .record s =>
    if s.record.value.checkpointUnix ≠ 0 then
      ⟨store, wall.anchorAt s.record.value.checkpointUnix.toNat now, now, none⟩
    else ⟨store, wall, now, none⟩
  | .null _ => ⟨store, wall, now, none⟩

def step (b : ClockedBoard S) : ClockOp → ClockedBoard S
  | .elapse d => { b with now := b.now + d }
  | .setTime installerUnix notBefore => b.setTime installerUnix.toNat notBefore.toNat
  | .setAuth update installerUnix notBefore =>
    b.setAuth d debug update installerUnix.toNat notBefore.toNat
  | .persist update => { b with store := (b.store.call d debug (.persist update)).2 }
  | .pass => b.writeCheckpointIfDue d debug
  | .reset mintSeed now => restore (NodeStore.resolve d b.store.medium mintSeed) now

/-- The pass writes a checkpoint, and the medium takes it. -/
def Writes (b : ClockedBoard S) : Prop :=
  ∃ estimate, b.dueCheckpoint = some estimate ∧
    (b.store.call d debug (.checkpoint (BitVec.ofNat 64 estimate))).1 = .ok ()

end ClockedBoard

/-! ### The checkpoint on the medium -/

section Medium
variable {S SE : Type} {d : ErasableStore S SE} {debug : SE → String} {blob : S → Option Bytes}

def checkpointOf (blob : S → Option Bytes) (medium : S) : Nat :=
  match (blob medium).map RecordCodec.decode with
  | some (.ok record) => record.checkpointUnix.toNat
  | _ => 0

theorem checkpointOf_congr {medium medium' : S} (h : blob medium' = blob medium) :
    checkpointOf blob medium' = checkpointOf blob medium := by
  unfold checkpointOf
  rw [h]

theorem Stores.checkpointOf {medium : S} {record : NodeRecord} (h : Stores blob medium record) :
    checkpointOf blob medium = record.checkpointUnix.toNat := by
  obtain ⟨bytes, hbytes, hread⟩ := h
  unfold Wayfinder.checkpointOf
  rw [hbytes, Option.map_some, hread]

/-- A store that has a record agrees with its medium. -/
def NodeStore.Agrees (blob : S → Option Bytes) : NodeStore S → Prop
  | .record s => RecordSettings.Agrees blob s
  | .null _ => True

theorem NodeStore.Agrees.call (debug : SE → String) (h : d.Lawful blob) {n : NodeStore S}
    (hn : n.Agrees blob) (op : SettingsOp) : (n.call d debug op).2.Agrees blob := by
  cases n with
  | record s => exact RecordSettings.step_agrees h hn op
  | null medium => trivial

theorem checkpointOf_persist (debug : SE → String) (h : d.Lawful blob) {n : NodeStore S}
    (hn : n.Agrees blob) (update : SettingsRecord) :
    checkpointOf blob (n.call d debug (.persist update)).2.medium = checkpointOf blob n.medium := by
  cases n with
  | null medium => rfl
  | record s =>
    have hs : RecordSettings.Agrees blob s := hn
    have hcall : (NodeStore.call d debug (.record s) (.persist update)).2.medium =
        (s.persist d debug update).2.record.store := rfl
    have hmedium : (NodeStore.record s).medium = s.record.store := rfl
    rw [hcall, hmedium]
    cases houtcome : (s.persist d debug update).1 with
    | error e => exact checkpointOf_congr (RecordSettings.persist_error h houtcome).medium
    | ok _ =>
      obtain ⟨hagrees, hrecorded⟩ := RecordSettings.persist_ok h hs houtcome
      rw [hagrees.stored.checkpointOf, hs.stored.checkpointOf, hrecorded.checkpoint update rfl]

theorem checkpointOf_checkpoint (debug : SE → String) (h : d.Lawful blob) {n : NodeStore S}
    (hn : n.Agrees blob) (unix : BitVec 64) :
    checkpointOf blob (n.call d debug (.checkpoint unix)).2.medium = unix.toNat ∨
      checkpointOf blob (n.call d debug (.checkpoint unix)).2.medium =
        checkpointOf blob n.medium := by
  cases n with
  | null medium => exact Or.inr rfl
  | record s =>
    have hs : RecordSettings.Agrees blob s := hn
    have hcall : (NodeStore.call d debug (.record s) (.checkpoint unix)).2.medium =
        (s.checkpoint d debug unix).2.record.store := rfl
    rw [hcall]
    cases houtcome : (s.checkpoint d debug unix).1 with
    | error e =>
      exact Or.inr (checkpointOf_congr (RecordSettings.checkpoint_error h houtcome).medium)
    | ok _ =>
      obtain ⟨hagrees, hvalue⟩ := RecordSettings.checkpoint_ok h hs houtcome
      refine Or.inl ?_
      rw [hagrees.stored.checkpointOf, hvalue]
      rfl

theorem checkpointOf_none {medium : S} (h : blob medium = none) : checkpointOf blob medium = 0 := by
  unfold checkpointOf
  rw [h]
  rfl

theorem checkpointOf_unread {medium : S} {bytes : Bytes} {e : RecordCodecError}
    (h : blob medium = some bytes) (hread : recordCodec.decode bytes = .error e) :
    checkpointOf blob medium = 0 := by
  have hdecode : RecordCodec.decode bytes = .error e := hread
  unfold checkpointOf
  rw [h, Option.map_some, hdecode]

theorem checkpointOf_fresh {medium : S} {seed : Octets seedLen}
    (h : blob medium = some (RecordCodec.toBytes (.fresh seed))) : checkpointOf blob medium = 0 :=
  (stores_of_toBytes h).checkpointOf

theorem checkpointOf_mintRecord (h : d.Lawful blob) {medium : S}
    (hzero : checkpointOf blob medium = 0) (seed : Octets seedLen) (how : Provisioned) :
    checkpointOf blob (mintRecord d medium seed how).2 = 0 := by
  have hencode : recordCodec.encode (.fresh seed) = .ok (RecordCodec.toBytes (.fresh seed)) := rfl
  unfold mintRecord
  rw [hencode]
  dsimp only
  have hsaved := h.saved medium (RecordCodec.toBytes (.fresh seed))
  have hunsaved := h.unsaved medium (RecordCodec.toBytes (.fresh seed))
  cases hsave : d.save medium (RecordCodec.toBytes (.fresh seed)) with
  | mk outcome left =>
    rw [hsave] at hsaved hunsaved
    cases outcome with
    | error e =>
      dsimp only
      rw [checkpointOf_congr (hunsaved e rfl)]
      exact hzero
    | ok _ => exact checkpointOf_fresh (hsaved rfl)

theorem checkpointOf_repairRecord (h : d.Lawful blob) {medium : S}
    (hzero : checkpointOf blob medium = 0) (seed : Octets seedLen) :
    checkpointOf blob (repairRecord d medium seed).2 = 0 := by
  have hencode : recordCodec.encode (.fresh seed) = .ok (RecordCodec.toBytes (.fresh seed)) := rfl
  unfold repairRecord
  have herased := h.erased medium
  have hunerased := h.unerased medium
  cases herase : d.erase medium with
  | mk outcome left =>
    rw [herase] at herased hunerased
    cases outcome with
    | error e =>
      dsimp only
      rw [checkpointOf_congr (hunerased e rfl)]
      exact hzero
    | ok _ =>
      dsimp only
      rw [hencode]
      dsimp only
      have hsaved := h.saved left (RecordCodec.toBytes (.fresh seed))
      have hunsaved := h.unsaved left (RecordCodec.toBytes (.fresh seed))
      cases hsave : d.save left (RecordCodec.toBytes (.fresh seed)) with
      | mk outcome kept =>
        rw [hsave] at hsaved hunsaved
        cases outcome with
        | error e =>
          dsimp only
          rw [checkpointOf_congr (hunsaved e rfl)]
          exact checkpointOf_none (herased rfl)
        | ok _ => exact checkpointOf_fresh (hsaved rfl)

/-- A reset neither gains nor loses a checkpoint, whether it finds a record or not. -/
theorem checkpointOf_loadOrInitRecord (h : d.Lawful blob) (medium : S) (seed : Octets seedLen)
    (readBuf : Nat) : checkpointOf blob (loadOrInitRecord d medium seed readBuf).2 =
      checkpointOf blob medium := by
  unfold loadOrInitRecord
  cases hload : d.load medium readBuf with
  | error e => rfl
  | ok found =>
    have hblob := h.loaded medium readBuf found hload
    cases found with
    | none =>
      have hzero := checkpointOf_none hblob.symm
      rw [hzero]
      exact checkpointOf_mintRecord h hzero seed _
    | some bytes =>
      dsimp only
      cases hread : recordCodec.decode bytes with
      | ok record => rfl
      | error e =>
        have hzero := checkpointOf_unread hblob.symm hread
        rw [hzero]
        cases e with
        | legacyMacBlob => exact checkpointOf_mintRecord h hzero seed _
        | wrongLength len expected => exact checkpointOf_repairRecord h hzero seed
        | unknownVersion version => exact checkpointOf_repairRecord h hzero seed

theorem agrees_resolve (h : d.Lawful blob) (medium : S) (seed : Octets seedLen) :
    (NodeStore.resolve d medium seed).Agrees blob ∧
      checkpointOf blob (NodeStore.resolve d medium seed).medium = checkpointOf blob medium := by
  have hsame := checkpointOf_loadOrInitRecord h medium seed recordReadBufLen
  unfold NodeStore.resolve
  cases hboot : loadOrInitRecord d medium seed recordReadBufLen with
  | mk outcome left =>
    rw [hboot] at hsame
    cases outcome with
    | error e => exact ⟨trivial, hsame⟩
    | ok loaded =>
      obtain ⟨x, how⟩ := loaded
      have hok : (loadOrInitRecord d medium seed recordReadBufLen).1 = .ok (x, how) := by
        rw [hboot]
      obtain ⟨_, hstore, _⟩ := loadOrInitRecord_stores h hok
      rw [hboot] at hstore
      refine ⟨RecordSettings.agrees_new h hok, ?_⟩
      have hmedium : (NodeStore.record (RecordSettings.new x)).medium = x.store := rfl
      dsimp only
      rw [hmedium, hstore]
      exact hsame

end Medium

/-! ### The clock -/

namespace WallClock

/-- An anchor is a plausible 64-bit instant. -/
def Plausible (c : WallClock) : Prop :=
  ∀ unix at_, c.anchor = some (unix, at_) → minPlausibleUnix ≤ unix ∧ unix < 2 ^ 64

theorem Plausible.anchorAt {c : WallClock} (h : c.Plausible) {unix : Nat} (hunix : unix < 2 ^ 64)
    (now : Duration) : (c.anchorAt unix now).Plausible := by
  unfold WallClock.anchorAt
  split
  · exact h
  split
  · exact h
  · rename_i hlow _
    intro unix' at_ hanchor
    obtain ⟨rfl, _⟩ := Prod.mk.inj (Option.some.inj hanchor)
    exact ⟨Nat.le_of_not_lt hlow, hunix⟩

theorem Plausible.estimate {c : WallClock} (h : c.Plausible) {now : Duration} {secs : Nat}
    (hsecs : c.estimate now = some secs) : minPlausibleUnix ≤ secs ∧ secs < 2 ^ 64 := by
  obtain ⟨⟨unix, at_⟩, hanchor, rfl⟩ := Option.map_eq_some_iff.mp hsecs
  obtain ⟨hlow, _⟩ := h unix at_ hanchor
  have hsmall : minPlausibleUnix ≤ 2 ^ 64 - 1 := by decide
  exact ⟨le_min (Nat.le_trans hlow (Nat.le_add_right _ _)) hsmall,
    Nat.lt_of_le_of_lt (Nat.min_le_right _ _) (by decide)⟩

theorem estimate_anchorAt {unix : Nat} {now : Duration} (hlow : minPlausibleUnix ≤ unix)
    (hunix : unix < 2 ^ 64) :
    ((⟨none⟩ : WallClock).anchorAt unix now).estimate now = some unix := by
  have hanchored : (⟨none⟩ : WallClock).anchorAt unix now = ⟨some (unix, now)⟩ := by
    unfold WallClock.anchorAt
    rw [if_neg (Nat.not_lt.mpr hlow)]
    rfl
  have hbound : min unix (2 ^ 64 - 1) = unix := min_eq_left (by omega)
  rw [hanchored]
  unfold WallClock.estimate
  dsimp only
  rw [Option.map_some, Nat.sub_self, Nat.zero_div, Nat.add_zero, hbound]

end WallClock

namespace ClockedBoard

section Steps
variable {S SE : Type} {d : ErasableStore S SE} {debug : SE → String} {blob : S → Option Bytes}
  {b : ClockedBoard S}

/-- What holds of a board at any time. -/
structure Sound (blob : S → Option Bytes) (b : ClockedBoard S) : Prop where
  store : b.store.Agrees blob
  wall : b.wall.Plausible
  stored : checkpointOf blob b.store.medium = 0 ∨
    minPlausibleUnix ≤ checkpointOf blob b.store.medium

theorem storedCheckpoint_eq (h : b.store.Agrees blob) {stored : BitVec 64}
    (hstored : b.store.storedCheckpoint = some stored) :
    checkpointOf blob b.store.medium = stored.toNat := by
  cases hstore : b.store with
  | null medium =>
    rw [hstore] at hstored
    cases hstored
  | record s =>
    rw [hstore] at h hstored
    have hs : RecordSettings.Agrees blob s := h
    obtain rfl := Option.some.inj hstored
    exact hs.stored.checkpointOf

theorem dueCheckpoint_some {estimate : Nat} (h : b.store.Agrees blob)
    (hdue : b.dueCheckpoint = some estimate) :
    b.estimate = some estimate ∧ (estimate < 2 ^ 64 →
      checkpointOf blob b.store.medium ≤ estimate) ∧
      ∀ last, b.checkpointAttempted = some last → last + checkpointInterval ≤ b.now := by
  unfold dueCheckpoint at hdue
  split at hdue
  · rename_i secs stored hsecs hstored
    split at hdue
    · cases hdue
    · rename_i hlate
      split at hdue
      · cases hdue
      · rename_i hrested
        obtain rfl := Option.some.inj hdue
        refine ⟨hsecs, ?_, ?_⟩
        · intro hbound
          rw [storedCheckpoint_eq h hstored]
          have hstoredLt := stored.isLt
          unfold saturatingAdd64 at hlate
          omega
        · intro last hlast
          rw [hlast, Option.any_some, decide_eq_true_eq] at hrested
          have hpos : 0 < checkpointInterval := by decide
          exact Nat.le_of_not_lt fun hlt => hrested (by
            have hdiff : ∀ now last interval : Nat, 0 < interval → now < last + interval →
                now - last < interval := by omega
            exact hdiff _ _ _ hpos hlt)
  · cases hdue

/-- The checkpoint on the medium moves only in a pass of the loop, and to the estimate. -/
theorem checkpointOf_step (debug : SE → String) (h : d.Lawful blob) (hb : b.Sound blob)
    (op : ClockOp) :
    checkpointOf blob (b.step d debug op).store.medium = checkpointOf blob b.store.medium ∨
      ∃ estimate, op = .pass ∧ b.estimate = some estimate ∧
        checkpointOf blob b.store.medium ≤ estimate ∧
        checkpointOf blob (b.step d debug op).store.medium = estimate := by
  cases op with
  | elapse d => exact Or.inl rfl
  | setTime installerUnix notBefore =>
    refine Or.inl ?_
    unfold step setTime
    dsimp only
    split <;> rfl
  | setAuth update installerUnix notBefore =>
    have hkept := checkpointOf_persist debug h hb.store update
    refine Or.inl (Eq.trans ?_ hkept)
    unfold step setAuth
    dsimp only
    split
    · rename_i e store hcall
      rw [hcall]
    · rename_i store hcall
      rw [hcall]
  | persist update => exact Or.inl (checkpointOf_persist debug h hb.store update)
  | reset mintSeed now =>
    refine Or.inl (Eq.trans ?_ (agrees_resolve h b.store.medium mintSeed).2)
    unfold step restore
    dsimp only
    split
    · rename_i s hresolved
      split <;> rfl
    · rfl
  | pass =>
    unfold step writeCheckpointIfDue
    dsimp only
    cases hdue : b.dueCheckpoint with
    | none => exact Or.inl rfl
    | some estimate =>
      obtain ⟨hestimate, hlater, _⟩ := dueCheckpoint_some hb.store hdue
      have hbound := (hb.wall.estimate hestimate).2
      rcases checkpointOf_checkpoint debug h hb.store (BitVec.ofNat 64 estimate) with
        hwritten | hkept
      · refine Or.inr ⟨estimate, rfl, hestimate, hlater hbound, ?_⟩
        rw [BitVec.toNat_ofNat, Nat.mod_eq_of_lt hbound] at hwritten
        exact hwritten
      · exact Or.inl hkept

theorem restore_store (store : NodeStore S) (now : Duration) :
    (restore store now).store = store := by
  unfold restore
  dsimp only
  split
  · split <;> rfl
  · rfl

theorem restore_wall (store : NodeStore S) (now : Duration) :
    (restore store now).wall.Plausible := by
  have hnone : (⟨none⟩ : WallClock).Plausible := by
    intro unix at_ hanchor
    cases hanchor
  unfold restore
  dsimp only
  split
  · rename_i s
    split
    · exact hnone.anchorAt s.record.value.checkpointUnix.isLt now
    · exact hnone
  · exact hnone

theorem max_toNat_lt (x y : BitVec 64) : max x.toNat y.toNat < 2 ^ 64 :=
  max_lt x.isLt y.isLt

theorem Sound.step (h : d.Lawful blob) (hb : b.Sound blob) (op : ClockOp) :
    (b.step d debug op).Sound blob := by
  have hmoved := checkpointOf_step debug h hb op
  refine ⟨?_, ?_, ?_⟩
  · cases op with
    | elapse d => exact hb.store
    | setTime installerUnix notBefore =>
      unfold ClockedBoard.step setTime
      dsimp only
      split
      · exact hb.store
      · exact hb.store
    | setAuth update installerUnix notBefore =>
      have hcall := hb.store.call debug h (.persist update)
      unfold ClockedBoard.step setAuth
      dsimp only
      split
      · rename_i e store heq
        rw [heq] at hcall
        exact hcall
      · rename_i store heq
        rw [heq] at hcall
        exact hcall
    | persist update => exact hb.store.call debug h (.persist update)
    | reset mintSeed now =>
      have hstep : (b.step d debug (.reset mintSeed now)).store =
          NodeStore.resolve d b.store.medium mintSeed := restore_store _ _
      rw [hstep]
      exact (agrees_resolve h b.store.medium mintSeed).1
    | pass =>
      unfold ClockedBoard.step writeCheckpointIfDue
      dsimp only
      split
      · exact hb.store
      · exact hb.store.call debug h _
  · cases op with
    | elapse d => exact hb.wall
    | setTime installerUnix notBefore =>
      unfold ClockedBoard.step setTime
      dsimp only
      split
      · exact hb.wall
      · exact hb.wall.anchorAt (max_toNat_lt _ _) _
    | setAuth update installerUnix notBefore =>
      unfold ClockedBoard.step setAuth
      dsimp only
      split
      · exact hb.wall
      · exact hb.wall.anchorAt (max_toNat_lt _ _) _
    | persist update => exact hb.wall
    | reset mintSeed now => exact restore_wall _ _
    | pass =>
      unfold ClockedBoard.step writeCheckpointIfDue
      dsimp only
      split
      · exact hb.wall
      · exact hb.wall
  · rcases hmoved with hsame | ⟨estimate, _, hestimate, _, hnew⟩
    · rw [hsame]
      exact hb.stored
    · rw [hnew]
      exact Or.inr (hb.wall.estimate hestimate).1

theorem sound_off {medium : S} (h : checkpointOf blob medium = 0) :
    (off medium).Sound blob := by
  refine ⟨trivial, ?_, Or.inl h⟩
  intro unix at_ hanchor
  cases hanchor

theorem sound_run (debug : SE → String) (h : d.Lawful blob) {medium : S}
    (hmedium : checkpointOf blob medium = 0) (ops : List ClockOp) :
    (Run.run (step d debug) (off medium) ops).Sound blob :=
  Run.invariant (sound_off hmedium) fun _ op hb => hb.step h op

/-- What a reset restores is exactly what is stored. -/
theorem estimate_restore (debug : SE → String) (h : d.Lawful blob) (hb : b.Sound blob)
    {mintSeed : Octets seedLen} {now : Duration} {s : RecordSettings S}
    (hstore : (b.step d debug (.reset mintSeed now)).store = .record s) :
    (b.step d debug (.reset mintSeed now)).estimate.getD 0 =
      checkpointOf blob b.store.medium := by
  obtain ⟨hagrees, hsame⟩ := agrees_resolve h b.store.medium mintSeed
  have hresolved : NodeStore.resolve d b.store.medium mintSeed = .record s :=
    (restore_store _ _).symm.trans hstore
  have hstep : b.step d debug (.reset mintSeed now) = restore (.record s) now := by
    rw [← hresolved]
    rfl
  rw [hresolved] at hagrees hsame
  have hs : RecordSettings.Agrees blob s := hagrees
  have hmedium : checkpointOf blob (NodeStore.record s).medium =
      s.record.value.checkpointUnix.toNat := hs.stored.checkpointOf
  rw [hstep, ← hsame, hmedium]
  unfold restore estimate
  dsimp only
  by_cases hzero : s.record.value.checkpointUnix = 0
  · rw [if_neg (not_not_intro hzero), hzero]
    rfl
  · rw [if_pos hzero]
    have hnonzero : s.record.value.checkpointUnix.toNat ≠ 0 := by
      intro hnat
      exact hzero (BitVec.eq_of_toNat_eq hnat)
    have hlow : minPlausibleUnix ≤ s.record.value.checkpointUnix.toNat := by
      rw [← hmedium, hsame]
      rcases hb.stored with hnone | hsome
      · rw [← hmedium, hsame] at hnonzero
        exact absurd hnone hnonzero
      · exact hsome
    dsimp only
    rw [WallClock.estimate_anchorAt hlow s.record.value.checkpointUnix.isLt]
    rfl

end Steps

/-! ### Lives -/

section Runs
variable {S SE : Type} {d : ErasableStore S SE} {debug : SE → String} {blob : S → Option Bytes}

theorem stored_was_estimate (debug : SE → String) (h : d.Lawful blob) {medium : S}
    (hmedium : checkpointOf blob medium = 0) (ops : List ClockOp) :
    checkpointOf blob (Run.run (step d debug) (off medium) ops).store.medium = 0 ∨
      ∃ pre, pre <+: ops ∧ (Run.run (step d debug) (off medium) pre).estimate =
        some (checkpointOf blob (Run.run (step d debug) (off medium) ops).store.medium) := by
  induction ops using List.reverseRecOn with
  | nil => exact Or.inl hmedium
  | append_singleton ops op ih =>
    rw [Run.run_append_singleton]
    have hsound := sound_run debug h hmedium ops
    rcases checkpointOf_step debug h hsound op with
      hsame | ⟨estimate, _, hestimate, _, hnew⟩
    · rw [hsame]
      rcases ih with hzero | ⟨pre, hpre, hpast⟩
      · exact Or.inl hzero
      · exact Or.inr ⟨pre, hpre.trans (List.prefix_append ops [op]), hpast⟩
    · rw [hnew]
      exact Or.inr ⟨ops, List.prefix_append ops [op], hestimate⟩

def IsReset : ClockOp → Prop
  | .reset _ _ => True
  | _ => False

/-- An attempt was made at an instant or later, and that instant is past. -/
def AttemptedSince (b : ClockedBoard S) (t : Duration) : Prop :=
  ∃ last, b.checkpointAttempted = some last ∧ t ≤ last ∧ t ≤ b.now

theorem AttemptedSince.step {b : ClockedBoard S} {t : Duration} (h : AttemptedSince b t)
    {op : ClockOp} (hop : ¬ IsReset op) : AttemptedSince (b.step d debug op) t := by
  obtain ⟨last, hlast, hle, hnow⟩ := h
  cases op with
  | elapse d => exact ⟨last, hlast, hle, Nat.le_trans hnow (Nat.le_add_right _ _)⟩
  | setTime installerUnix notBefore =>
    unfold ClockedBoard.step setTime
    dsimp only
    split
    · exact ⟨last, hlast, hle, hnow⟩
    · exact ⟨last, hlast, hle, hnow⟩
  | setAuth update installerUnix notBefore =>
    unfold ClockedBoard.step setAuth
    dsimp only
    split
    · exact ⟨last, hlast, hle, hnow⟩
    · exact ⟨last, hlast, hle, hnow⟩
  | persist update => exact ⟨last, hlast, hle, hnow⟩
  | reset mintSeed now => exact absurd trivial hop
  | pass =>
    unfold ClockedBoard.step writeCheckpointIfDue
    dsimp only
    split
    · exact ⟨last, hlast, hle, hnow⟩
    · exact ⟨b.now, rfl, hnow, hnow⟩

theorem AttemptedSince.run {b : ClockedBoard S} {t : Duration} (h : AttemptedSince b t)
    {ops : List ClockOp} (hops : ∀ op ∈ ops, ¬ IsReset op) :
    AttemptedSince (Run.run (ClockedBoard.step d debug) b ops) t := by
  induction ops generalizing b with
  | nil => exact h
  | cons op ops ih =>
    refine ih (h.step (hops op List.mem_cons_self)) ?_
    intro op' hop'
    exact hops op' (List.mem_cons_of_mem _ hop')

/-- Over any life of a board, from its first boot and through any resets: the checkpoint on
the medium never falls; what a boot restores is no less than it and no more than an estimate
reached before; and two checkpoints written in one boot are an interval apart. -/
theorem clock_forward (debug : SE → String) (h : d.Lawful blob) (medium : S)
    (hmedium : checkpointOf blob medium = 0) (ops : List ClockOp) :
    ∀ b, b = Run.run (step d debug) (off medium) ops →
      (∀ op, checkpointOf blob b.store.medium ≤
        checkpointOf blob (b.step d debug op).store.medium) ∧
      (∀ mintSeed now s, (b.step d debug (.reset mintSeed now)).store = .record s →
        checkpointOf blob b.store.medium ≤
            (b.step d debug (.reset mintSeed now)).estimate.getD 0 ∧
          ∀ restored, (b.step d debug (.reset mintSeed now)).estimate = some restored →
            ∃ pre secs, pre <+: ops ∧
              (Run.run (step d debug) (off medium) pre).estimate = some secs ∧
              restored ≤ secs) ∧
      (∀ pre mid, ops = pre ++ .pass :: mid → (∀ op ∈ mid, ¬ IsReset op) →
        Writes d debug (Run.run (step d debug) (off medium) pre) → Writes d debug b →
          (Run.run (step d debug) (off medium) pre).now + checkpointInterval ≤ b.now) := by
  rintro b rfl
  have hsound := sound_run debug h hmedium ops
  refine ⟨?_, ?_, ?_⟩
  · intro op
    rcases checkpointOf_step debug h hsound op with hsame | ⟨_, _, _, hle, hnew⟩
    · exact Nat.le_of_eq hsame.symm
    · rw [hnew]
      exact hle
  · intro mintSeed now s hstore
    have hrestored := estimate_restore debug h hsound hstore
    refine ⟨Nat.le_of_eq hrestored.symm, ?_⟩
    intro restored hestimate
    rw [hestimate, Option.getD_some] at hrestored
    rcases stored_was_estimate debug h hmedium ops with hzero | ⟨pre, hpre, hpast⟩
    · -- Nothing was stored, so nothing was restored.
      exfalso
      have hplausible := ((hsound.step h (.reset mintSeed now)).wall.estimate hestimate).1
      rw [hrestored, hzero] at hplausible
      exact absurd hplausible (by decide)
    · exact ⟨pre, _, hpre, hpast, Nat.le_of_eq hrestored⟩
  · intro pre mid hops hmid hfirst hsecond
    obtain ⟨estimate, hdue, _⟩ := hfirst
    obtain ⟨estimate', hdue', _⟩ := hsecond
    have hattempt : AttemptedSince
        ((Run.run (step d debug) (off medium) pre).step d debug .pass)
        (Run.run (step d debug) (off medium) pre).now := by
      have hpass : (Run.run (step d debug) (off medium) pre).step d debug .pass =
          (Run.run (step d debug) (off medium) pre).writeCheckpointIfDue d debug := rfl
      rw [hpass]
      unfold writeCheckpointIfDue
      rw [hdue]
      exact ⟨_, rfl, Nat.le_refl _, Nat.le_refl _⟩
    have hlast : AttemptedSince (Run.run (step d debug) (off medium) ops)
        (Run.run (step d debug) (off medium) pre).now := by
      rw [hops, Run.run_append]
      exact hattempt.run hmid
    obtain ⟨last, hattempted, hle, _⟩ := hlast
    have hrested := (dueCheckpoint_some hsound.store hdue').2.2 last hattempted
    exact Nat.le_trans (Nat.add_le_add_right hle _) hrested

end Runs

/-! A board is told the time, writes it, and six hours later is to write it again. -/

open RecordSettings (faultyMemory faultyMemory_lawful firstSeed)

def sixHours : List ClockOp :=
  [.reset firstSeed 0, .setTime 1800000000 0] ++ .pass :: [.elapse checkpointInterval]

def boardAfter (n : Nat) : ClockedBoard (Option Bytes × List Bool) :=
  Run.run (step faultyMemory fun _ => "") (off (none, [])) (sixHours.take n)

theorem clock_forward_sixHours :
    checkpointOf Prod.fst (boardAfter 4).store.medium ≤
        ((boardAfter 4).step faultyMemory (fun _ => "") (.reset firstSeed 0)).estimate.getD 0 ∧
      (boardAfter 2).now + checkpointInterval ≤ (boardAfter 4).now := by
  obtain ⟨_, hrestored, hspaced⟩ :=
    clock_forward (fun _ => "") faultyMemory_lawful (none, []) rfl sixHours (boardAfter 4) rfl
  refine ⟨(hrestored firstSeed 0 _ rfl).1, ?_⟩
  apply hspaced [.reset firstSeed 0, .setTime 1800000000 0] [.elapse checkpointInterval] rfl
  · intro op hop
    obtain rfl := List.mem_singleton.mp hop
    exact id
  · exact ⟨1800000000, by decide +kernel, by decide +kernel⟩
  · exact ⟨1800021600, by decide +kernel, by decide +kernel⟩

end ClockedBoard

end Wayfinder
