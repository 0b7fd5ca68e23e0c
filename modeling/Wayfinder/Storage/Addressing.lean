import Wayfinder.Lib.Hoare
import Wayfinder.Lib.Run
import Wayfinder.Storage.Flash

/-!
# Where the flash store reads and writes

Addresses are computed in thirty-two bits, as the release build computes them: a sum that is
out of range wraps. Every read, write and erase that is asked of the device is recorded, and
every sum that wrapped.
-/

namespace Wayfinder

set_option autoImplicit false

open NorFlash Hoare

/-! ### The device -/

/-- The constants of a flash part, with the write sizes `save` compiles for. -/
structure FlashGeometry where
  eraseSize : Nat
  writeSize : Nat
  capacity : Nat
  word_pos : 0 < writeSize
  word_le : writeSize ≤ maxWriteSize
  word_header : writeSize ∣ headerLen

inductive Access where
  | read (off len : Nat)
  | write (off len : Nat)
  | erase (lo hi : Nat)
  /-- The call before failed. -/
  | fault
  /-- A sum or product left the thirty-two bits. -/
  | overflow

/-- The cells, the calls that fail and what each of them leaves in the cells, and what was
asked so far. -/
structure Bus where
  cells : Cells
  faults : Nat → Option (Cells → Cells)
  trace : List Access

abbrev FlashM := EStateM FlashError Bus

namespace Bus

def log (bus : Bus) (access : Access) : Bus := { bus with trace := bus.trace ++ [access] }

def call {α : Type} (access : Access) (effect : Cells → α × Cells) : FlashM α := fun bus =>
  match bus.faults bus.trace.length with
  | none =>
    let r := effect bus.cells
    .ok r.1 { bus.log access with cells := r.2 }
  | some damage => .error .flash { (bus.log access).log .fault with cells := damage bus.cells }

def read (off : U32) (n : Nat) : FlashM Bytes :=
  call (.read off.toNat n) fun m => (m.read off.toNat n, m)

def write (off : U32) (bytes : Bytes) : FlashM Unit :=
  call (.write off.toNat bytes.length) fun m => ((), m.write off.toNat bytes)

def erase (lo hi : U32) : FlashM Unit :=
  call (.erase lo.toNat hi.toNat) fun m => ((), m.erase lo.toNat hi.toNat)

def add (a b : U32) : FlashM U32 := fun bus =>
  .ok (a + b) (if a.toNat + b.toNat < 2 ^ 32 then bus else bus.log .overflow)

def mul (a b : U32) : FlashM U32 := fun bus =>
  .ok (a * b) (if a.toNat * b.toNat < 2 ^ 32 then bus else bus.log .overflow)

end Bus

/-- `as u32`. -/
def asU32 (n : Nat) : U32 := BitVec.ofNat 32 n

/-! ### The store -/

/-- A store that `new` returned, over the flash it was given. -/
structure RawStore (g : FlashGeometry) where
  baseOffset : U32

namespace RawStore

variable {g : FlashGeometry}

def new (g : FlashGeometry) (baseOffset : U32) : Except FlashError (RawStore g) :=
  if g.eraseSize ≤ headerLen then .error (.pageTooSmall g.eraseSize)
  else if ¬ g.eraseSize ∣ baseOffset.toNat then
    .error (.unaligned baseOffset.toNat g.eraseSize)
  else
    let needed := baseOffset + 2 * asU32 g.eraseSize
    if g.capacity < needed.toNat then .error (.outOfBounds needed.toNat g.capacity)
    else .ok ⟨baseOffset⟩

def capacity (_ : RawStore g) : Nat := g.eraseSize - headerLen

def pageBase (s : RawStore g) (idx : U32) : FlashM U32 := do
  let offset ← Bus.mul idx (asU32 g.eraseSize)
  Bus.add s.baseOffset offset

/-- The loop that streams a payload through the checksum. -/
def crcLoop : Nat → Nat → U32 → U32 → FlashM U32
  | 0, _, _, crc => pure crc
  | fuel + 1, remaining, offset, crc =>
    if remaining = 0 then pure crc
    else do
      let n := min remaining crcChunk
      let chunk ← Bus.read offset n
      let offset ← Bus.add offset (asU32 n)
      crcLoop fuel (remaining - n) offset (Crc32.update crc chunk)

def readValidHeader (s : RawStore g) (idx : U32) : FlashM (Option PageHeader) := do
  let base ← s.pageBase idx
  let header ← Bus.read base headerLen
  if header.take 4 ≠ magic then pure none
  else do
    let generation := fromLeBytes ((header.drop 4).take 4)
    let len := (fromLeBytes ((header.drop 8).take 4)).toNat
    let wantCrc := fromLeBytes ((header.drop 12).take 4)
    if s.capacity < len then pure none
    else do
      let offset ← Bus.add base (asU32 headerLen)
      let crc ← crcLoop len len offset Crc32.new
      if Crc32.finalize crc ≠ wantCrc then pure none else pure (some ⟨generation, len⟩)

def newer : Option PageHeader → Option PageHeader → Option (U32 × PageHeader)
  | none, none => none
  | some h, none => some (0, h)
  | none, some h => some (1, h)
  | some a, some b => if a.generation < b.generation then some (1, b) else some (0, a)

def newestValid (s : RawStore g) : FlashM (Option (U32 × PageHeader)) := do
  let h0 ← s.readValidHeader 0
  let h1 ← s.readValidHeader 1
  pure (newer h0 h1)

/-- The loop that looks for a byte that is not erased. -/
def blankLoop : Nat → Nat → U32 → FlashM Bool
  | 0, _, _ => pure true
  | fuel + 1, remaining, offset =>
    if remaining = 0 then pure true
    else do
      let n := min remaining crcChunk
      let chunk ← Bus.read offset n
      if chunk.any fun b => b ≠ erased then pure false
      else do
        let offset ← Bus.add offset (asU32 n)
        blankLoop fuel (remaining - n) offset

def pageIsBlank (s : RawStore g) (idx : U32) : FlashM Bool := do
  let base ← s.pageBase idx
  blankLoop g.eraseSize g.eraseSize base

def erasePage (s : RawStore g) (idx : U32) : FlashM U32 := do
  let base ← s.pageBase idx
  let top ← Bus.add base (asU32 g.eraseSize)
  Bus.erase base top
  pure base

def erasePageIfWritten (s : RawStore g) (idx : U32) : FlashM Unit := do
  let blank ← s.pageIsBlank idx
  if blank then pure ()
  else do
    let _ ← s.erasePage idx
    pure ()

def load (s : RawStore g) (outLen : Nat) : FlashM (Option Bytes) := do
  let newest ← s.newestValid
  match newest with
  | none => pure none
  | some (idx, header) =>
    if outLen < header.len then throw (.bufferTooSmall header.len outLen)
    else do
      let base ← s.pageBase idx
      let payloadAt ← Bus.add base (asU32 headerLen)
      let payload ← Bus.read payloadAt header.len
      pure (some payload)

/-- The page a save writes to and the generation it gives it. -/
def target : Option (U32 × PageHeader) → U32 × U32
  | none => (0, 0)
  | some (idx, header) => (idx ^^^ 1, header.generation + 1)

/-- How much of a blob is whole words. -/
def alignedLen (g : FlashGeometry) (data : Bytes) : Nat := data.length - data.length % g.writeSize

def writeWords (g : FlashGeometry) (payloadBase : U32) (data : Bytes) : FlashM Unit :=
  if 0 < alignedLen g data then Bus.write payloadBase (data.take (alignedLen g data)) else pure ()

/-- The rest of a blob, padded to a word. -/
def writeTail (g : FlashGeometry) (payloadBase : U32) (data : Bytes) : FlashM Unit :=
  let rem := data.length - alignedLen g data
  if 0 < rem then do
    let tailAt ← Bus.add payloadBase (asU32 (alignedLen g data))
    Bus.write tailAt
      ((data.drop (alignedLen g data) ++ List.replicate (maxWriteSize - rem) erased).take
        g.writeSize)
  else pure ()

def save (s : RawStore g) (data : Bytes) : FlashM Unit :=
  if s.capacity < data.length then throw (.blobTooLarge data.length s.capacity)
  else do
    let newest ← s.newestValid
    let base ← s.erasePage (target newest).1
    Bus.write base (FlashStore.headerBytes (target newest).2 data)
    let payloadBase ← Bus.add base (asU32 headerLen)
    writeWords g payloadBase data
    writeTail g payloadBase data

def eraseStale (s : RawStore g) (keep : Option U32) (idx : U32) : FlashM Unit :=
  if keep ≠ some idx then s.erasePageIfWritten idx else pure ()

def scrub (s : RawStore g) : FlashM Unit := do
  let newest ← s.newestValid
  s.eraseStale (newest.map Prod.fst) 0
  s.eraseStale (newest.map Prod.fst) 1

def erase (s : RawStore g) : FlashM Unit := do
  s.erasePageIfWritten 0
  s.erasePageIfWritten 1

end RawStore

inductive RawOp where
  | load (outLen : Nat)
  | save (data : Bytes)
  | scrub
  | erase

namespace RawStore

variable {g : FlashGeometry}

def perform (s : RawStore g) : RawOp → FlashM Unit
  | .load outLen => do
    let _ ← s.load outLen
    pure ()
  | .save data => s.save data
  | .scrub => s.scrub
  | .erase => s.erase

/-- The bus after an operation, whether it came out well or not. -/
def step (s : RawStore g) (bus : Bus) (op : RawOp) : Bus :=
  match s.perform op bus with
  | .ok _ bus' => bus'
  | .error _ bus' => bus'

/-! ### What may be asked -/

def lo (s : RawStore g) : Nat := s.baseOffset.toNat
def hi (s : RawStore g) : Nat := s.baseOffset.toNat + 2 * g.eraseSize

/-- The cells that were erased and not written since. -/
def clean (before : Nat → Bool) : Access → Nat → Bool
  | .erase lo hi => fun a => if lo ≤ a ∧ a < hi then true else before a
  | .write off n => fun a => if off ≤ a ∧ a < off + n then false else before a
  | .fault => fun _ => false
  | .read _ _ => before
  | .overflow => before

/-- Everything lies inside the two pages, a write is aligned to words and touches clean cells
only, and no address leaves its thirty-two bits. -/
def Allowed (s : RawStore g) (before : Nat → Bool) : Access → Prop
  | .read off n => s.lo ≤ off ∧ off + n ≤ s.hi
  | .write off n => (s.lo ≤ off ∧ off + n ≤ s.hi) ∧ (g.writeSize ∣ off ∧ g.writeSize ∣ n) ∧
      ∀ a, off ≤ a → a < off + n → before a = true
  | .erase lo hi => s.lo ≤ lo ∧ lo ≤ hi ∧ hi ≤ s.hi
  | .fault => True
  | .overflow => False

def Sound (s : RawStore g) (bus : Bus) : Prop :=
  Run.AllSafe clean s.Allowed (fun _ => false) bus.trace

/-- The cells between two addresses are clean. -/
def CleanIn (lo hi : Nat) (bus : Bus) : Prop :=
  ∀ a, lo ≤ a → a < hi → Run.run clean (fun _ => false) bus.trace a = true

section Logging
variable {s : RawStore g} {bus : Bus} {access : Access}

theorem sound_log (h : s.Sound bus)
    (hallowed : s.Allowed (Run.run clean (fun _ => false) bus.trace) access) :
    s.Sound (bus.log access) := by
  apply Run.AllSafe.append h
  exact Run.allSafe_cons.mpr ⟨hallowed, Run.allSafe_nil⟩

theorem run_log : Run.run clean (fun _ => false) (bus.log access).trace =
    clean (Run.run clean (fun _ => false) bus.trace) access :=
  Run.run_append_singleton access

theorem sound_mem (h : s.Sound bus) (hmem : access ∈ bus.trace) :
    ∃ before, s.Allowed before access := by
  obtain ⟨pre, post, hsplit⟩ := List.append_of_mem hmem
  refine ⟨_, h pre access ?_⟩
  rw [hsplit]
  exact ⟨post, by simp⟩

end Logging

/-! ### A store that fits -/

/-- Both pages end below `2 ^ 32`, and a page is whole words. -/
structure Fits (s : RawStore g) : Prop where
  addressed : s.baseOffset.toNat + 2 * g.eraseSize < 2 ^ 32
  words : g.writeSize ∣ g.eraseSize
  aligned : g.eraseSize ∣ s.baseOffset.toNat
  holds : headerLen < g.eraseSize

theorem asU32_toNat {n : Nat} (h : n < 2 ^ 32) : (asU32 n).toNat = n := by
  unfold asU32
  rw [BitVec.toNat_ofNat, Nat.mod_eq_of_lt h]

section Calls
variable {s : RawStore g} {off : U32} {n : Nat} {P E : Bus → Prop} {a b : U32}

theorem add_ok (h : a.toNat + b.toNat < 2 ^ 32) :
    Triple P (Bus.add a b) (fun r bus => r.toNat = a.toNat + b.toNat ∧ P bus) E := by
  intro bus hbus
  constructor
  · intro r bus' hrun
    unfold Bus.add at hrun
    rw [if_pos h] at hrun
    cases hrun
    refine ⟨?_, hbus⟩
    rw [BitVec.toNat_add, Nat.mod_eq_of_lt h]
  · intro e bus' hrun
    cases hrun

theorem mul_ok (h : a.toNat * b.toNat < 2 ^ 32) :
    Triple P (Bus.mul a b) (fun r bus => r.toNat = a.toNat * b.toNat ∧ P bus) E := by
  intro bus hbus
  constructor
  · intro r bus' hrun
    unfold Bus.mul at hrun
    rw [if_pos h] at hrun
    cases hrun
    refine ⟨?_, hbus⟩
    rw [BitVec.toNat_mul, Nat.mod_eq_of_lt h]
  · intro e bus' hrun
    cases hrun

/-- A call that is allowed is recorded, whether it fails or not. -/
theorem call_ok {α : Type} (access : Access) (effect : Cells → α × Cells) (R : Bus → Prop)
    (hP : ∀ bus, R bus → s.Sound bus ∧
      s.Allowed (Run.run clean (fun _ => false) bus.trace) access) :
    Triple R (Bus.call access effect)
      (fun _ bus => s.Sound bus ∧ ∃ before, R before ∧
        Run.run clean (fun _ => false) bus.trace =
          clean (Run.run clean (fun _ => false) before.trace) access) s.Sound := by
  intro bus hbus
  obtain ⟨hsound, hallowed⟩ := hP bus hbus
  have hlogged := sound_log hsound hallowed
  constructor
  · intro r bus' hrun
    unfold Bus.call at hrun
    split at hrun
    · cases hrun
      exact ⟨hlogged, bus, hbus, run_log⟩
    · cases hrun
  · intro e bus' hrun
    unfold Bus.call at hrun
    split at hrun
    · cases hrun
    · cases hrun
      exact sound_log hlogged trivial

theorem read_ok (hlo : s.lo ≤ off.toNat) (hhi : off.toNat + n ≤ s.hi) :
    Triple s.Sound (Bus.read off n) (fun _ => s.Sound) s.Sound := by
  refine Triple.weaken (call_ok _ _ s.Sound fun bus hbus => ⟨hbus, hlo, hhi⟩) ?_ ?_ ?_
  · exact fun _ h => h
  · exact fun _ _ h => h.1
  · exact fun _ h => h

theorem erase_ok {lo hi : U32} (hlo : s.lo ≤ lo.toNat) (hle : lo.toNat ≤ hi.toNat)
    (hhi : hi.toNat ≤ s.hi) :
    Triple s.Sound (Bus.erase lo hi)
      (fun _ bus => s.Sound bus ∧ CleanIn lo.toNat hi.toNat bus) s.Sound := by
  refine Triple.weaken (call_ok _ _ s.Sound fun bus hbus => ⟨hbus, hlo, hle, hhi⟩) ?_ ?_ ?_
  · exact fun _ h => h
  · intro _ bus ⟨hsound, before, _, hrun⟩
    refine ⟨hsound, ?_⟩
    intro a ha ha'
    rw [hrun]
    exact if_pos ⟨ha, ha'⟩
  · exact fun _ h => h

/-- A write of clean cells leaves those behind it clean. -/
theorem write_ok (off : U32) (bytes : Bytes) (top : Nat) (hlo : s.lo ≤ off.toNat)
    (hle : off.toNat + bytes.length ≤ top) (hhi : top ≤ s.hi) (hoff : g.writeSize ∣ off.toNat)
    (hlen : g.writeSize ∣ bytes.length) :
    Triple (fun bus => s.Sound bus ∧ CleanIn off.toNat top bus) (Bus.write off bytes)
      (fun _ bus => s.Sound bus ∧ CleanIn (off.toNat + bytes.length) top bus) s.Sound := by
  have hallowed : ∀ bus, s.Sound bus ∧ CleanIn off.toNat top bus → s.Sound bus ∧
      s.Allowed (Run.run clean (fun _ => false) bus.trace) (.write off.toNat bytes.length) := by
    intro bus ⟨hsound, hclean⟩
    refine ⟨hsound, ⟨hlo, Nat.le_trans hle hhi⟩, ⟨hoff, hlen⟩, ?_⟩
    intro a ha ha'
    exact hclean a ha (Nat.lt_of_lt_of_le ha' hle)
  refine Triple.weaken (call_ok _ _ _ hallowed) ?_ ?_ ?_
  · exact fun _ h => h
  · intro _ bus ⟨hsound, before, ⟨_, hclean⟩, hrun⟩
    refine ⟨hsound, ?_⟩
    intro a ha ha'
    rw [hrun]
    refine (if_neg ?_).trans (hclean a (Nat.le_trans (Nat.le_add_right _ _) ha) ha')
    omega
  · exact fun _ h => h

end Calls

/-! ### Within a page -/

/-- A page of the store begins here. -/
structure PageAt (s : RawStore g) (base : U32) : Prop where
  lo : s.lo ≤ base.toNat
  hi : base.toNat + g.eraseSize ≤ s.hi
  aligned : g.eraseSize ∣ base.toNat

section Pages
variable {s : RawStore g} {idx base : U32} {P E : Bus → Prop}

theorem pageBase_toNat (h : s.baseOffset.toNat + 2 * g.eraseSize < 2 ^ 32)
    (hidx : idx = 0 ∨ idx = 1) :
    Triple P (s.pageBase idx) (fun r bus => r.toNat = s.lo + idx.toNat * g.eraseSize ∧ P bus)
      E := by
  have hsize : (asU32 g.eraseSize).toNat = g.eraseSize := asU32_toNat (by omega)
  have hle : idx.toNat * g.eraseSize ≤ g.eraseSize := by
    rcases hidx with rfl | rfl
    · simp
    · simp
  unfold pageBase
  apply Triple.bind (mul_ok (by rw [hsize]; omega))
  intro offset
  apply Triple.known
  intro hoffset
  rw [hsize] at hoffset
  apply (add_ok (by omega)).weaken
  · exact fun _ hbus => hbus
  · intro r bus ⟨hr, hbus⟩
    refine ⟨?_, hbus⟩
    rw [hr, hoffset]
    rfl
  · exact fun _ hbus => hbus

theorem pageBase_ok (h : s.Fits) (hidx : idx = 0 ∨ idx = 1) :
    Triple P (s.pageBase idx) (fun r bus => s.PageAt r ∧ P bus) E := by
  apply (pageBase_toNat h.addressed hidx).weaken
  · exact fun _ hbus => hbus
  · intro r bus ⟨hr, hbus⟩
    refine ⟨⟨?_, ?_, ?_⟩, hbus⟩
    · omega
    · unfold hi
      have hlo : s.lo = s.baseOffset.toNat := rfl
      rcases hidx with rfl | rfl
      · simp at hr
        omega
      · simp at hr
        omega
    · rw [hr]
      exact Nat.dvd_add h.aligned (Nat.dvd_mul_left _ _)
  · exact fun _ hbus => hbus

theorem chunk_toNat (remaining : Nat) : (asU32 (min remaining crcChunk)).toNat =
    min remaining crcChunk := by
  apply asU32_toNat
  have hle := Nat.min_le_right remaining crcChunk
  have hchunk : crcChunk < 2 ^ 32 := by decide
  omega

theorem crcLoop_ok (h : s.Fits) {top : Nat} (htop : top ≤ s.hi) (fuel remaining : Nat)
    (offset crc : U32) (hlo : s.lo ≤ offset.toNat) (hhi : offset.toNat + remaining ≤ top) :
    Triple s.Sound (crcLoop fuel remaining offset crc) (fun _ => s.Sound) s.Sound := by
  have haddressed : s.hi < 2 ^ 32 := h.addressed
  induction fuel generalizing remaining offset crc with
  | zero => exact Triple.pure fun _ hbus => hbus
  | succ fuel ih =>
    unfold crcLoop
    apply Triple.ite
    · exact fun _ => Triple.pure fun _ hbus => hbus
    · intro _
      have hn := Nat.min_le_left remaining crcChunk
      apply Triple.bind (read_ok hlo (by omega))
      intro chunk
      apply Triple.bind (add_ok (by rw [chunk_toNat]; omega))
      intro offset'
      apply Triple.known
      intro hoffset
      rw [chunk_toNat] at hoffset
      exact ih _ _ _ (by omega) (by omega)

theorem readValidHeader_ok (h : s.Fits) (hidx : idx = 0 ∨ idx = 1) :
    Triple s.Sound (s.readValidHeader idx)
      (fun r bus => (∀ header ∈ r, header.len ≤ s.capacity) ∧ s.Sound bus) s.Sound := by
  have haddressed : s.hi < 2 ^ 32 := h.addressed
  have hholds := h.holds
  have hheader : (asU32 headerLen).toNat = headerLen := rfl
  have hnone : Triple s.Sound (pure none : FlashM (Option PageHeader))
      (fun r bus => (∀ header ∈ r, header.len ≤ s.capacity) ∧ s.Sound bus) s.Sound := by
    apply Triple.pure
    intro bus hbus
    exact ⟨nofun, hbus⟩
  unfold readValidHeader
  apply Triple.bind (pageBase_ok h hidx)
  intro base
  apply Triple.known
  intro hpage
  have hlo := hpage.lo
  have hhi := hpage.hi
  apply Triple.bind (read_ok hlo (by omega))
  intro header
  apply Triple.ite (fun _ => hnone)
  intro _
  apply Triple.ite (fun _ => hnone)
  intro hlen
  have hcapacity : s.capacity = g.eraseSize - headerLen := rfl
  apply Triple.bind (add_ok (by rw [hheader]; omega))
  intro offset
  apply Triple.known
  intro hoffset
  rw [hheader] at hoffset
  apply Triple.bind (crcLoop_ok h (Nat.le_refl _) _ _ _ _ (by omega) (by omega))
  intro crc
  apply Triple.ite (fun _ => hnone)
  intro _
  apply Triple.pure
  intro bus hbus
  refine ⟨?_, hbus⟩
  intro found hfound
  obtain rfl := Option.some.inj hfound
  exact Nat.le_of_not_lt hlen

theorem newer_cases {a b : Option PageHeader} {p : U32 × PageHeader} (h : newer a b = some p) :
    (p.1 = 0 ∧ a = some p.2) ∨ (p.1 = 1 ∧ b = some p.2) := by
  unfold newer at h
  split at h
  · cases h
  · cases h
    exact Or.inl ⟨rfl, rfl⟩
  · cases h
    exact Or.inr ⟨rfl, rfl⟩
  · split at h
    · cases h
      exact Or.inr ⟨rfl, rfl⟩
    · cases h
      exact Or.inl ⟨rfl, rfl⟩

theorem newestValid_ok (h : s.Fits) :
    Triple s.Sound s.newestValid
      (fun r bus => (∀ p ∈ r, (p.1 = 0 ∨ p.1 = 1) ∧ p.2.len ≤ s.capacity) ∧ s.Sound bus)
      s.Sound := by
  unfold newestValid
  apply Triple.bind (readValidHeader_ok h (Or.inl rfl))
  intro h0
  apply Triple.known
  intro hlen0
  apply Triple.bind (readValidHeader_ok h (Or.inr rfl))
  intro h1
  apply Triple.known
  intro hlen1
  apply Triple.pure
  intro bus hbus
  refine ⟨?_, hbus⟩
  intro p hp
  rcases newer_cases hp with ⟨hidx, hheader⟩ | ⟨hidx, hheader⟩
  · exact ⟨Or.inl hidx, hlen0 _ hheader⟩
  · exact ⟨Or.inr hidx, hlen1 _ hheader⟩

theorem blankLoop_ok (h : s.Fits) (fuel remaining : Nat) (offset : U32)
    (hlo : s.lo ≤ offset.toNat) (hhi : offset.toNat + remaining ≤ s.hi) :
    Triple s.Sound (blankLoop fuel remaining offset) (fun _ => s.Sound) s.Sound := by
  have haddressed : s.hi < 2 ^ 32 := h.addressed
  induction fuel generalizing remaining offset with
  | zero => exact Triple.pure fun _ hbus => hbus
  | succ fuel ih =>
    unfold blankLoop
    apply Triple.ite
    · exact fun _ => Triple.pure fun _ hbus => hbus
    · intro _
      have hn := Nat.min_le_left remaining crcChunk
      apply Triple.bind (read_ok hlo (by omega))
      intro chunk
      apply Triple.ite
      · exact fun _ => Triple.pure fun _ hbus => hbus
      · intro _
        apply Triple.bind (add_ok (by rw [chunk_toNat]; omega))
        intro offset'
        apply Triple.known
        intro hoffset
        rw [chunk_toNat] at hoffset
        exact ih _ _ (by omega) (by omega)

/-- An erased page is clean from its start to its end. -/
theorem erasePage_ok (h : s.Fits) (hidx : idx = 0 ∨ idx = 1) :
    Triple s.Sound (s.erasePage idx)
      (fun base bus => s.PageAt base ∧ s.Sound bus ∧
        CleanIn base.toNat (base.toNat + g.eraseSize) bus) s.Sound := by
  have haddressed : s.hi < 2 ^ 32 := h.addressed
  have hbase : s.hi = s.baseOffset.toNat + 2 * g.eraseSize := rfl
  have hsize : (asU32 g.eraseSize).toNat = g.eraseSize := asU32_toNat (by omega)
  unfold erasePage
  apply Triple.bind (pageBase_ok h hidx)
  intro base
  apply Triple.known
  intro hpage
  have hlo := hpage.lo
  have hhi := hpage.hi
  apply Triple.bind (add_ok (by rw [hsize]; omega))
  intro top
  apply Triple.known
  intro htop
  rw [hsize] at htop
  apply Triple.bind (erase_ok hlo (by omega) (by omega))
  intro _
  apply Triple.pure
  intro bus hbus
  rw [htop] at hbus
  exact ⟨hpage, hbus⟩

theorem erasePageIfWritten_ok (h : s.Fits) (hidx : idx = 0 ∨ idx = 1) :
    Triple s.Sound (s.erasePageIfWritten idx) (fun _ => s.Sound) s.Sound := by
  unfold erasePageIfWritten pageIsBlank
  apply Triple.bind (Q := fun _ => s.Sound)
  · apply Triple.bind (pageBase_ok h hidx)
    intro base
    apply Triple.known
    intro hpage
    exact blankLoop_ok h _ _ _ hpage.lo hpage.hi
  · intro blank
    apply Triple.ite
    · exact fun _ => Triple.pure fun _ hbus => hbus
    · intro _
      apply Triple.bind (erasePage_ok h hidx)
      intro base
      apply Triple.pure
      exact fun _ hbus => hbus.2.1

/-! ### The operations -/

theorem load_ok (h : s.Fits) (outLen : Nat) :
    Triple s.Sound (s.load outLen) (fun _ => s.Sound) s.Sound := by
  have haddressed : s.hi < 2 ^ 32 := h.addressed
  have hholds := h.holds
  have hheader : (asU32 headerLen).toNat = headerLen := rfl
  have hcapacity : s.capacity = g.eraseSize - headerLen := rfl
  unfold load
  apply Triple.bind (newestValid_ok h)
  intro newest
  apply Triple.known
  intro hnewest
  cases newest with
  | none => exact Triple.pure fun _ hbus => hbus
  | some found =>
    obtain ⟨hidx, hlen⟩ := hnewest found rfl
    apply Triple.ite
    · exact fun _ => Triple.throw fun _ hbus => hbus
    · intro _
      apply Triple.bind (pageBase_ok h hidx)
      intro base
      apply Triple.known
      intro hpage
      have hlo := hpage.lo
      have hhi := hpage.hi
      apply Triple.bind (add_ok (by rw [hheader]; omega))
      intro payloadAt
      apply Triple.known
      intro hat
      rw [hheader] at hat
      apply Triple.bind (read_ok (by omega) (by omega))
      intro payload
      exact Triple.pure fun _ hbus => hbus

/-- Words follow words up to the end of a page of whole words. -/
theorem padded_le {w size len : Nat} (hsize : w ∣ size) (hlen : len ≤ size)
    (hrem : 0 < len % w) : len - len % w + w ≤ size := by
  obtain ⟨k, rfl⟩ := hsize
  have hdiv := Nat.div_add_mod len w
  have hlt : len / w < k := by
    by_contra hge
    have hmul := Nat.mul_le_mul_left w (Nat.le_of_not_lt hge)
    omega
  have hmul := Nat.mul_le_mul_left w hlt
  rw [Nat.mul_succ] at hmul
  omega

/-- There is room for whole words up to here. -/
structure Room (s : RawStore g) (payloadBase : U32) (data : Bytes) (top : Nat) : Prop where
  lo : s.lo ≤ payloadBase.toNat
  hi : top ≤ s.hi
  aligned : g.writeSize ∣ payloadBase.toNat
  words : ∃ room, g.writeSize ∣ room ∧ data.length ≤ room ∧ payloadBase.toNat + room = top

theorem alignedLen_le (data : Bytes) : alignedLen g data ≤ data.length := Nat.sub_le _ _

theorem dvd_alignedLen (data : Bytes) : g.writeSize ∣ alignedLen g data := Nat.dvd_sub_mod _

theorem writeWords_ok {payloadBase : U32} {data : Bytes} {top : Nat}
    (h : s.Room payloadBase data top) :
    Triple (fun bus => s.Sound bus ∧ CleanIn payloadBase.toNat top bus)
      (writeWords g payloadBase data) (fun _ bus => s.Sound bus ∧
        CleanIn (payloadBase.toNat + alignedLen g data) top bus) s.Sound := by
  obtain ⟨room, _, hfit, htop⟩ := h.words
  have hle := alignedLen_le (g := g) data
  have htake : (data.take (alignedLen g data)).length = alignedLen g data :=
    List.length_take_of_le hle
  unfold writeWords
  apply Triple.ite
  · intro hpos
    have hwrite := write_ok payloadBase (data.take (alignedLen g data)) top h.lo
      (by rw [htake]; omega) h.hi h.aligned (by rw [htake]; exact dvd_alignedLen data)
    rw [htake] at hwrite
    exact hwrite
  · intro hzero
    apply Triple.pure
    intro bus hbus
    rw [Nat.eq_zero_of_not_pos hzero, Nat.add_zero]
    exact hbus

theorem writeTail_ok (h : s.Fits) {payloadBase : U32} {data : Bytes} {top : Nat}
    (hroom : s.Room payloadBase data top) :
    Triple (fun bus => s.Sound bus ∧ CleanIn (payloadBase.toNat + alignedLen g data) top bus)
      (writeTail g payloadBase data) (fun _ => s.Sound) s.Sound := by
  have haddressed : s.hi < 2 ^ 32 := h.addressed
  have hlo := hroom.lo
  have hhi := hroom.hi
  obtain ⟨room, hwords, hfit, htop⟩ := hroom.words
  have hle := alignedLen_le (g := g) data
  have haligned : alignedLen g data = data.length - data.length % g.writeSize := rfl
  have hmod := Nat.mod_le data.length g.writeSize
  have hat : (asU32 (alignedLen g data)).toNat = alignedLen g data := asU32_toNat (by omega)
  unfold writeTail
  apply Triple.ite
  · intro hrem
    have hpadded := padded_le hwords hfit (by omega)
    apply Triple.bind (add_ok (by rw [hat]; omega))
    intro tailAt
    apply Triple.known
    intro htail
    rw [hat] at htail
    have hlength : ((data.drop (alignedLen g data) ++ List.replicate
        (maxWriteSize - (data.length - alignedLen g data)) erased).take g.writeSize).length =
        g.writeSize := by
      have hword := g.word_le
      have hlt := Nat.mod_lt data.length g.word_pos
      rw [List.length_take, List.length_append, List.length_drop, List.length_replicate]
      omega
    rw [← htail]
    have hwrite := write_ok tailAt ((data.drop (alignedLen g data) ++ List.replicate
      (maxWriteSize - (data.length - alignedLen g data)) erased).take g.writeSize) top (by omega)
      (by rw [hlength]; omega) hhi
      (by rw [htail]; exact Nat.dvd_add hroom.aligned (dvd_alignedLen data)) (by rw [hlength])
    exact hwrite.weaken (fun _ hbus => hbus) (fun _ _ hbus => hbus.1) fun _ hbus => hbus
  · exact fun _ => Triple.pure fun _ hbus => hbus.1

theorem save_ok (h : s.Fits) (data : Bytes) :
    Triple s.Sound (s.save data) (fun _ => s.Sound) s.Sound := by
  have haddressed : s.hi < 2 ^ 32 := h.addressed
  have hholds := h.holds
  have hheader : (asU32 headerLen).toNat = headerLen := rfl
  have hcapacity : s.capacity = g.eraseSize - headerLen := rfl
  unfold save
  apply Triple.ite
  · exact fun _ => Triple.throw fun _ hbus => hbus
  · intro hfit
    apply Triple.bind (newestValid_ok h)
    intro newest
    apply Triple.known
    intro hnewest
    have htarget : (target newest).1 = 0 ∨ (target newest).1 = 1 := by
      cases newest with
      | none => exact Or.inl rfl
      | some found =>
        rcases (hnewest found rfl).1 with hidx | hidx
        · right
          change found.1 ^^^ 1 = 1
          rw [hidx]
          rfl
        · left
          change found.1 ^^^ 1 = 0
          rw [hidx]
          rfl
    apply Triple.bind (erasePage_ok h htarget)
    intro base
    apply Triple.known
    intro hpage
    have hlo := hpage.lo
    have hhi := hpage.hi
    have hword := h.words.trans hpage.aligned
    have hlength : (FlashStore.headerBytes (target newest).2 data).length = headerLen := rfl
    have hwrite := write_ok base (FlashStore.headerBytes (target newest).2 data)
      (base.toNat + g.eraseSize) hlo (by omega) hhi hword
      (by rw [hlength]; exact g.word_header)
    apply Triple.bind hwrite
    intro _
    apply Triple.bind (add_ok (by rw [hheader]; omega))
    intro payloadBase
    apply Triple.known
    intro hpayload
    rw [hheader] at hpayload
    rw [hlength, ← hpayload]
    have hroom : s.Room payloadBase data (base.toNat + g.eraseSize) := by
      refine ⟨by omega, hhi, ?_, g.eraseSize - headerLen,
        Nat.dvd_sub h.words g.word_header, by omega, by omega⟩
      rw [hpayload]
      exact Nat.dvd_add hword g.word_header
    apply Triple.bind (writeWords_ok hroom)
    intro _
    exact writeTail_ok h hroom

theorem eraseStale_ok (h : s.Fits) (keep : Option U32) (hidx : idx = 0 ∨ idx = 1) :
    Triple s.Sound (s.eraseStale keep idx) (fun _ => s.Sound) s.Sound := by
  apply Triple.ite
  · exact fun _ => erasePageIfWritten_ok h hidx
  · exact fun _ => Triple.pure fun _ hbus => hbus

theorem scrub_ok (h : s.Fits) : Triple s.Sound s.scrub (fun _ => s.Sound) s.Sound := by
  unfold scrub
  apply Triple.bind (newestValid_ok h)
  intro newest
  apply Triple.known
  intro _
  apply Triple.bind (eraseStale_ok h _ (Or.inl rfl))
  intro _
  exact eraseStale_ok h _ (Or.inr rfl)

theorem erase_both_ok (h : s.Fits) : Triple s.Sound s.erase (fun _ => s.Sound) s.Sound := by
  unfold erase
  apply Triple.bind (erasePageIfWritten_ok h (Or.inl rfl))
  intro _
  exact erasePageIfWritten_ok h (Or.inr rfl)

theorem perform_ok (h : s.Fits) (op : RawOp) :
    Triple s.Sound (s.perform op) (fun _ => s.Sound) s.Sound := by
  cases op with
  | load outLen =>
    apply Triple.bind (load_ok h outLen)
    intro _
    exact Triple.pure fun _ hbus => hbus
  | save data => exact save_ok h data
  | scrub => exact scrub_ok h
  | erase => exact erase_both_ok h

theorem sound_step (h : s.Fits) {bus : Bus} (hbus : s.Sound bus) (op : RawOp) :
    s.Sound (s.step bus op) := by
  obtain ⟨hok, herror⟩ := perform_ok h op bus hbus
  unfold step
  cases hrun : s.perform op bus with
  | ok _ bus' => exact hok _ bus' hrun
  | error e bus' => exact herror e bus' hrun

end Pages

/-! ### A store that does not fit -/

/-- No call fails, the cells are these, and either a sum has wrapped or this holds. -/
structure Calm (m : Cells) (q : Prop) (bus : Bus) : Prop where
  faultless : bus.faults = fun _ => none
  cells : bus.cells = m
  known : Access.overflow ∈ bus.trace ∨ q

section Wrapping
variable {s : RawStore g} {m : Cells} {q q' : Prop} {off a b idx : U32} {n : Nat} {bus : Bus}

theorem Calm.mono (h : Calm m q bus) (hq : q → q') : Calm m q' bus :=
  ⟨h.faultless, h.cells, h.known.imp_right hq⟩

theorem read_calm : Triple (Calm m q) (Bus.read off n)
    (fun r bus => r = m.read off.toNat n ∧ Calm m q bus) fun _ => False := by
  intro bus hbus
  constructor
  · intro r bus' hrun
    unfold Bus.read Bus.call at hrun
    rw [hbus.faultless] at hrun
    cases hrun
    refine ⟨by rw [hbus.cells], hbus.faultless, hbus.cells, ?_⟩
    exact hbus.known.imp_left fun hmem => List.mem_append_left _ hmem
  · intro e bus' hrun
    unfold Bus.read Bus.call at hrun
    rw [hbus.faultless] at hrun
    cases hrun

theorem add_calm : Triple (Calm m q) (Bus.add a b)
    (fun r => Calm m (q ∧ r.toNat = a.toNat + b.toNat ∧ a.toNat + b.toNat < 2 ^ 32))
    fun _ => False := by
  intro bus hbus
  constructor
  · intro r bus' hrun
    unfold Bus.add at hrun
    split at hrun
    · rename_i hlt
      cases hrun
      refine hbus.mono fun hq => ⟨hq, ?_, hlt⟩
      rw [BitVec.toNat_add, Nat.mod_eq_of_lt hlt]
    · cases hrun
      exact ⟨hbus.faultless, hbus.cells, Or.inl (List.mem_append_right _ List.mem_cons_self)⟩
  · intro e bus' hrun
    cases hrun

theorem mul_calm : Triple (Calm m q) (Bus.mul a b)
    (fun r => Calm m (q ∧ r.toNat = a.toNat * b.toNat)) fun _ => False := by
  intro bus hbus
  constructor
  · intro r bus' hrun
    unfold Bus.mul at hrun
    split at hrun
    · rename_i hlt
      cases hrun
      refine hbus.mono fun hq => ⟨hq, ?_⟩
      rw [BitVec.toNat_mul, Nat.mod_eq_of_lt hlt]
    · cases hrun
      exact ⟨hbus.faultless, hbus.cells, Or.inl (List.mem_append_right _ List.mem_cons_self)⟩
  · intro e bus' hrun
    cases hrun

theorem pageBase_calm : Triple (Calm m q) (s.pageBase idx)
    (fun r => Calm m (q ∧ r.toNat = s.lo + idx.toNat * (asU32 g.eraseSize).toNat))
    fun _ => False := by
  unfold pageBase
  apply Triple.bind mul_calm
  intro offset
  apply add_calm.weaken
  · exact fun _ hbus => hbus
  · intro r bus hbus
    refine hbus.mono ?_
    intro ⟨⟨hq, hoffset⟩, hr, _⟩
    exact ⟨hq, by rw [hr, hoffset]; rfl⟩
  · exact fun _ hbus => hbus

/-- The loop over a blank page computes the address behind its last chunk. -/
theorem blankLoop_calm (hblank : ∀ a, m a = erased) (fuel remaining : Nat) (offset : U32)
    (hfuel : remaining ≤ fuel) :
    Triple (Calm m q) (blankLoop fuel remaining offset)
      (fun r bus => r = true ∧ Calm m (q ∧ offset.toNat + remaining < 2 ^ 32) bus)
      fun _ => False := by
  have hdone : ∀ (offset : U32) {q : Prop}, Triple (Calm m q) (pure true : FlashM Bool)
      (fun r bus => r = true ∧ Calm m (q ∧ offset.toNat + 0 < 2 ^ 32) bus) fun _ => False := by
    intro offset q
    apply Triple.pure
    intro bus hbus
    exact ⟨rfl, hbus.mono fun hq => ⟨hq, offset.isLt⟩⟩
  induction fuel generalizing remaining offset q with
  | zero =>
    obtain rfl := Nat.le_zero.mp hfuel
    exact hdone offset
  | succ fuel ih =>
    unfold blankLoop
    apply Triple.ite
    · rintro rfl
      exact hdone offset
    · intro hne
      have hn := Nat.min_le_left remaining crcChunk
      have hpos : 0 < min remaining crcChunk := by
        have hchunk : 0 < crcChunk := by decide
        omega
      apply Triple.bind read_calm
      intro chunk
      apply Triple.known
      intro hchunk
      have hany : ¬ (chunk.any fun b => b ≠ erased) = true := by
        rw [hchunk, Cells.read_blank fun a _ _ => hblank a]
        simp
      apply Triple.ite (fun h => absurd h hany)
      intro _
      apply Triple.bind add_calm
      intro offset'
      apply (ih _ offset' (by omega)).weaken
      · exact fun _ hbus => hbus
      · intro r bus ⟨hr, hbus⟩
        refine ⟨hr, hbus.mono ?_⟩
        intro ⟨⟨hq, hoffset, _⟩, hlt⟩
        rw [chunk_toNat] at hoffset
        exact ⟨hq, by omega⟩
      · exact fun _ hbus => hbus

theorem erasePageIfWritten_calm (hblank : ∀ a, m a = erased) :
    Triple (Calm m q) (s.erasePageIfWritten idx)
      (fun _ => Calm m (q ∧ s.lo + idx.toNat * (asU32 g.eraseSize).toNat + g.eraseSize < 2 ^ 32))
      fun _ => False := by
  unfold erasePageIfWritten pageIsBlank
  apply Triple.bind (Q := fun r bus => r = true ∧
    Calm m (q ∧ s.lo + idx.toNat * (asU32 g.eraseSize).toNat + g.eraseSize < 2 ^ 32) bus)
  · apply Triple.bind pageBase_calm
    intro base
    apply (blankLoop_calm hblank _ _ base (Nat.le_refl _)).weaken
    · exact fun _ hbus => hbus
    · intro r bus ⟨hr, hbus⟩
      refine ⟨hr, hbus.mono ?_⟩
      intro ⟨⟨hq, hbase⟩, hlt⟩
      rw [hbase] at hlt
      exact ⟨hq, hlt⟩
    · exact fun _ hbus => hbus
  · intro blank
    apply Triple.known
    intro htrue
    apply Triple.ite
    · exact fun _ => Triple.pure fun _ hbus => hbus
    · exact fun hnot => absurd htrue hnot

/-- Erasing a blank store computes the address behind its second page. -/
theorem erase_calm (hblank : ∀ a, m a = erased) :
    Triple (Calm m True) s.erase
      (fun _ => Calm m (s.baseOffset.toNat + 2 * g.eraseSize < 2 ^ 32)) fun _ => False := by
  unfold erase
  apply Triple.bind (erasePageIfWritten_calm hblank)
  intro _
  apply (erasePageIfWritten_calm hblank).weaken
  · exact fun _ hbus => hbus
  · intro _ bus hbus
    refine hbus.mono ?_
    intro ⟨⟨_, hfirst⟩, hsecond⟩
    have hsize : (asU32 g.eraseSize).toNat = g.eraseSize := asU32_toNat (by omega)
    rw [hsize] at hsecond
    have hlo : s.lo = s.baseOffset.toNat := rfl
    simp at hsecond
    omega
  · exact fun _ hbus => hbus

def blankCells : Cells := fun _ => erased

theorem blankCells_blank (lo hi : Nat) : blankCells.Blank lo hi := fun _ _ _ => rfl

def blankBus (m : Cells) : Bus := ⟨m, fun _ => none, []⟩

theorem addressed_of_sound (h : ∀ bus, bus.trace = [] → ∀ op, s.Sound (s.step bus op)) :
    s.baseOffset.toNat + 2 * g.eraseSize < 2 ^ 32 := by
  have hcalm : Calm blankCells True (blankBus blankCells) :=
    ⟨rfl, rfl, Or.inr trivial⟩
  obtain ⟨hok, herror⟩ := erase_calm (s := s) (fun _ => rfl) _ hcalm
  have hsound := h (blankBus blankCells) rfl .erase
  unfold step at hsound
  cases hrun : s.perform .erase (blankBus blankCells) with
  | error e bus' => exact (herror e bus' hrun).elim
  | ok r bus' =>
    rw [hrun] at hsound
    rcases (hok r bus' hrun).known with hmem | hlt
    · obtain ⟨before, hallowed⟩ := sound_mem hsound hmem
      exact hallowed.elim
    · exact hlt

end Wrapping

/-! ### Pages that are not whole words -/

section Words
variable {s : RawStore g} {m : Cells} {idx : U32}

def Faultless (bus : Bus) : Prop := bus.faults = fun _ => none

theorem call_logs {α : Type} (access : Access) (effect : Cells → α × Cells) :
    Triple Faultless (Bus.call access effect)
      (fun _ bus => Faultless bus ∧ access ∈ bus.trace) fun _ => False := by
  intro bus hbus
  constructor
  · intro r bus' hrun
    unfold Bus.call at hrun
    rw [hbus] at hrun
    cases hrun
    exact ⟨hbus, List.mem_append_right _ List.mem_cons_self⟩
  · intro e bus' hrun
    unfold Bus.call at hrun
    rw [hbus] at hrun
    cases hrun

/-- A page that does not begin with the magic holds nothing. -/
theorem readValidHeader_none (haddressed : s.baseOffset.toNat + 2 * g.eraseSize < 2 ^ 32)
    (hidx : idx = 0 ∨ idx = 1)
    (hmagic : (m.read (s.lo + idx.toNat * g.eraseSize) headerLen).take 4 ≠ magic) :
    Triple (Calm m True) (s.readValidHeader idx)
      (fun r bus => r = none ∧ Calm m True bus) fun _ => False := by
  unfold readValidHeader
  apply Triple.bind (pageBase_toNat haddressed hidx)
  intro base
  apply Triple.known
  intro hbase
  apply Triple.bind read_calm
  intro header
  apply Triple.known
  intro hheader
  rw [hbase] at hheader
  rw [← hheader] at hmagic
  apply Triple.ite
  · exact fun _ => Triple.pure fun _ hbus => ⟨rfl, hbus⟩
  · exact fun heq => absurd hmagic heq

/-- A page with the header of an empty blob holds this blob. -/
theorem readValidHeader_empty (haddressed : s.baseOffset.toNat + 2 * g.eraseSize < 2 ^ 32)
    (hholds : headerLen < g.eraseSize) (hidx : idx = 0 ∨ idx = 1)
    (hread : m.read (s.lo + idx.toNat * g.eraseSize) headerLen = FlashStore.headerBytes 0 []) :
    Triple (Calm m True) (s.readValidHeader idx)
      (fun r bus => r = some ⟨0, 0⟩ ∧ Calm m True bus) fun _ => False := by
  have hlen : (fromLeBytes (((FlashStore.headerBytes 0 []).drop 8).take 4)).toNat = 0 := by
    decide +kernel
  have hle : idx.toNat * g.eraseSize ≤ g.eraseSize := by
    rcases hidx with rfl | rfl
    · simp
    · simp
  have hlo : s.lo = s.baseOffset.toNat := rfl
  have hsixteen : (asU32 headerLen).toNat = headerLen := rfl
  unfold readValidHeader
  apply Triple.bind (pageBase_toNat haddressed hidx)
  intro base
  apply Triple.known
  intro hbase
  apply Triple.bind read_calm
  intro header
  apply Triple.known
  intro hheader
  rw [hbase, hread] at hheader
  subst hheader
  apply Triple.ite
  · intro hmagic
    exact absurd (by decide +kernel) hmagic
  · intro _
    dsimp only
    rw [hlen]
    apply Triple.ite
    · intro hlarge
      exact absurd hlarge (Nat.not_lt_zero _)
    · intro _
      apply Triple.bind (add_ok (by rw [hsixteen]; omega))
      intro offset
      apply Triple.known
      intro _
      apply Triple.bind (Q := fun crc bus => crc = Crc32.new ∧ Calm m True bus)
      · exact Triple.pure fun _ hbus => ⟨rfl, hbus⟩
      · intro crc
        apply Triple.known
        rintro rfl
        apply Triple.ite
        · intro hcrc
          exact absurd (by decide +kernel) hcrc
        · intro _
          apply Triple.pure
          intro bus hbus
          refine ⟨?_, hbus⟩
          decide +kernel

/-- A save of the empty blob writes a header to the page it finds to be the older one. -/
theorem save_empty_logs (haddressed : s.baseOffset.toNat + 2 * g.eraseSize < 2 ^ 32)
    (hholds : headerLen < g.eraseSize) {newest : Option (U32 × PageHeader)}
    (hnewest : Triple (Calm m True) s.newestValid
      (fun r bus => r = newest ∧ Calm m True bus) fun _ => False)
    (hidx : (target newest).1 = 0 ∨ (target newest).1 = 1) :
    Triple (Calm m True) (s.save []) (fun _ bus => Access.write
      (s.lo + (target newest).1.toNat * g.eraseSize) headerLen ∈ bus.trace) fun _ => False := by
  have hle : (target newest).1.toNat * g.eraseSize ≤ g.eraseSize := by
    rcases hidx with hidx | hidx
    · simp [hidx]
    · simp [hidx]
  have hlo : s.lo = s.baseOffset.toNat := rfl
  have hsize : (asU32 g.eraseSize).toNat = g.eraseSize := asU32_toNat (by omega)
  have hsixteen : (asU32 headerLen).toNat = headerLen := rfl
  have halign : alignedLen g [] = 0 := Nat.zero_sub _
  unfold save
  apply Triple.ite (fun hlarge => absurd hlarge (Nat.not_lt_zero _))
  intro _
  apply Triple.bind hnewest
  intro found
  apply Triple.known
  rintro rfl
  apply Triple.bind (Q := fun base bus =>
    base.toNat = s.lo + (target found).1.toNat * g.eraseSize ∧ Faultless bus)
  · unfold erasePage
    apply Triple.bind (pageBase_toNat haddressed hidx)
    intro base
    apply Triple.known
    intro hbase
    apply Triple.bind (add_ok (by rw [hsize]; omega))
    intro top
    apply Triple.known
    intro _
    apply Triple.bind (Q := fun _ => Faultless)
    · refine Triple.weaken (call_logs _ _) ?_ ?_ ?_
      · exact fun _ hbus => hbus.faultless
      · exact fun _ _ hbus => hbus.1
      · exact fun _ hbus => hbus
    · intro _
      exact Triple.pure fun _ hbus => ⟨hbase, hbus⟩
  · intro base
    apply Triple.known
    intro hbase
    refine Triple.bind (call_logs _ _) ?_
    intro _
    apply Triple.bind (add_ok (by rw [hsixteen]; omega))
    intro payloadBase
    apply Triple.known
    intro _
    unfold writeWords writeTail
    rw [halign]
    apply Triple.bind (Q := fun _ bus => Access.write
      (s.lo + (target found).1.toNat * g.eraseSize) headerLen ∈ bus.trace)
    · apply Triple.ite (fun hpos => absurd hpos (Nat.lt_irrefl 0))
      intro _
      apply Triple.pure
      intro bus hbus
      rw [← hbase]
      exact hbus.2
    · intro _
      apply Triple.ite (fun hpos => absurd hpos (Nat.lt_irrefl 0))
      exact fun _ => Triple.pure fun _ hbus => hbus

theorem dvd_of_sound (haddressed : s.baseOffset.toNat + 2 * g.eraseSize < 2 ^ 32)
    (hholds : headerLen < g.eraseSize)
    (h : ∀ bus, bus.trace = [] → ∀ op, s.Sound (s.step bus op))
    (newest : Option (U32 × PageHeader))
    (hnewest : Triple (Calm m True) s.newestValid
      (fun r bus => r = newest ∧ Calm m True bus) fun _ => False)
    (hidx : (target newest).1 = 0 ∨ (target newest).1 = 1) :
    g.writeSize ∣ s.lo + (target newest).1.toNat * g.eraseSize := by
  have hcalm : Calm m True (blankBus m) := ⟨rfl, rfl, Or.inr trivial⟩
  obtain ⟨hok, herror⟩ := save_empty_logs haddressed hholds hnewest hidx _ hcalm
  have hsound := h (blankBus m) rfl (.save [])
  unfold step at hsound
  cases hrun : s.perform (.save []) (blankBus m) with
  | error e bus' => exact (herror e bus' hrun).elim
  | ok r bus' =>
    rw [hrun] at hsound
    obtain ⟨before, hallowed⟩ := sound_mem hsound (hok r bus' hrun)
    exact hallowed.2.1.1

/-- On a blank store a save goes to the first page, on one with a blob there to the second. -/
theorem words_of_sound (haddressed : s.baseOffset.toNat + 2 * g.eraseSize < 2 ^ 32)
    (hholds : headerLen < g.eraseSize)
    (h : ∀ bus, bus.trace = [] → ∀ op, s.Sound (s.step bus op)) :
    g.writeSize ∣ g.eraseSize := by
  have hblank : ∀ off, (blankCells.read off headerLen).take 4 ≠ magic := by
    intro off
    rw [Cells.read_blank (blankCells_blank _ _)]
    decide +kernel
  have hfirst : g.writeSize ∣ s.lo + (0 : U32).toNat * g.eraseSize := by
    refine dvd_of_sound (m := blankCells) haddressed hholds h none ?_ (Or.inl rfl)
    unfold newestValid
    apply Triple.bind (readValidHeader_none haddressed (Or.inl rfl) (hblank _))
    intro h0
    apply Triple.known
    rintro rfl
    apply Triple.bind (readValidHeader_none haddressed (Or.inr rfl) (hblank _))
    intro h1
    apply Triple.known
    rintro rfl
    exact Triple.pure fun _ hbus => ⟨rfl, hbus⟩
  have hlength : (FlashStore.headerBytes 0 []).length = headerLen := rfl
  have hheader : (blankCells.write s.lo (FlashStore.headerBytes 0 [])).read s.lo
      headerLen = FlashStore.headerBytes 0 [] := by
    rw [Cells.read_write (blankCells_blank _ _) (Nat.le_of_eq hlength), hlength, Nat.sub_self,
      List.replicate_zero, List.append_nil]
  have hother : (blankCells.write s.lo (FlashStore.headerBytes 0 [])).read
      (s.lo + (1 : U32).toNat * g.eraseSize) headerLen =
      blankCells.read (s.lo + (1 : U32).toNat * g.eraseSize) headerLen := by
    apply Cells.read_congr
    intro i hi
    apply Cells.write_outside
    have hone : (1 : U32).toNat = 1 := rfl
    rw [hlength, hone]
    omega
  have hsecond : g.writeSize ∣ s.lo + (1 : U32).toNat * g.eraseSize := by
    refine dvd_of_sound (m := blankCells.write s.lo (FlashStore.headerBytes 0 []))
      haddressed hholds h (some (0, ⟨0, 0⟩)) ?_ (Or.inr rfl)
    unfold newestValid
    apply Triple.bind (readValidHeader_empty haddressed hholds (Or.inl rfl) ?_)
    · intro h0
      apply Triple.known
      rintro rfl
      apply Triple.bind (readValidHeader_none haddressed (Or.inr rfl) ?_)
      · intro h1
        apply Triple.known
        rintro rfl
        exact Triple.pure fun _ hbus => ⟨rfl, hbus⟩
      · rw [hother]
        exact hblank _
    · have hzero : (0 : U32).toNat = 0 := rfl
      rw [hzero, Nat.zero_mul, Nat.add_zero]
      exact hheader
  have hzero : (0 : U32).toNat = 0 := rfl
  have hone : (1 : U32).toNat = 1 := rfl
  rw [hzero, Nat.zero_mul, Nat.add_zero] at hfirst
  rw [hone, Nat.one_mul] at hsecond
  exact (Nat.dvd_add_right hfirst).mp hsecond

end Words

/-! ### The placement -/

/-- Where `new` takes the placement, both pages end below `2 ^ 32` and a page is whole words.
The sum is taken as `new` takes it. -/
def Placeable (g : FlashGeometry) (baseOffset : U32) : Prop :=
  headerLen < g.eraseSize → g.eraseSize ∣ baseOffset.toNat →
    (baseOffset.toNat + 2 * (g.eraseSize % 2 ^ 32)) % 2 ^ 32 ≤ g.capacity →
      baseOffset.toNat + 2 * g.eraseSize < 2 ^ 32 ∧ g.writeSize ∣ g.eraseSize

section Placing
variable {s : RawStore g} {baseOffset : U32}

theorem needed_toNat (baseOffset : U32) (n : Nat) : (baseOffset + 2 * asU32 n).toNat =
    (baseOffset.toNat + 2 * (n % 2 ^ 32)) % 2 ^ 32 := by
  unfold asU32
  simp [BitVec.toNat_add, BitVec.toNat_mul, Nat.add_mod, Nat.mul_mod]

theorem new_ok_iff : new g baseOffset = .ok s ↔ (headerLen < g.eraseSize ∧
    g.eraseSize ∣ baseOffset.toNat ∧
    (baseOffset.toNat + 2 * (g.eraseSize % 2 ^ 32)) % 2 ^ 32 ≤ g.capacity) ∧
      s.baseOffset = baseOffset := by
  unfold new
  dsimp only
  rw [needed_toNat]
  constructor
  · intro h
    split at h
    · cases h
    · rename_i hpage
      split at h
      · cases h
      · rename_i halign
        split at h
        · cases h
        · rename_i hin
          cases h
          exact ⟨⟨Nat.lt_of_not_le hpage, not_not.mp halign, Nat.le_of_not_lt hin⟩, rfl⟩
  · intro ⟨⟨hpage, halign, hin⟩, hbase⟩
    rw [if_neg (Nat.not_le.mpr hpage), if_neg (not_not_intro halign), if_neg (Nat.not_lt.mpr hin)]
    cases s
    rw [← hbase]

/-- A placement is taken exactly if it is aligned and both pages are within the device, and
whatever is asked of a store that is taken stays within its pages, exactly if the pages end
below `2 ^ 32` and are whole words, as far as `new` does not refuse them anyway. -/
theorem accesses_inside_iff (g : FlashGeometry) (baseOffset : U32) :
    (((∃ s, new g baseOffset = .ok s) ↔ g.eraseSize ∣ baseOffset.toNat ∧
        headerLen < g.eraseSize ∧ baseOffset.toNat + 2 * g.eraseSize ≤ g.capacity) ∧
      ∀ s, new g baseOffset = .ok s → ∀ bus, bus.trace = [] → ∀ ops,
        s.Sound (Run.run s.step bus ops)) ↔
    Placeable g baseOffset := by
  constructor
  · intro ⟨_, hall⟩ hpage halign hin
    have hnew : new g baseOffset = .ok ⟨baseOffset⟩ :=
      new_ok_iff.mpr ⟨⟨hpage, halign, hin⟩, rfl⟩
    have hstep : ∀ bus, bus.trace = [] → ∀ op,
        (⟨baseOffset⟩ : RawStore g).Sound ((⟨baseOffset⟩ : RawStore g).step bus op) :=
      fun bus hbus op => hall _ hnew bus hbus [op]
    have haddressed := addressed_of_sound hstep
    exact ⟨haddressed, words_of_sound haddressed hpage hstep⟩
  · intro hplaceable
    constructor
    · constructor
      · intro ⟨s, hs⟩
        obtain ⟨⟨hpage, halign, hin⟩, _⟩ := new_ok_iff.mp hs
        obtain ⟨hlt, _⟩ := hplaceable hpage halign hin
        refine ⟨halign, hpage, ?_⟩
        rw [Nat.mod_eq_of_lt (show g.eraseSize < 2 ^ 32 by omega), Nat.mod_eq_of_lt hlt] at hin
        exact hin
      · intro ⟨halign, hpage, hin⟩
        have hle : (baseOffset.toNat + 2 * (g.eraseSize % 2 ^ 32)) % 2 ^ 32 ≤ g.capacity := by
          have hsum := Nat.mod_le (baseOffset.toNat + 2 * (g.eraseSize % 2 ^ 32)) (2 ^ 32)
          have hsize := Nat.mod_le g.eraseSize (2 ^ 32)
          omega
        exact ⟨⟨baseOffset⟩, new_ok_iff.mpr ⟨⟨hpage, halign, hle⟩, rfl⟩⟩
    · intro s hs bus hbus ops
      obtain ⟨⟨hpage, halign, hin⟩, hbase⟩ := new_ok_iff.mp hs
      obtain ⟨hlt, hwords⟩ := hplaceable hpage halign hin
      rw [← hbase] at hlt halign
      have hfits : s.Fits := ⟨hlt, hwords, halign, hpage⟩
      induction ops using List.reverseRecOn with
      | nil =>
        change s.Sound bus
        unfold Sound
        rw [hbus]
        exact Run.allSafe_nil
      | append_singleton ops op ih =>
        rw [Run.run_append_singleton]
        exact sound_step hfits ih op

/-- A part of pages of four kibibytes and words of four bytes. -/
def smallPart : FlashGeometry :=
  ⟨4096, 4, 1048576, four_word_pos, four_le_maxWriteSize, four_dvd_headerLen⟩

/-- A store at the last page below `2 ^ 32` is taken, and lies outside a device of one mebibyte. -/
theorem wrapped_placement :
    (∃ s, new smallPart 0xFFFFF000 = .ok s) ∧
      ¬ (0xFFFFF000 : U32).toNat + 2 * smallPart.eraseSize ≤ smallPart.capacity :=
  ⟨⟨⟨0xFFFFF000⟩, new_ok_iff.mpr ⟨by decide +kernel, rfl⟩⟩, by decide +kernel⟩

end Placing

end RawStore

end Wayfinder
