import Wayfinder.Storage.Pages

/-!
# Values behind a store

`Persisted` runs a mutation, saves the encoded value and takes the mutation back when the
save fails. Over the flash store a save that fails may have left the header of the new
page behind; with it the new page is valid as soon as the cells behind it have the
checksum of the blob, and the next start finds a value that was taken back.
-/

namespace Wayfinder

set_option autoImplicit false

open NorFlash

/-- What a medium offers for one blob. -/
structure DurableStore (S E : Type) where
  load : S → Nat → Except E (Option Bytes)
  save : S → Bytes → Except E Unit × S

/-- The two further calls that dispose of a secret: of the copies a save leaves behind, and
of everything. -/
structure ErasableStore (S E : Type) extends DurableStore S E where
  scrub : S → Except E Unit × S
  erase : S → Except E Unit × S

/-- What the calls promise of the blob a medium holds: a save that succeeds replaces it,
one that fails and a scrub leave it. -/
structure ErasableStore.Lawful {S E : Type} (d : ErasableStore S E) (blob : S → Option Bytes) :
    Prop where
  loaded : ∀ s n found, d.load s n = .ok found → found = blob s
  saved : ∀ s data, (d.save s data).1 = .ok () → blob (d.save s data).2 = some data
  unsaved : ∀ s data err, (d.save s data).1 = .error err → blob (d.save s data).2 = blob s
  scrubbed : ∀ s, blob (d.scrub s).2 = blob s
  erased : ∀ s, (d.erase s).1 = .ok () → blob (d.erase s).2 = none
  unerased : ∀ s err, (d.erase s).1 = .error err → blob (d.erase s).2 = blob s

structure Codec (T E : Type) where
  encode : T → Except E Bytes
  decode : Bytes → Except E T

inductive LoadError (SE CE : Type) where
  | store (e : SE)
  | decode (e : CE)

inductive PersistError (SE CE : Type) where
  | encode (e : CE)
  | store (e : SE)

structure Persisted (T S CE : Type) where
  value : T
  store : S
  codec : Codec T CE

namespace Persisted

variable {T S R SE CE : Type} (d : DurableStore S SE)

def load (store : S) (codec : Codec T CE) (default : T) (readBuf : Nat) :
    Except (LoadError SE CE) (Persisted T S CE) :=
  match d.load store readBuf with
  | .error e => .error (.store e)
  | .ok none => .ok ⟨default, store, codec⟩
  | .ok (some bytes) =>
    match codec.decode bytes with
    | .error e => .error (.decode e)
    | .ok value => .ok ⟨value, store, codec⟩

def persist (x : Persisted T S CE) : Except (PersistError SE CE) Unit × Persisted T S CE :=
  match x.codec.encode x.value with
  | .error e => (.error (.encode e), x)
  | .ok encoded =>
    match d.save x.store encoded with
    | (.error e, store) => (.error (.store e), { x with store := store })
    | (.ok (), store) => (.ok (), { x with store := store })

def mutate (x : Persisted T S CE) (f : T → R × T) :
    R × Except (PersistError SE CE) Unit × Persisted T S CE :=
  let snapshot := x.value
  let (result, value) := f x.value
  match persist d { x with value := value } with
  | (.error e, x) => (result, .error e, { x with value := snapshot })
  | (.ok (), x) => (result, .ok (), x)

/-- `mutate`, for a change that replaces a secret. A scrub that fails is no failed persist. -/
def mutateSealed (d : ErasableStore S SE) (x : Persisted T S CE) (f : T → R × T) :
    R × Except (PersistError SE CE) Unit × Persisted T S CE :=
  match mutate d.toDurableStore x f with
  | (result, .ok (), x) => (result, .ok (), { x with store := (d.scrub x.store).2 })
  | (result, .error e, x) => (result, .error e, x)

/-- The value a restart starts from. -/
def restart (x : Persisted T S CE) (default : T) (readBuf : Nat) : Except (LoadError SE CE) T :=
  (load d x.store x.codec default readBuf).map Persisted.value

end Persisted

namespace FlashStore

variable {p : Placement}

def durable (fails : Nat → Bool) : DurableStore (FlashStore p) FlashError where
  load := FlashStore.load
  save := FlashStore.save fails

section Failing
variable {s : FlashStore p} {data : Bytes} {i : Nat}

/-- What there is of the payload when call `i` fails: nothing, or its whole words. -/
def leftBehind (p : Placement) (data : Bytes) (i : Nat) : Bytes :=
  tornPayload data (if i = 2 then 0 else alignedLen (p := p) data)

/-- The header is written and what there is behind it has the checksum of the blob, though
it is not what the store held. -/
def Surfaces (s : FlashStore p) (data : Bytes) (i : Nat) : Prop :=
  data.length ≤ s.capacity ∧ 2 ≤ i ∧ crc32 (leftBehind p data i) = crc32 data ∧
    preferred s.saveTarget.1 s.saveTarget.2 s.current = true ∧
    s.stored ≠ some (leftBehind p data i)

theorem save_one (hfit : data.length ≤ s.capacity) :
    s.save (fun j => j = i) data =
      if i < (s.saveCalls data).length then
        (.error .flash, ⟨((s.saveCalls data).take i).foldl Call.run s.flash⟩)
      else (.ok (), ⟨(s.saveCalls data).foldl Call.run s.flash⟩) := by
  have hone := perform_one (s.saveCalls data) 0 i s.flash
  rw [Nat.zero_add] at hone
  unfold save make
  rw [if_neg (Nat.not_lt.mpr hfit), hone]
  split <;> rfl

theorem foldl_take_before (hi : i < (s.saveCalls data).length) (h2 : 2 ≤ i) :
    (⟨((s.saveCalls data).take i).foldl Call.run s.flash⟩ : FlashStore p) =
      s.programmed data (headerLen + if i = 2 then 0 else alignedLen (p := p) data) := by
  obtain ⟨k, rfl⟩ := Nat.exists_eq_add_of_le' h2
  have hwritten : ((s.chunks data).take (k + 1)).flatten.length =
      headerLen + if k + 2 = 2 then 0 else alignedLen (p := p) data := by
    have hlen : (data.take (alignedLen (p := p) data)).length = alignedLen (p := p) data :=
      List.length_take_of_le (alignedLen_le data)
    rw [saveCalls_eq, List.length_cons, length_writesFrom] at hi
    unfold chunks at hi ⊢
    match k with
    | 0 => rfl
    | 1 =>
      -- A third chunk is there, so the second is the whole words of the blob.
      by_cases ha : 0 < alignedLen (p := p) data
      · simp only [if_pos ha, List.cons_append, List.nil_append, List.take_succ_cons,
          List.take_zero, List.flatten_cons, List.flatten_nil, List.length_append,
          List.length_nil, length_headerBytes, hlen]
        rfl
      · simp only [if_neg ha] at hi
        split at hi
        · exact absurd hi (by simp)
        · exact absurd hi (by simp)
    | k + 2 =>
      exfalso
      revert hi
      split <;> split <;> simp
  rw [foldl_take_saveCalls, hwritten]

theorem stored_after_failure (hfit : data.length ≤ s.capacity)
    (hi : i < (s.saveCalls data).length) :
    stored (⟨((s.saveCalls data).take i).foldl Call.run s.flash⟩ : FlashStore p) = s.stored ↔
      ¬ s.Surfaces data i := by
  by_cases h2 : 2 ≤ i
  · have hleft : tornPayload data (if i = 2 then 0 else alignedLen (p := p) data) =
        leftBehind p data i := rfl
    rw [foldl_take_before hi h2, stored_programmed_payload _ hfit, hleft]
    constructor
    · rintro hsame ⟨_, _, hcrc, hpref, hthird⟩
      rw [if_pos ⟨hcrc, hpref⟩] at hsame
      exact hthird hsame.symm
    · intro hsafe
      by_cases hvalid : crc32 (leftBehind p data i) = crc32 data ∧
          preferred s.saveTarget.1 s.saveTarget.2 s.current = true
      · rw [if_pos hvalid]
        by_contra hthird
        exact hsafe ⟨hfit, h2, hvalid.1, hvalid.2, fun h => hthird h.symm⟩
      · rw [if_neg hvalid]
  · refine iff_of_true ?_ fun h => h2 h.2.1
    have hcases : i = 0 ∨ i = 1 := by omega
    rcases hcases with rfl | rfl
    · rfl
    · have hblank := foldl_take_saveCalls s data 0
      rw [Nat.zero_add] at hblank
      rw [hblank]
      exact stored_programmed_front (Nat.succ_pos 11) hfit

end Failing

section Mutate
variable {T R CE : Type} {x : Persisted T (FlashStore p) CE} {f : T → R × T} {i outLen : Nat}
  {e : PersistError FlashError CE}

theorem save_error {s : FlashStore p} {data : Bytes} {err : FlashError}
    (h : (s.save (fun j => j = i) data).1 = .error err) :
    ((s.save (fun j => j = i) data).2 = s ∧ s.capacity < data.length) ∨
      data.length ≤ s.capacity ∧ i < (s.saveCalls data).length ∧
        (s.save (fun j => j = i) data).2 =
          ⟨((s.saveCalls data).take i).foldl Call.run s.flash⟩ := by
  rcases Nat.lt_or_ge s.capacity data.length with hlarge | hfit
  · refine Or.inl ⟨?_, hlarge⟩
    unfold save
    rw [if_pos hlarge]
  · rw [save_one hfit] at h ⊢
    by_cases hi : i < (s.saveCalls data).length
    · rw [if_pos hi]
      exact Or.inr ⟨hfit, hi, rfl⟩
    · rw [if_neg hi] at h
      cases h

theorem stored_after_mutate (h : (x.mutate (durable fun j => j = i) f).2.1 = .error e) :
    (x.mutate (durable fun j => j = i) f).2.2.value = x.value ∧
      (x.mutate (durable fun j => j = i) f).2.2.codec = x.codec ∧
      ((x.mutate (durable fun j => j = i) f).2.2.store.stored = x.store.stored ↔
        ¬ ∃ data, x.codec.encode (f x.value).2 = .ok data ∧ x.store.Surfaces data i) := by
  unfold Persisted.mutate Persisted.persist at h ⊢
  cases hencode : x.codec.encode (f x.value).2 with
  | error err =>
    simp only [hencode] at h ⊢
    exact ⟨trivial, trivial, iff_of_true trivial (by rintro ⟨data, hdata, _⟩; cases hdata)⟩
  | ok data =>
    simp only [hencode] at h ⊢
    have hdurable : (durable (p := p) fun j => j = i).save x.store data =
        x.store.save (fun j => j = i) data := rfl
    have honly : (¬ ∃ data', Except.ok data = (Except.ok data' : Except CE Bytes) ∧
        x.store.Surfaces data' i) ↔ ¬ x.store.Surfaces data i := by
      apply not_congr
      constructor
      · rintro ⟨data', hdata', hsurfaces⟩
        cases hdata'
        exact hsurfaces
      · exact fun hsurfaces => ⟨data, rfl, hsurfaces⟩
    rw [hdurable] at h ⊢
    rw [honly]
    cases hsave : x.store.save (fun j => j = i) data with
    | mk outcome store =>
      cases outcome with
      | ok _ =>
        rw [hsave] at h
        cases h
      | error err =>
        have hfailed : (x.store.save (fun j => j = i) data).1 = .error err := by
          rw [hsave]
        refine ⟨rfl, rfl, ?_⟩
        dsimp only
        rcases save_error hfailed with ⟨hsame, hlarge⟩ | ⟨hfit, hi, hstore⟩
        · rw [hsave] at hsame
          obtain rfl : store = x.store := hsame
          exact iff_of_true rfl fun hsurfaces => absurd hsurfaces.1 (Nat.not_le.mpr hlarge)
        · rw [hsave] at hstore
          obtain rfl : store = _ := hstore
          exact stored_after_failure hfit hi

/-- A persist that failed at one call did not happen, exactly unless the header is written
and what there is behind it passes for a record: the value is taken back, `load` returns
what it returned before, and a restart starts from what it would have started from. -/
theorem mutate_failed (h : (x.mutate (durable fun j => j = i) f).2.1 = .error e)
    (hout : x.store.capacity ≤ outLen) :
    ((x.mutate (durable fun j => j = i) f).2.2.value = x.value ∧
        (x.mutate (durable fun j => j = i) f).2.2.store.load outLen = x.store.load outLen ∧
        ∀ default, (x.mutate (durable fun j => j = i) f).2.2.restart (durable fun j => j = i)
          default outLen = x.restart (durable fun j => j = i) default outLen) ↔
      ¬ ∃ data, x.codec.encode (f x.value).2 = .ok data ∧ x.store.Surfaces data i := by
  obtain ⟨hvalue, hcodec, hstored⟩ := stored_after_mutate h
  have hload : (x.mutate (durable fun j => j = i) f).2.2.store.load outLen = x.store.load outLen ↔
      (x.mutate (durable fun j => j = i) f).2.2.store.stored = x.store.stored := by
    have hout' : (x.mutate (durable fun j => j = i) f).2.2.store.capacity ≤ outLen := hout
    rw [load_of_le _ hout', load_of_le x.store hout, Except.ok.injEq]
  rw [← hstored, ← hload]
  constructor
  · exact fun hsame => hsame.2.1
  · intro hsame
    refine ⟨hvalue, hsame, ?_⟩
    intro default
    have hdurable : ∀ s : FlashStore p, (durable fun j => j = i).load s outLen = s.load outLen :=
      fun _ => rfl
    unfold Persisted.restart Persisted.load
    rw [hdurable, hdurable, hsame, hcodec]
    cases x.store.load outLen with
    | error err => rfl
    | ok found =>
      cases found with
      | none => rfl
      | some bytes =>
        dsimp only
        cases x.codec.decode bytes <;> rfl

/-! A value of bytes, saved as it is. -/

def plainCodec : Codec Bytes Unit := ⟨.ok, .ok⟩

def emptyStore : Persisted Bytes (FlashStore smallPlacement) Unit := ⟨[], ⟨fun _ => erased⟩, plainCodec⟩

theorem mutate_failed_at_payload :
    (emptyStore.mutate (durable fun j => j = 2) fun _ => ((), [1, 2, 3, 4])).2.2.store.load 48 =
      emptyStore.store.load 48 := by
  have hfailed : (emptyStore.mutate (durable fun j => j = 2) fun _ => ((), [1, 2, 3, 4])).2.1 =
      .error (.store .flash) := by
    rfl
  refine ((mutate_failed hfailed (by decide)).mpr ?_).2.1
  rintro ⟨data, hdata, _, _, hcrc, _⟩
  obtain rfl : [1, 2, 3, 4] = data := Except.ok.inj hdata
  exact absurd hcrc (by decide +kernel)

/-- Erased bytes are there before they are written: the write that fails changes nothing,
the value is taken back, and a restart finds it. -/
theorem erased_blob_surfaces :
    (emptyStore.mutate (durable fun j => j = 2) fun _ => ((), [0xFF, 0xFF])).2.1 =
        .error (.store .flash) ∧
      (emptyStore.mutate (durable fun j => j = 2) fun _ => ((), [0xFF, 0xFF])).2.2.value = [] ∧
      emptyStore.store.load 48 = .ok none ∧
      (emptyStore.mutate (durable fun j => j = 2) fun _ => ((), [0xFF, 0xFF])).2.2.store.load 48 =
        .ok (some [0xFF, 0xFF]) ∧
      (emptyStore.mutate (durable fun j => j = 2) fun _ => ((), [0xFF, 0xFF])).2.2.restart
        (durable fun j => j = 2) [] 48 = .ok [0xFF, 0xFF] := by
  refine ⟨rfl, rfl, ?_, ?_, ?_⟩
  · decide +kernel
  · decide +kernel
  · rfl

end Mutate

end FlashStore

end Wayfinder
