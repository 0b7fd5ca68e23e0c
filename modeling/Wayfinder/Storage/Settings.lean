import Wayfinder.Management
import Wayfinder.Storage.NodeRecord

/-!
# A board's settings

The management API reads and writes settings, the medium holds a record, and the two have
not the same shape: the record has the clock checkpoint and a seed of its own, and of the
renewal provider only its key. A board keeps both, and a call that fails moves neither.
-/

namespace Wayfinder

set_option autoImplicit false

open Fallible

/-- A codec error as the operator reads it. -/
def RecordCodecError.debug : RecordCodecError → String
  | .wrongLength len expected =>
    "WrongLength \x7b len: " ++ toString len ++ ", expected: " ++ toString expected ++ " \x7d"
  | .unknownVersion version => "UnknownVersion(" ++ toString version.toNat ++ ")"
  | .legacyMacBlob => "LegacyMacBlob"

/-- A record and the settings it presents. -/
structure RecordSettings (S : Type) where
  record : LoadedRecord S
  view : SettingsRecord

inductive SettingsOp where
  | persist (update : SettingsRecord)
  | checkpoint (unix : BitVec 64)

namespace RecordSettings

/-- The settings a record presents. A certificate without the anchor it chains to, or an
anchor without a certificate, is no identity. -/
def project (record : NodeRecord) : SettingsRecord where
  requireAuth := record.requireAuth
  lazyCertDistribution := record.lazyCertDistribution
  identity :=
    match record.cert, record.trustAnchor with
    | some cert, some trustAnchor =>
      some ⟨record.seed.toList, cert.toList, trustAnchor.toList,
        record.renewalProviderKey.map fun nodeKey => ⟨⟨"", nodeKey⟩, ""⟩⟩
    | _, _ => none
  selfRevocation := record.selfRevocation.map Octets.toList

/-- A blob of exactly `n` bytes, or a message that names the field. -/
def fixed (n : Nat) (bytes : Bytes) (field : String) : Except String (Octets n) :=
  match Octets.tryFrom bytes with
  | some blob => .ok blob
  | none => .error (field ++ " must be exactly " ++ toString n ++ " bytes, got " ++
      toString bytes.length)

/-- The credential of an identity, in place of the one the record has. -/
def applyIdentity (base : NodeRecord) (identity : NodeIdentity) : Except String NodeRecord := do
  let seed ← fixed seedLen identity.seed "seed"
  let cert ← fixed MembershipCert.size identity.cert "certificate"
  let trustAnchor ← fixed trustAnchorLen identity.trustAnchor "trust anchor"
  pure { base with
    seed := seed
    cert := some cert
    trustAnchor := some trustAnchor
    renewalProviderKey := identity.provider.map fun p => p.target.nodeKey }

/-- The record that settings describe. What they have no room for is the base's. -/
def apply (base : NodeRecord) (settings : SettingsRecord) : Except String NodeRecord := do
  let next := { base with
    requireAuth := settings.requireAuth
    lazyCertDistribution := settings.lazyCertDistribution }
  let next ← settings.identity.elim (.ok next) (applyIdentity next)
  let selfRevocation ← settings.selfRevocation.elim (.ok none) fun record =>
    (fixed RevocationRecord.size record "revocation").map some
  pure { next with selfRevocation := selfRevocation }

def describe {SE : Type} (debug : SE → String) :
    Except (PersistError SE RecordCodecError) Unit → Except String Unit
  | .ok () => .ok ()
  | .error (.encode e) => .error ("could not encode the node record: " ++ e.debug)
  | .error (.store e) => .error ("could not write the node record to flash: " ++ debug e)

section Calls
variable {S SE : Type} (d : ErasableStore S SE) (debug : SE → String)

def new (record : LoadedRecord S) : RecordSettings S := ⟨record, project record.value⟩

def settings (s : RecordSettings S) : SettingsRecord := s.view

def storedCheckpoint (s : RecordSettings S) : Option (BitVec 64) :=
  some s.record.value.checkpointUnix

def stamp (unix : BitVec 64) (record : NodeRecord) : Unit × NodeRecord :=
  ((), { record with checkpointUnix := unix })

/-- No secret is replaced, so nothing is scrubbed. -/
def checkpoint (s : RecordSettings S) (unix : BitVec 64) :
    Except String Unit × RecordSettings S :=
  let (_, outcome, record) := s.record.mutate d.toDurableStore (stamp unix)
  (describe debug outcome, { s with record := record })

/-- The write of a whole record: sealed when it replaces the seed. -/
def write (s : RecordSettings S) (next : NodeRecord) :
    Unit × Except (PersistError SE RecordCodecError) Unit × LoadedRecord S :=
  if next.seed ≠ s.record.value.seed then s.record.mutateSealed d fun _ => ((), next)
  else s.record.mutate d.toDurableStore fun _ => ((), next)

def persist (s : RecordSettings S) (update : SettingsRecord) :
    Except String Unit × RecordSettings S :=
  match apply s.record.value (s.view.merge update) with
  | .error e => (.error e, s)
  | .ok next =>
    let (_, outcome, record) := s.write d next
    match describe debug outcome with
    | .error e => (.error e, { s with record := record })
    | .ok () => (.ok (), ⟨record, project record.value⟩)

def call (s : RecordSettings S) : SettingsOp → Except String Unit × RecordSettings S
  | .persist update => s.persist d debug update
  | .checkpoint unix => s.checkpoint d debug unix

def step (s : RecordSettings S) (op : SettingsOp) : RecordSettings S := (s.call d debug op).2

end Calls

/-! ### What a persist asks for -/

section Apply
variable {base next : NodeRecord}

theorem length_of_fixed {n : Nat} {bytes : Bytes} {field : String} {blob : Octets n}
    (h : fixed n bytes field = .ok blob) : blob.toList = bytes ∧ bytes.length = n := by
  unfold fixed at h
  cases hread : Octets.tryFrom (n := n) bytes with
  | none =>
    rw [hread] at h
    cases h
  | some read =>
    rw [hread] at h
    obtain rfl := Except.ok.inj h
    have hbytes := Octets.toList_of_tryFrom hread
    refine ⟨hbytes, ?_⟩
    rw [← hbytes]
    exact read.length_eq

/-- An identity all of whose blobs have the right length. -/
def Complete (identity : NodeIdentity) : Prop :=
  identity.seed.length = seedLen ∧ identity.cert.length = MembershipCert.size ∧
    identity.trustAnchor.length = trustAnchorLen

theorem applyIdentity_ok {identity : NodeIdentity} (h : applyIdentity base identity = .ok next) :
    Complete identity ∧ next.seed.toList = identity.seed ∧
      next.checkpointUnix = base.checkpointUnix := by
  unfold applyIdentity at h
  obtain ⟨seed, hseed, h⟩ := exists_of_bind_ok h
  obtain ⟨cert, hcert, h⟩ := exists_of_bind_ok h
  obtain ⟨trustAnchor, hanchor, h⟩ := exists_of_bind_ok h
  obtain rfl := Except.ok.inj h
  obtain ⟨hbytes, hlen⟩ := length_of_fixed hseed
  exact ⟨⟨hlen, (length_of_fixed hcert).2, (length_of_fixed hanchor).2⟩, hbytes, rfl⟩

theorem apply_ok {settings : SettingsRecord} (h : apply base settings = .ok next) :
    next.checkpointUnix = base.checkpointUnix ∧
      ((settings.identity = none ∧ next.seed = base.seed) ∨
        ∃ identity, settings.identity = some identity ∧ Complete identity ∧
          next.seed.toList = identity.seed) := by
  unfold apply at h
  obtain ⟨credentialed, hcredential, h⟩ := exists_of_bind_ok h
  obtain ⟨selfRevocation, _, h⟩ := exists_of_bind_ok h
  obtain rfl := Except.ok.inj h
  cases hidentity : settings.identity with
  | none =>
    rw [hidentity] at hcredential
    obtain rfl := Except.ok.inj hcredential
    exact ⟨rfl, Or.inl ⟨rfl, rfl⟩⟩
  | some identity =>
    rw [hidentity] at hcredential
    obtain ⟨hcomplete, hseed, hcheckpoint⟩ := applyIdentity_ok hcredential
    exact ⟨hcheckpoint, Or.inr ⟨identity, rfl, hcomplete, hseed⟩⟩

/-- The identity a record presents is under the record's own seed. -/
theorem project_seed {record : NodeRecord} {identity : NodeIdentity}
    (h : (project record).identity = some identity) : identity.seed = record.seed.toList := by
  unfold project at h
  dsimp only at h
  split at h
  · obtain rfl := Option.some.inj h
    rfl
  · cases h

theorem fixed_toList {n : Nat} (blob : Octets n) (field : String) :
    fixed n blob.toList field = .ok blob := by
  unfold fixed
  rw [Octets.tryFrom_toList]

/-- The identity a record presents asks for that record. -/
theorem applyIdentity_project {identity : NodeIdentity}
    (h : (project base).identity = some identity) : applyIdentity base identity = .ok base := by
  obtain ⟨seed, checkpointUnix, cert, trustAnchor, selfRevocation, providerKey, requireAuth, lazy⟩ :=
    base
  unfold project at h
  dsimp only at h
  split at h
  · rename_i cert trustAnchor _ _
    obtain rfl := Option.some.inj h
    unfold applyIdentity
    rw [fixed_toList, fixed_toList, fixed_toList]
    cases providerKey <;> rfl
  · cases h

theorem revocation_applied {record : Option Bytes} {selfRevocation : Option (Octets _)}
    (h : (record.elim (.ok none) fun record =>
      (fixed RevocationRecord.size record "revocation").map some) = .ok selfRevocation) :
    selfRevocation.map Octets.toList = record := by
  cases record with
  | none =>
    obtain rfl := Except.ok.inj h
    rfl
  | some record =>
    replace h : (fixed RevocationRecord.size record "revocation").map some = _ := h
    cases hblob : fixed RevocationRecord.size record "revocation" with
    | error e =>
      rw [hblob] at h
      cases h
    | ok blob =>
      rw [hblob] at h
      obtain rfl := Except.ok.inj h
      exact congrArg some (length_of_fixed hblob).1

/-- An update without an identity is presented as it was merged. -/
theorem project_apply {update : SettingsRecord} (hkeeps : update.identity = none)
    (h : apply base ((project base).merge update) = .ok next) :
    project next = (project base).merge update := by
  unfold apply at h
  obtain ⟨credentialed, hcredential, h⟩ := exists_of_bind_ok h
  obtain ⟨selfRevocation, hrevocation, h⟩ := exists_of_bind_ok h
  obtain rfl := Except.ok.inj h
  have hidentity : ((project base).merge update).identity = (project base).identity := by
    unfold SettingsRecord.merge
    dsimp only
    rw [hkeeps, Option.none_or]
  have hflags : credentialed = { base with
      requireAuth := ((project base).merge update).requireAuth
      lazyCertDistribution := ((project base).merge update).lazyCertDistribution } := by
    rw [hidentity] at hcredential
    cases hpresented : (project base).identity with
    | none =>
      rw [hpresented] at hcredential
      exact (Except.ok.inj hcredential).symm
    | some identity =>
      rw [hpresented] at hcredential
      exact Except.ok.inj (hcredential.symm.trans (applyIdentity_project hpresented))
  have hrevoked : selfRevocation.map Octets.toList =
      ((project base).merge update).selfRevocation := revocation_applied hrevocation
  rw [hflags]
  show SettingsRecord.mk ⟨(project base).identity, selfRevocation.map Octets.toList⟩ _ _ = _
  rw [hrevoked, ← hidentity]

/-- The seed is replaced only by an update that names one, beside a certificate and an
anchor, all of the right length. -/
theorem seed_of_apply {update : SettingsRecord}
    (h : apply base ((project base).merge update) = .ok next) :
    next.checkpointUnix = base.checkpointUnix ∧
      (next.seed ≠ base.seed → ∃ identity, update.identity = some identity ∧
        Complete identity ∧ next.seed.toList = identity.seed) := by
  obtain ⟨hcheckpoint, hseed⟩ := apply_ok h
  refine ⟨hcheckpoint, ?_⟩
  intro hrotates
  rcases hseed with ⟨_, hsame⟩ | ⟨identity, hidentity, hcomplete, hnew⟩
  · exact absurd hsame hrotates
  · have hmerged : update.identity.or (project base).identity = some identity := hidentity
    cases hupdate : update.identity with
    | some given =>
      rw [hupdate] at hmerged
      obtain rfl := Option.some.inj hmerged
      exact ⟨given, rfl, hcomplete, hnew⟩
    | none =>
      -- The identity merged in is the one the record presented.
      rw [hupdate] at hmerged
      refine absurd ?_ hrotates
      apply Octets.eq_of_toList
      rw [hnew]
      exact project_seed hmerged

end Apply

/-! ### What a write leaves -/

section Writes
variable {S SE : Type} {d : ErasableStore S SE} {blob : S → Option Bytes}

theorem mutate_saved (h : d.Lawful blob) {x : LoadedRecord S} {f : NodeRecord → Unit × NodeRecord}
    (hcodec : x.codec = recordCodec) (hok : (x.mutate d.toDurableStore f).2.1 = .ok ()) :
    (x.mutate d.toDurableStore f).2.2.codec = recordCodec ∧
      (x.mutate d.toDurableStore f).2.2.value = (f x.value).2 ∧
      Stores blob (x.mutate d.toDurableStore f).2.2.store (f x.value).2 := by
  have hencode : x.codec.encode (f x.value).2 = .ok (RecordCodec.toBytes (f x.value).2) := by
    rw [hcodec]
    rfl
  unfold Persisted.mutate Persisted.persist at hok ⊢
  dsimp only at hok ⊢
  rw [hencode] at hok ⊢
  dsimp only at hok ⊢
  cases hsave : d.save x.store (RecordCodec.toBytes (f x.value).2) with
  | mk outcome store =>
    rw [hsave] at hok
    cases outcome with
    | error e => cases hok
    | ok _ =>
      have hsaved := h.saved x.store (RecordCodec.toBytes (f x.value).2) (by rw [hsave])
      rw [hsave] at hsaved
      exact ⟨hcodec, rfl, stores_of_toBytes hsaved⟩

theorem mutate_refused (h : d.Lawful blob) {x : LoadedRecord S}
    {f : NodeRecord → Unit × NodeRecord} {e : PersistError SE RecordCodecError}
    (herr : (x.mutate d.toDurableStore f).2.1 = .error e) :
    (x.mutate d.toDurableStore f).2.2.codec = x.codec ∧
      (x.mutate d.toDurableStore f).2.2.value = x.value ∧
      blob (x.mutate d.toDurableStore f).2.2.store = blob x.store := by
  unfold Persisted.mutate Persisted.persist at herr ⊢
  dsimp only at herr ⊢
  cases hencode : x.codec.encode (f x.value).2 with
  | error err => exact ⟨rfl, rfl, rfl⟩
  | ok encoded =>
    rw [hencode] at herr
    dsimp only at herr ⊢
    cases hsave : d.save x.store encoded with
    | mk outcome store =>
      rw [hsave] at herr
      cases outcome with
      | ok _ => cases herr
      | error err =>
        have hunsaved := h.unsaved x.store encoded err (by rw [hsave])
        rw [hsave] at hunsaved
        exact ⟨rfl, rfl, hunsaved⟩

/-- A sealed write differs from another in what it scrubs. -/
theorem mutateSealed_eq {x : LoadedRecord S} {f : NodeRecord → Unit × NodeRecord} :
    (x.mutateSealed d f).2.1 = (x.mutate d.toDurableStore f).2.1 ∧
      (x.mutateSealed d f).2.2.codec = (x.mutate d.toDurableStore f).2.2.codec ∧
      (x.mutateSealed d f).2.2.value = (x.mutate d.toDurableStore f).2.2.value ∧
      (x.mutateSealed d f).2.2.store =
        match (x.mutate d.toDurableStore f).2.1 with
        | .ok () => (d.scrub (x.mutate d.toDurableStore f).2.2.store).2
        | .error _ => (x.mutate d.toDurableStore f).2.2.store := by
  unfold Persisted.mutateSealed
  obtain ⟨result, outcome, y⟩ := x.mutate d.toDurableStore f
  cases outcome with
  | ok _ => exact ⟨rfl, rfl, rfl, rfl⟩
  | error e => exact ⟨rfl, rfl, rfl, rfl⟩

end Writes

section Agreement
variable {S SE : Type} {d : ErasableStore S SE} {debug : SE → String} {blob : S → Option Bytes}
  {s : RecordSettings S}

theorem write_saved (h : d.Lawful blob) (hcodec : s.record.codec = recordCodec)
    {next : NodeRecord} (hok : (s.write d next).2.1 = .ok ()) :
    (s.write d next).2.2.codec = recordCodec ∧ (s.write d next).2.2.value = next ∧
      Stores blob (s.write d next).2.2.store next := by
  unfold write at hok ⊢
  split at hok
  · rename_i hrotates
    rw [if_pos hrotates]
    obtain ⟨houtcome, hcodec', hvalue, hstore⟩ :=
      mutateSealed_eq (d := d) (x := s.record) (f := fun _ => ((), next))
    rw [houtcome] at hok
    obtain ⟨hcodec'', hvalue', hstored⟩ := mutate_saved h hcodec hok
    rw [hcodec', hvalue, hstore, hok]
    exact ⟨hcodec'', hvalue', hstored.congr (h.scrubbed _)⟩
  · rename_i hkeeps
    rw [if_neg hkeeps]
    exact mutate_saved h hcodec hok

theorem write_refused (h : d.Lawful blob) {next : NodeRecord}
    {e : PersistError SE RecordCodecError} (herr : (s.write d next).2.1 = .error e) :
    (s.write d next).2.2.codec = s.record.codec ∧ (s.write d next).2.2.value = s.record.value ∧
      blob (s.write d next).2.2.store = blob s.record.store := by
  unfold write at herr ⊢
  split at herr
  · rename_i hrotates
    rw [if_pos hrotates]
    obtain ⟨houtcome, hcodec, hvalue, hstore⟩ :=
      mutateSealed_eq (d := d) (x := s.record) (f := fun _ => ((), next))
    rw [houtcome] at herr
    rw [hcodec, hvalue, hstore, herr]
    exact mutate_refused h herr
  · rename_i hkeeps
    rw [if_neg hkeeps]
    exact mutate_refused h herr

/-- The view is the record's, and the record is what the medium holds. -/
structure Agrees (blob : S → Option Bytes) (s : RecordSettings S) : Prop where
  codec : s.record.codec = recordCodec
  view : s.settings = project s.record.value
  stored : Stores blob s.record.store s.record.value

theorem agrees_new (h : d.Lawful blob) {store : S} {seed : Octets seedLen} {readBuf : Nat}
    {how : Provisioned} {x : LoadedRecord S}
    (hboot : (loadOrInitRecord d store seed readBuf).1 = .ok (x, how)) : Agrees blob (new x) := by
  obtain ⟨hcodec, _, hstored⟩ := loadOrInitRecord_stores h hboot
  exact ⟨hcodec, rfl, hstored⟩

/-- What a call that succeeded leaves: nothing of the clock by a persist, and another seed
only by one that brings an identity. -/
structure Recorded (s : RecordSettings S) (op : SettingsOp) (s' : RecordSettings S) : Prop where
  seed : s'.record.value.seed ≠ s.record.value.seed → ∃ update identity, op = .persist update ∧
    update.identity = some identity ∧ Complete identity ∧
      s'.record.value.seed.toList = identity.seed
  checkpoint : ∀ update, op = .persist update →
    s'.record.value.checkpointUnix = s.record.value.checkpointUnix

/-- What a call that failed leaves: all as it was. -/
structure Untouched (blob : S → Option Bytes) (s s' : RecordSettings S) : Prop where
  record : s'.record.value = s.record.value
  settings : s'.settings = s.settings
  codec : s'.record.codec = s.record.codec
  medium : blob s'.record.store = blob s.record.store

theorem Untouched.agrees {s' : RecordSettings S} (h : Untouched blob s s')
    (hs : Agrees blob s) : Agrees blob s' := by
  refine ⟨h.codec.trans hs.codec, ?_, ?_⟩
  · rw [h.settings, h.record]
    exact hs.view
  · rw [h.record]
    exact hs.stored.congr h.medium

theorem describe_ok {outcome : Except (PersistError SE RecordCodecError) Unit}
    (h : describe debug outcome = .ok ()) : outcome = .ok () := by
  cases outcome with
  | ok _ => rfl
  | error e => cases e <;> cases h

theorem describe_error {outcome : Except (PersistError SE RecordCodecError) Unit} {e : String}
    (h : describe debug outcome = .error e) : ∃ err, outcome = .error err := by
  cases outcome with
  | ok _ => cases h
  | error err => exact ⟨err, rfl⟩

theorem checkpoint_eq (unix : BitVec 64) : s.checkpoint d debug unix =
    (describe debug (s.record.mutate d.toDurableStore (stamp unix)).2.1,
      { s with record := (s.record.mutate d.toDurableStore (stamp unix)).2.2 }) := rfl

theorem checkpoint_ok (h : d.Lawful blob) (hs : Agrees blob s) {unix : BitVec 64}
    (hok : (s.checkpoint d debug unix).1 = .ok ()) :
    Agrees blob (s.checkpoint d debug unix).2 ∧
      (s.checkpoint d debug unix).2.record.value = (stamp unix s.record.value).2 := by
  rw [checkpoint_eq] at hok ⊢
  obtain ⟨hcodec, hvalue, hstored⟩ := mutate_saved h hs.codec (describe_ok hok)
  refine ⟨⟨hcodec, ?_, ?_⟩, hvalue⟩
  · -- The view has no field for the clock.
    dsimp only
    rw [hvalue]
    exact hs.view
  · dsimp only
    rw [hvalue]
    exact hstored

theorem checkpoint_error (h : d.Lawful blob) {unix : BitVec 64} {e : String}
    (herr : (s.checkpoint d debug unix).1 = .error e) :
    Untouched blob s (s.checkpoint d debug unix).2 := by
  rw [checkpoint_eq] at herr ⊢
  obtain ⟨err, hfailed⟩ := describe_error herr
  obtain ⟨hcodec, hvalue, hblob⟩ := mutate_refused h hfailed
  exact ⟨hvalue, rfl, hcodec, hblob⟩

/-- A persist is refused as it stands, refused by the medium, or written whole. -/
theorem persist_cases (d : ErasableStore S SE) (debug : SE → String) (s : RecordSettings S)
    (update : SettingsRecord) :
    (∃ e, apply s.record.value (s.view.merge update) = .error e ∧
        s.persist d debug update = (.error e, s)) ∨
      ∃ next, apply s.record.value (s.view.merge update) = .ok next ∧
        ((∃ err e, (s.write d next).2.1 = .error err ∧
          s.persist d debug update = (.error e, { s with record := (s.write d next).2.2 })) ∨
        ((s.write d next).2.1 = .ok () ∧ s.persist d debug update =
          (.ok (), ⟨(s.write d next).2.2, project (s.write d next).2.2.value⟩))) := by
  unfold persist
  cases hnext : apply s.record.value (s.view.merge update) with
  | error e => exact Or.inl ⟨e, rfl, rfl⟩
  | ok next =>
    refine Or.inr ⟨next, rfl, ?_⟩
    dsimp only
    cases houtcome : describe debug (s.write d next).2.1 with
    | error e =>
      obtain ⟨err, hfailed⟩ := describe_error houtcome
      exact Or.inl ⟨err, e, hfailed, rfl⟩
    | ok _ => exact Or.inr ⟨describe_ok houtcome, rfl⟩

/-- The record a persist writes, and what the write leaves. -/
theorem persist_saved (h : d.Lawful blob) (hs : Agrees blob s) {update : SettingsRecord}
    (hok : (s.persist d debug update).1 = .ok ()) :
    ∃ next, apply s.record.value ((project s.record.value).merge update) = .ok next ∧
      s.persist d debug update =
        (.ok (), ⟨(s.write d next).2.2, project (s.write d next).2.2.value⟩) ∧
      (s.write d next).2.2.codec = recordCodec ∧ (s.write d next).2.2.value = next ∧
      Stores blob (s.write d next).2.2.store next := by
  obtain ⟨e, _, hpersist⟩ | ⟨next, hnext, ⟨_, e, _, hpersist⟩ | ⟨hwritten, hpersist⟩⟩ :=
    persist_cases d debug s update
  · rw [hpersist] at hok
    cases hok
  · rw [hpersist] at hok
    cases hok
  · have hview : s.view = project s.record.value := hs.view
    rw [hview] at hnext
    exact ⟨next, hnext, hpersist, write_saved h hs.codec hwritten⟩

theorem persist_ok (h : d.Lawful blob) (hs : Agrees blob s) {update : SettingsRecord}
    (hok : (s.persist d debug update).1 = .ok ()) :
    Agrees blob (s.persist d debug update).2 ∧
      Recorded s (.persist update) (s.persist d debug update).2 := by
  obtain ⟨next, hnext, hpersist, hcodec, hvalue, hstored⟩ := persist_saved h hs hok
  rw [hpersist]
  obtain ⟨hcheckpoint, hseed⟩ := seed_of_apply hnext
  refine ⟨⟨hcodec, rfl, ?_⟩, ?_, ?_⟩
  · dsimp only
    rw [hvalue]
    exact hstored
  · dsimp only
    rw [hvalue]
    intro hrotates
    obtain ⟨identity, hidentity, hcomplete, hbytes⟩ := hseed hrotates
    exact ⟨update, identity, rfl, hidentity, hcomplete, hbytes⟩
  · dsimp only
    rw [hvalue]
    exact fun _ _ => hcheckpoint

theorem persist_recorded (h : d.Lawful blob) (hs : Agrees blob s) {update : SettingsRecord}
    (hkeeps : update.identity = none) (hok : (s.persist d debug update).1 = .ok ()) :
    (s.persist d debug update).2.settings = s.settings.merge update := by
  obtain ⟨next, hnext, hpersist, -, hvalue, -⟩ := persist_saved h hs hok
  have hview : s.settings = project s.record.value := hs.view
  rw [hpersist, hview]
  show project (s.write d next).2.2.value = _
  rw [hvalue]
  exact project_apply hkeeps hnext

theorem persist_error (h : d.Lawful blob) {update : SettingsRecord} {e : String}
    (herr : (s.persist d debug update).1 = .error e) :
    Untouched blob s (s.persist d debug update).2 := by
  obtain ⟨_, _, hpersist⟩ | ⟨next, _, ⟨err, _, hfailed, hpersist⟩ | ⟨_, hpersist⟩⟩ :=
    persist_cases d debug s update
  · rw [hpersist]
    exact ⟨rfl, rfl, rfl, rfl⟩
  · obtain ⟨hcodec, hvalue, hblob⟩ := write_refused h hfailed
    rw [hpersist]
    exact ⟨hvalue, rfl, hcodec, hblob⟩
  · rw [hpersist] at herr
    cases herr

theorem call_ok (h : d.Lawful blob) (hs : Agrees blob s) {op : SettingsOp}
    (hok : (s.call d debug op).1 = .ok ()) :
    Agrees blob (s.step d debug op) ∧ Recorded s op (s.step d debug op) := by
  cases op with
  | persist update => exact persist_ok h hs hok
  | checkpoint unix =>
    obtain ⟨hagrees, hvalue⟩ := checkpoint_ok h hs hok
    refine ⟨hagrees, ?_, fun update hop => by cases hop⟩
    intro hrotates
    refine absurd ?_ hrotates
    have hstep : (s.step d debug (.checkpoint unix)).record.value =
        (stamp unix s.record.value).2 := hvalue
    rw [hstep]
    rfl

theorem call_error (h : d.Lawful blob) {op : SettingsOp} {e : String}
    (herr : (s.call d debug op).1 = .error e) : Untouched blob s (s.step d debug op) := by
  cases op with
  | persist update => exact persist_error h herr
  | checkpoint unix => exact checkpoint_error h herr

theorem step_agrees (h : d.Lawful blob) (hs : Agrees blob s) (op : SettingsOp) :
    Agrees blob (s.step d debug op) := by
  cases houtcome : (s.call d debug op).1 with
  | error e => exact (call_error h houtcome).agrees hs
  | ok _ => exact (call_ok h hs houtcome).1

/-- What the management writes are handed: a board's settings, in step with its record. -/
def recordStore (debug : SE → String) (h : d.Lawful blob) :
    SettingsStore {s : RecordSettings S // Agrees blob s} where
  settings s := s.1.settings
  persist s update := ((s.1.persist d debug update).1,
    ⟨(s.1.persist d debug update).2, step_agrees h s.2 (.persist update)⟩)
  refused _ _ _ herr := (persist_error h herr).settings
  recorded s _ hkeeps hok := persist_recorded h s.2 hkeeps hok

theorem run_agrees (debug : SE → String) (h : d.Lawful blob) (hs : Agrees blob s)
    (ops : List SettingsOp) :
    Agrees blob (Run.run (step d debug) s ops) :=
  Run.invariant hs fun _ op hs => step_agrees h hs op

/-- A board that came up and was called any number of times presents the settings of its
record, and its medium holds that record. The next call, whatever it is, either changes
nothing or, of the seed and the clock, only what it may. -/
theorem settings_agree (h : d.Lawful blob) {store : S} {seed : Octets seedLen} {readBuf : Nat}
    {how : Provisioned} {x : LoadedRecord S}
    (hboot : (loadOrInitRecord d store seed readBuf).1 = .ok (x, how)) (ops : List SettingsOp) :
    ∀ s, s = Run.run (step d debug) (new x) ops →
      s.settings = project s.record.value ∧ Stores blob s.record.store s.record.value ∧
      ∀ op, (∀ e, (s.call d debug op).1 = .error e → Untouched blob s (s.step d debug op)) ∧
        Recorded s op (s.step d debug op) := by
  rintro s rfl
  have hagrees := run_agrees debug h (agrees_new h hboot) ops
  refine ⟨hagrees.view, hagrees.stored, ?_⟩
  intro op
  refine ⟨fun e herr => call_error h herr, ?_⟩
  cases houtcome : (call d debug (Run.run (step d debug) (new x) ops) op).1 with
  | ok _ => exact (call_ok h hagrees houtcome).2
  | error e =>
    have hsame := call_error h houtcome
    refine ⟨fun hrotates => absurd ?_ hrotates, fun _ _ => ?_⟩
    · rw [hsame.record]
    · rw [hsame.record]

end Agreement

/-! A medium in memory, some of its saves failing. -/

def faultyMemory : ErasableStore (Option Bytes × List Bool) Unit where
  load s outLen :=
    match s.1 with
    | some blob => if outLen < blob.length then .error () else .ok (some blob)
    | none => .ok none
  save s data :=
    match s.2 with
    | true :: rest => (.error (), s.1, rest)
    | _ => (.ok (), some data, s.2.tail)
  scrub s := (.ok (), s)
  erase s := (.ok (), none, s.2)

theorem faultyMemory_lawful : faultyMemory.Lawful Prod.fst where
  loaded := by
    intro s n found h
    unfold faultyMemory at h
    dsimp only at h
    split at h
    · rename_i blob hblob
      split at h
      · cases h
      · obtain rfl := Except.ok.inj h
        exact hblob.symm
    · rename_i hblob
      obtain rfl := Except.ok.inj h
      exact hblob.symm
  saved := by
    intro s data h
    unfold faultyMemory at h ⊢
    dsimp only at h ⊢
    split at h
    · cases h
    · rfl
  unsaved := by
    intro s data err h
    unfold faultyMemory at h ⊢
    dsimp only at h ⊢
    split at h
    · rfl
    · cases h
  scrubbed := fun _ => rfl
  erased := fun _ _ => rfl
  unerased := by
    intro s err h
    cases h

def firstSeed : Octets seedLen := .copied seedLen [1]
def secondSeed : Octets seedLen := .copied seedLen [2]

/-- An identity of the right lengths, by a provider whose key alone is kept. -/
def secondIdentity : NodeIdentity :=
  ⟨secondSeed.toList, (Octets.zero MembershipCert.size).toList, (Octets.zero trustAnchorLen).toList,
    some ⟨⟨"10.0.0.1:7", .zero seedLen⟩, "token"⟩⟩

/-- A truncated seed is refused, a checkpoint fails, and the identity is written. -/
def enrolled : RecordSettings (Option Bytes × List Bool) :=
  Run.run (step faultyMemory fun _ => "")
    (new ⟨.fresh firstSeed, (some (RecordCodec.toBytes (.fresh firstSeed)), [true]), recordCodec⟩)
    [.persist ⟨⟨some { secondIdentity with seed := [2] }, none⟩, none, none⟩, .checkpoint 7,
      .persist ⟨⟨some secondIdentity, none⟩, some true, none⟩]

theorem settings_agree_enrolled : enrolled.settings = project enrolled.record.value ∧
    Stores Prod.fst enrolled.record.store enrolled.record.value := by
  have hboot : (loadOrInitRecord faultyMemory (none, [false, true]) firstSeed
      recordReadBufLen).1 = .ok (⟨.fresh firstSeed, (some (RecordCodec.toBytes (.fresh firstSeed)),
        [true]), recordCodec⟩, .minted) := rfl
  obtain ⟨hview, hstored, _⟩ := settings_agree faultyMemory_lawful hboot _ enrolled rfl
  exact ⟨hview, hstored⟩

/-- The identity of the run above was taken up. -/
example : enrolled.record.value.seed = secondSeed ∧ enrolled.record.value.checkpointUnix = 0 := by
  decide +kernel

end RecordSettings

/-! ### The store a driver is handed -/

/-- What a board has of a store: its record, or, when none could be brought up, nothing but
the medium, and a store that refuses every write. -/
inductive NodeStore (S : Type) where
  | record (s : RecordSettings S)
  | null (medium : S)

namespace NodeStore

variable {S SE : Type}

def medium : NodeStore S → S
  | .record s => s.record.store
  | .null medium => medium

def storedCheckpoint : NodeStore S → Option (BitVec 64)
  | .record s => s.storedCheckpoint
  | .null _ => none

def refusal : SettingsOp → String
  | .persist _ =>
    "this node has no usable durable store, so nothing set over the management API " ++
      "would survive a reset; it is refused rather than accepted and lost"
  | .checkpoint _ => "this node has no durable store"

def call (d : ErasableStore S SE) (debug : SE → String) (n : NodeStore S) (op : SettingsOp) :
    Except String Unit × NodeStore S :=
  match n with
  | .record s =>
    let (outcome, s) := s.call d debug op
    (outcome, .record s)
  | .null medium => (.error (refusal op), .null medium)

/-- A reset: the record is loaded, or minted, or there is none this time. -/
def resolve (d : ErasableStore S SE) (medium : S) (mintSeed : Octets seedLen) : NodeStore S :=
  match loadOrInitRecord d medium mintSeed recordReadBufLen with
  | (.ok (loaded, _), _) => .record (.new loaded)
  | (.error _, medium) => .null medium

end NodeStore

end Wayfinder
