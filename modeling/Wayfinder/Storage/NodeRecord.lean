import Wayfinder.Auth.Revoke
import Wayfinder.Storage.Persisted

/-!
# The node record

What a board keeps across a reset is one blob: a version, a byte of flags, the seed, the
clock checkpoint, and behind them those of four blobs that the flags announce. Each has a
fixed size, so the flags and the length say the same thing twice, and a record is read only
where they agree.
-/

namespace Wayfinder

set_option autoImplicit false

/-- `N` zeroed bytes with a slice copied over their front. -/
def Octets.copied (n : Nat) (slice : Bytes) : Octets n :=
  ⟨(slice ++ List.replicate n 0).take n, by
    rw [List.length_take, List.length_append, List.length_replicate]
    omega⟩

@[simp] theorem Octets.copied_toList {n : Nat} (o : Octets n) (rest : Bytes) :
    Octets.copied n (o.toList ++ rest) = o := by
  apply Octets.eq_of_toList
  unfold Octets.copied
  dsimp only
  rw [List.append_assoc]
  exact List.take_left' o.length_eq

/-! ### The record -/

def seedLen : Nat := 32
def trustAnchorLen : Nat := 36

def recordVersion : U8 := 2

/-- The version of the blob that held an address and no key. -/
def legacyMacVersion : U8 := 1

def recordHeaderLen : Nat := 1 + 1 + seedLen + 8

def maxRecordLen : Nat :=
  recordHeaderLen + MembershipCert.size + trustAnchorLen + RevocationRecord.size + seedLen

def recordReadBufLen : Nat := maxRecordLen + 1

structure NodeRecord where
  seed : Octets seedLen
  checkpointUnix : BitVec 64
  cert : Option (Octets MembershipCert.size)
  trustAnchor : Option (Octets trustAnchorLen)
  selfRevocation : Option (Octets RevocationRecord.size)
  renewalProviderKey : Option (Octets seedLen)
  requireAuth : Option Bool
  lazyCertDistribution : Option Bool
  deriving DecidableEq

/-- A seed just minted and nothing else. -/
def NodeRecord.fresh (seed : Octets seedLen) : NodeRecord :=
  ⟨seed, 0, none, none, none, none, none, none⟩

/-! ### Its flags -/

/-- Which blobs follow the header, and which of the two settings have been written. -/
abbrev RecordFlags := U8

namespace RecordFlags

def hasCert : RecordFlags := 1
def hasAnchor : RecordFlags := 2
def hasRevoke : RecordFlags := 4
def requireAuthSet : RecordFlags := 8
def requireAuthOn : RecordFlags := 16
def lazySet : RecordFlags := 32
def lazyOn : RecordFlags := 64
def hasProvider : RecordFlags := 128

def contains (flags bit : RecordFlags) : Bool := flags &&& bit = bit

def set (flags bit : RecordFlags) (value : Bool) : RecordFlags :=
  if value then flags ||| bit else flags &&& ~~~bit

/-- A setting has one flag for having been written and one for its value. -/
def setPair (flags written on : RecordFlags) (value : Option Bool) : RecordFlags :=
  match value with
  | some value => (flags ||| written).set on value
  | none => flags

def getPair (flags written on : RecordFlags) : Option Bool :=
  if flags.contains written then some (flags.contains on) else none

def encode (cert anchor revoke provider : Bool) (requireAuth lazy : Option Bool) :
    RecordFlags :=
  let flags : RecordFlags := 0
  let flags := set flags hasCert cert
  let flags := set flags hasAnchor anchor
  let flags := set flags hasRevoke revoke
  let flags := set flags hasProvider provider
  let flags := setPair flags requireAuthSet requireAuthOn requireAuth
  setPair flags lazySet lazyOn lazy

/-- Every flag says what it was set to say. -/
theorem contains_encode (cert anchor revoke provider : Bool) (requireAuth lazy : Option Bool) :
    contains (encode cert anchor revoke provider requireAuth lazy) hasCert = cert ∧
      contains (encode cert anchor revoke provider requireAuth lazy) hasAnchor = anchor ∧
      contains (encode cert anchor revoke provider requireAuth lazy) hasRevoke = revoke ∧
      contains (encode cert anchor revoke provider requireAuth lazy) hasProvider = provider ∧
      getPair (encode cert anchor revoke provider requireAuth lazy) requireAuthSet
        requireAuthOn = requireAuth ∧
      getPair (encode cert anchor revoke provider requireAuth lazy) lazySet lazyOn = lazy := by
  cases requireAuth with
  | none =>
    cases lazy with
    | none => revert cert anchor revoke provider; decide
    | some lazy => revert cert anchor revoke provider lazy; decide
  | some requireAuth =>
    cases lazy with
    | none => revert cert anchor revoke provider requireAuth; decide
    | some lazy => revert cert anchor revoke provider requireAuth lazy; decide

end RecordFlags

/-! ### Its bytes -/

inductive RecordCodecError where
  | wrongLength (len expected : Nat)
  | unknownVersion (version : U8)
  | legacyMacBlob
  deriving DecidableEq

namespace RecordCodec

def flagsOf (r : NodeRecord) : RecordFlags :=
  RecordFlags.encode r.cert.isSome r.trustAnchor.isSome r.selfRevocation.isSome
    r.renewalProviderKey.isSome r.requireAuth r.lazyCertDistribution

/-- A blob that is there, or nothing. -/
def blobBytes {n : Nat} (blob : Option (Octets n)) : Bytes := (blob.map Octets.toList).getD []

def toBytes (r : NodeRecord) : Bytes :=
  [recordVersion, flagsOf r] ++ r.seed.toList ++ (Be64.ofNat r.checkpointUnix.toNat).toList ++
    blobBytes r.cert ++ blobBytes r.trustAnchor ++ blobBytes r.selfRevocation ++
      blobBytes r.renewalProviderKey

def encode (r : NodeRecord) : Except RecordCodecError Bytes := .ok (toBytes r)

def blobLen (flags bit : RecordFlags) (len : Nat) : Nat := if flags.contains bit then len else 0

def expectedLen (flags : RecordFlags) : Nat :=
  recordHeaderLen + blobLen flags .hasCert MembershipCert.size +
    blobLen flags .hasAnchor trustAnchorLen + blobLen flags .hasRevoke RevocationRecord.size +
      blobLen flags .hasProvider seedLen

/-- The blob at an offset, where the flag announces it. -/
def blobAt (bytes : Bytes) (flags bit : RecordFlags) (n at_ : Nat) : Option (Octets n) :=
  if flags.contains bit then some (Octets.copied n ((bytes.drop at_).take n)) else none

/-- A record whose length is the one its flags announce. -/
def parse (bytes : Bytes) (flags : RecordFlags) : NodeRecord :=
  let certAt := recordHeaderLen
  let anchorAt := certAt + blobLen flags .hasCert MembershipCert.size
  let revokeAt := anchorAt + blobLen flags .hasAnchor trustAnchorLen
  let providerAt := revokeAt + blobLen flags .hasRevoke RevocationRecord.size
  { seed := Octets.copied seedLen ((bytes.drop 2).take seedLen)
    checkpointUnix := BitVec.ofNat 64
      (Be64.get (Octets.copied 8 ((bytes.drop (2 + seedLen)).take 8)))
    cert := blobAt bytes flags .hasCert MembershipCert.size certAt
    trustAnchor := blobAt bytes flags .hasAnchor trustAnchorLen anchorAt
    selfRevocation := blobAt bytes flags .hasRevoke RevocationRecord.size revokeAt
    renewalProviderKey := blobAt bytes flags .hasProvider seedLen providerAt
    requireAuth := RecordFlags.getPair flags .requireAuthSet .requireAuthOn
    lazyCertDistribution := RecordFlags.getPair flags .lazySet .lazyOn }

def decode (bytes : Bytes) : Except RecordCodecError NodeRecord :=
  match bytes.head? with
  | none => .error (.wrongLength 0 recordHeaderLen)
  | some version =>
    if version = legacyMacVersion then .error .legacyMacBlob
    else if version ≠ recordVersion then .error (.unknownVersion version)
    else if bytes.length < recordHeaderLen then
      .error (.wrongLength bytes.length recordHeaderLen)
    else
      let flags := bytes.getD 1 0
      if bytes.length ≠ expectedLen flags then
        .error (.wrongLength bytes.length (expectedLen flags))
      else .ok (parse bytes flags)

section RoundTrip
variable {n : Nat} {flags bit : RecordFlags}

theorem length_blobBytes {blob : Option (Octets n)} (h : flags.contains bit = blob.isSome) :
    (blobBytes blob).length = blobLen flags bit n := by
  unfold blobLen
  rw [h]
  cases blob with
  | none => rfl
  | some o => exact o.length_eq

/-- A slice of the bytes is what was put there. -/
theorem copied_slice (o : Octets n) (front rest : Bytes) :
    Octets.copied n (((front ++ (o.toList ++ rest)).drop front.length).take n) = o := by
  rw [List.drop_left, List.take_left' o.length_eq, ← List.append_nil o.toList]
  exact Octets.copied_toList o []

theorem blobAt_append {blob : Option (Octets n)} (h : flags.contains bit = blob.isSome)
    {front : Bytes} {offset : Nat} (hfront : front.length = offset) (rest : Bytes) :
    blobAt (front ++ (blobBytes blob ++ rest)) flags bit n offset = blob := by
  unfold blobAt
  rw [h]
  cases blob with
  | none => rfl
  | some o =>
    rw [← hfront]
    exact congrArg some (copied_slice o front rest)

/-- The bytes in front of the blobs. -/
def headerBytes (r : NodeRecord) : Bytes :=
  [recordVersion, flagsOf r] ++ (r.seed.toList ++ (Be64.ofNat r.checkpointUnix.toNat).toList)

theorem length_headerBytes (r : NodeRecord) : (headerBytes r).length = recordHeaderLen := by
  unfold headerBytes
  rw [List.length_append, List.length_append, r.seed.length_eq, Octets.length_eq]
  rfl

theorem toBytes_eq (r : NodeRecord) : toBytes r =
    headerBytes r ++ (blobBytes r.cert ++ (blobBytes r.trustAnchor ++
      (blobBytes r.selfRevocation ++ (blobBytes r.renewalProviderKey ++ [])))) := by
  unfold toBytes headerBytes
  simp only [List.append_assoc, List.append_nil]

theorem length_toBytes (r : NodeRecord) : (toBytes r).length = expectedLen (flagsOf r) := by
  obtain ⟨hcert, hanchor, hrevoke, hprovider, _⟩ := RecordFlags.contains_encode r.cert.isSome
    r.trustAnchor.isSome r.selfRevocation.isSome r.renewalProviderKey.isSome r.requireAuth
    r.lazyCertDistribution
  unfold expectedLen flagsOf
  rw [← length_blobBytes hcert, ← length_blobBytes hanchor, ← length_blobBytes hrevoke,
    ← length_blobBytes hprovider, ← length_headerBytes r, toBytes_eq]
  simp only [List.length_append, List.length_nil]
  omega

theorem parse_toBytes (r : NodeRecord) : parse (toBytes r) (flagsOf r) = r := by
  obtain ⟨hcert, hanchor, hrevoke, hprovider, hrequire, hlazy⟩ :=
    RecordFlags.contains_encode r.cert.isSome r.trustAnchor.isSome r.selfRevocation.isSome
      r.renewalProviderKey.isSome r.requireAuth r.lazyCertDistribution
  have hseed : Octets.copied seedLen (((toBytes r).drop 2).take seedLen) = r.seed := by
    rw [toBytes_eq]
    unfold headerBytes
    rw [List.append_assoc, List.append_assoc]
    exact copied_slice r.seed [recordVersion, flagsOf r] _
  have hcheckpoint : Octets.copied 8 (((toBytes r).drop (2 + seedLen)).take 8) =
      Be64.ofNat r.checkpointUnix.toNat := by
    have hfront : 2 + seedLen = ([recordVersion, flagsOf r] ++ r.seed.toList).length := by
      rw [List.length_append, r.seed.length_eq]
      rfl
    rw [toBytes_eq, hfront]
    unfold headerBytes
    rw [← List.append_assoc [recordVersion, flagsOf r], List.append_assoc]
    exact copied_slice _ _ _
  have hheader := length_headerBytes r
  have hlenCert := length_blobBytes hcert
  have hlenAnchor := length_blobBytes hanchor
  have hlenRevoke := length_blobBytes hrevoke
  have hcertAt : blobAt (toBytes r) (flagsOf r) .hasCert MembershipCert.size recordHeaderLen =
      r.cert := by
    rw [toBytes_eq]
    exact blobAt_append hcert hheader _
  have hanchorAt : blobAt (toBytes r) (flagsOf r) .hasAnchor trustAnchorLen (recordHeaderLen +
      blobLen (flagsOf r) .hasCert MembershipCert.size) = r.trustAnchor := by
    rw [toBytes_eq, ← List.append_assoc]
    refine blobAt_append hanchor ?_ _
    rw [List.length_append, hheader, hlenCert]
    rfl
  have hrevokeAt : blobAt (toBytes r) (flagsOf r) .hasRevoke RevocationRecord.size
      (recordHeaderLen + blobLen (flagsOf r) .hasCert MembershipCert.size +
        blobLen (flagsOf r) .hasAnchor trustAnchorLen) = r.selfRevocation := by
    rw [toBytes_eq, ← List.append_assoc, ← List.append_assoc]
    refine blobAt_append hrevoke ?_ _
    rw [List.length_append, List.length_append, hheader, hlenCert, hlenAnchor]
    rfl
  have hproviderAt : blobAt (toBytes r) (flagsOf r) .hasProvider seedLen
      (recordHeaderLen + blobLen (flagsOf r) .hasCert MembershipCert.size +
        blobLen (flagsOf r) .hasAnchor trustAnchorLen +
          blobLen (flagsOf r) .hasRevoke RevocationRecord.size) = r.renewalProviderKey := by
    rw [toBytes_eq, ← List.append_assoc, ← List.append_assoc, ← List.append_assoc]
    refine blobAt_append hprovider ?_ _
    rw [List.length_append, List.length_append, List.length_append, hheader, hlenCert,
      hlenAnchor, hlenRevoke]
    rfl
  unfold parse
  dsimp only
  rw [hseed, hcheckpoint, hcertAt, hanchorAt, hrevokeAt, hproviderAt,
    Be64.get_ofNat r.checkpointUnix.isLt, BitVec.ofNat_toNat, BitVec.setWidth_eq]
  unfold flagsOf
  rw [hrequire, hlazy]

/-- A record is read back as it was written. -/
theorem decode_toBytes (r : NodeRecord) : decode (toBytes r) = .ok r := by
  have hhead : (toBytes r).head? = some recordVersion := rfl
  have hflags : (toBytes r).getD 1 0 = flagsOf r := rfl
  have hlength := length_toBytes r
  have hlong : ¬ (toBytes r).length < recordHeaderLen := by
    rw [hlength]
    unfold expectedLen
    omega
  have hversion : recordVersion ≠ legacyMacVersion := by decide
  unfold decode
  rw [hhead]
  dsimp only
  rw [if_neg hversion, if_neg (not_not_intro rfl), if_neg hlong, hflags,
    if_neg (not_not_intro hlength), parse_toBytes]

theorem toBytes_injective {r r' : NodeRecord} (h : toBytes r = toBytes r') : r = r' := by
  have hread := decode_toBytes r
  rw [h, decode_toBytes] at hread
  exact (Except.ok.inj hread).symm

theorem length_toBytes_le (r : NodeRecord) : (toBytes r).length ≤ maxRecordLen := by
  have hle : ∀ bit n, blobLen (flagsOf r) bit n ≤ n := by
    intro bit n
    unfold blobLen
    split
    · exact Nat.le_refl n
    · exact Nat.zero_le n
  have hcert := hle .hasCert MembershipCert.size
  have hanchor := hle .hasAnchor trustAnchorLen
  have hrevoke := hle .hasRevoke RevocationRecord.size
  have hprovider := hle .hasProvider seedLen
  rw [length_toBytes]
  unfold expectedLen maxRecordLen
  omega

end RoundTrip

end RecordCodec

def recordCodec : Codec NodeRecord RecordCodecError := ⟨RecordCodec.encode, RecordCodec.decode⟩

/-! ### Bringing one up -/

abbrev LoadedRecord (S : Type) := Persisted NodeRecord S RecordCodecError

/-- How a board came by its record. -/
inductive Provisioned where
  | loaded | minted | migratedFromV1
  deriving DecidableEq

inductive IdentityError (SE : Type) where
  | store (e : SE)
  | decode (e : RecordCodecError) (repaired : Bool)
  | encode (e : RecordCodecError)

section Provision
variable {S E : Type} (d : ErasableStore S E)

/-- A record just minted, saved in place of nothing or of a blob without a key. -/
def mintRecord (store : S) (seed : Octets seedLen) (how : Provisioned) :
    Except (IdentityError E) (LoadedRecord S × Provisioned) × S :=
  match recordCodec.encode (.fresh seed) with
  | .error e => (.error (.encode e), store)
  | .ok encoded =>
    match d.save store encoded with
    | (.error e, store) => (.error (.store e), store)
    | (.ok (), store) => (.ok (⟨.fresh seed, store, recordCodec⟩, how), store)

/-- What cannot be read is erased before anything is written, so that a later boot does
better; whether that went well is told to the caller. -/
def repairRecord (store : S) (seed : Octets seedLen) : Bool × S :=
  match d.erase store with
  | (.error _, store) => (false, store)
  | (.ok (), store) =>
    match recordCodec.encode (.fresh seed) with
    | .error _ => (true, store)
    | .ok encoded =>
      match d.save store encoded with
      | (.error _, store) => (false, store)
      | (.ok (), store) => (true, store)

def loadOrInitRecord (store : S) (mintSeed : Octets seedLen) (readBuf : Nat) :
    Except (IdentityError E) (LoadedRecord S × Provisioned) × S :=
  match d.load store readBuf with
  | .error e => (.error (.store e), store)
  | .ok none => mintRecord d store mintSeed .minted
  | .ok (some bytes) =>
    match recordCodec.decode bytes with
    | .ok record => (.ok (⟨record, store, recordCodec⟩, .loaded), store)
    | .error .legacyMacBlob => mintRecord d store mintSeed .migratedFromV1
    | .error e =>
      let (repaired, store) := repairRecord d store mintSeed
      (.error (.decode e repaired), store)

variable {d} {blob : S → Option Bytes}

/-- The medium holds the record in the bytes it is written in. -/
def Stores (blob : S → Option Bytes) (store : S) (record : NodeRecord) : Prop :=
  ∃ bytes, blob store = some bytes ∧ RecordCodec.decode bytes = .ok record

theorem stores_of_toBytes {store : S} {record : NodeRecord}
    (h : blob store = some (RecordCodec.toBytes record)) : Stores blob store record :=
  ⟨_, h, RecordCodec.decode_toBytes record⟩

theorem Stores.congr {store store' : S} {record : NodeRecord} (h : Stores blob store record)
    (hblob : blob store' = blob store) : Stores blob store' record := by
  obtain ⟨bytes, hbytes, hread⟩ := h
  exact ⟨bytes, hblob.trans hbytes, hread⟩

theorem mintRecord_stores (h : d.Lawful blob) {store : S} {seed : Octets seedLen}
    {how how' : Provisioned} {x : LoadedRecord S}
    (hok : (mintRecord d store seed how).1 = .ok (x, how')) :
    x.codec = recordCodec ∧ x.store = (mintRecord d store seed how).2 ∧
      Stores blob x.store x.value := by
  have hencode : recordCodec.encode (.fresh seed) = .ok (RecordCodec.toBytes (.fresh seed)) := rfl
  unfold mintRecord at hok ⊢
  rw [hencode] at hok ⊢
  dsimp only at hok ⊢
  cases hsave : d.save store (RecordCodec.toBytes (.fresh seed)) with
  | mk outcome store' =>
    rw [hsave] at hok
    cases outcome with
    | error e => cases hok
    | ok _ =>
      obtain ⟨rfl, _⟩ := Prod.mk.inj (Except.ok.inj hok)
      have hsaved := h.saved store (RecordCodec.toBytes (.fresh seed)) (by rw [hsave])
      rw [hsave] at hsaved
      exact ⟨rfl, rfl, stores_of_toBytes hsaved⟩

/-- A board that comes up holds the record its medium holds. -/
theorem loadOrInitRecord_stores (h : d.Lawful blob) {store : S} {seed : Octets seedLen}
    {readBuf : Nat} {how : Provisioned} {x : LoadedRecord S}
    (hok : (loadOrInitRecord d store seed readBuf).1 = .ok (x, how)) :
    x.codec = recordCodec ∧ x.store = (loadOrInitRecord d store seed readBuf).2 ∧
      Stores blob x.store x.value := by
  unfold loadOrInitRecord at hok ⊢
  cases hload : d.load store readBuf with
  | error e =>
    rw [hload] at hok
    cases hok
  | ok found =>
    rw [hload] at hok
    have hblob := h.loaded store readBuf found hload
    cases found with
    | none => exact mintRecord_stores h hok
    | some bytes =>
      dsimp only at hok ⊢
      cases hread : recordCodec.decode bytes with
      | ok record =>
        rw [hread] at hok
        obtain ⟨rfl, _⟩ := Prod.mk.inj (Except.ok.inj hok)
        exact ⟨rfl, rfl, bytes, hblob.symm, hread⟩
      | error e =>
        rw [hread] at hok
        cases e with
        | legacyMacBlob => exact mintRecord_stores h hok
        | wrongLength len expected => cases hok
        | unknownVersion version => cases hok

end Provision

end Wayfinder
