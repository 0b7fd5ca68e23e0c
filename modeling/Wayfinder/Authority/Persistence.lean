import Wayfinder.Authority.Issue
import Wayfinder.Lib.Content
import Wayfinder.Lib.Run

/-!
# The authority's database

The log lives in memory and is written through to a store of rows, each one record's
serialised form. A call changes the log, encodes the collections it touched anew, and
commits the difference from what its index says the store holds. Only when the store has
answered does the index change, and where it has not the log goes back to what it was.
-/

namespace Wayfinder

set_option autoImplicit false

open Content

/-! ### Rows and change sets -/

inductive Collection where
  | issued | held | policy | users | invites | revocations
  deriving DecidableEq, Repr

def Collection.all : List Collection := [.issued, .held, .policy, .users, .invites, .revocations]

def Collection.asStr : Collection → String
  | .issued => "issued"
  | .held => "held"
  | .policy => "policy"
  | .users => "users"
  | .invites => "invites"
  | .revocations => "revocations"

abbrev StoredRow := Row Collection Bytes

structure ChangeSet where
  inserts : List (Collection × Bytes)
  deletes : List (Collection × Nat)
  importedDigest : Option String

def ChangeSet.isEmpty (change : ChangeSet) : Bool :=
  change.inserts.isEmpty && change.deletes.isEmpty && change.importedDigest.isNone

/-- The rows, whether anything was ever committed, the snapshot they were imported from, and
every identifier that was ever given to a row. -/
structure CaStore where
  initialized : Bool
  importedDigest : Option String
  rows : List StoredRow
  used : List Nat

/-- The identifiers a store gives to so many new rows, after all it has given. -/
abbrev Assign := List Nat → Nat → List Nat

/-- What the store promises of them: one for each row, and none of them ever given before. -/
structure Assign.Fresh (assign : Assign) : Prop where
  length : ∀ used n, (assign used n).length = n
  nodup : ∀ used n, (assign used n).Nodup
  fresh : ∀ used n, ∀ id ∈ assign used n, id ∉ used

namespace CaStore

def delete (rows : List StoredRow) (d : Collection × Nat) : Except String (List StoredRow) :=
  if d ∈ rows.map fun r => (r.collection, r.id) then
    .ok (rows.filter fun r => (r.collection, r.id) ≠ d)
  else
    .error ("CA database has no row " ++ toString d.2 ++ " in " ++ d.1.asStr ++
      "; the store and the authority's view of it have diverged")

/-- One transaction: a fault, or a row that is not there, and nothing is applied. -/
def commit (assign : Assign) (fault : Option String) (store : CaStore) (change : ChangeSet) :
    Except String (List Nat × CaStore) :=
  match fault with
  | some e => .error ("cannot write CA database: " ++ e)
  | none => do
    let rows ← change.deletes.foldlM delete store.rows
    let ids := assign store.used change.inserts.length
    pure (ids,
      { initialized := true
        importedDigest := change.importedDigest.orElse fun _ => store.importedDigest
        rows := rows ++ (change.inserts.zip ids).map fun n => ⟨n.1.1, n.2, n.1.2⟩
        used := ids ++ store.used })

end CaStore

/-! ### Records -/

inductive InviteStatus where
  | pending
  | started (handleHash : Octets 32) (startedAt handleExpiresAt : Nat)
  deriving DecidableEq

structure UserInvite where
  username : String
  role : UserRole
  sessionTtlSecs : Nat
  tokenHash : Octets 32
  totpSecret : Bytes
  createdAt : Nat
  expiresAt : Nat
  status : InviteStatus
  deriving DecidableEq

/-- Everything the authority keeps. -/
structure CaLogState extends CaLog where
  invites : List UserInvite
  deriving DecidableEq

def CaLogState.empty : CaLogState := { CaLog.empty with invites := [] }

/-- The form an issued certificate is stored in. The lengths of an address, a key and an
account are checked on the way; here they are in the types. -/
structure IssuedRecord where
  nodeMac : Mac
  edPubkey : Octets 32
  notBefore : Nat
  notAfter : Nat
  revoked : Bool
  flags : U8
  accountId : Option AccountId
  deriving DecidableEq

def packFlags (c : IssuedCertData) : U8 :=
  (if c.user then certFlagUser else 0) ||| (if c.admin then certFlagAdmin else 0) |||
    (if c.viewer then certFlagViewer else 0)

namespace IssuedRecord

def fromProto (c : IssuedCertData) : IssuedRecord :=
  ⟨c.nodeMac, c.edPubkey, c.notBefore, c.notAfter, c.revoked, packFlags c, c.accountId⟩

def toProto (r : IssuedRecord) : IssuedCertData :=
  ⟨r.nodeMac, r.edPubkey, r.notBefore, r.notAfter, r.revoked, r.flags &&& certFlagUser ≠ 0,
    r.flags &&& certFlagAdmin ≠ 0, r.flags &&& certFlagViewer ≠ 0, r.accountId⟩

theorem toProto_fromProto (c : IssuedCertData) : (fromProto c).toProto = c := by
  have hbits : ∀ user admin viewer : Bool,
      let flags : U8 := (if user then certFlagUser else 0) |||
        (if admin then certFlagAdmin else 0) ||| (if viewer then certFlagViewer else 0)
      decide (flags &&& certFlagUser ≠ 0) = user ∧ decide (flags &&& certFlagAdmin ≠ 0) = admin ∧
        decide (flags &&& certFlagViewer ≠ 0) = viewer := by decide
  obtain ⟨huser, hadmin, hviewer⟩ := hbits c.user c.admin c.viewer
  unfold fromProto toProto packFlags
  rw [huser, hadmin, hviewer]

end IssuedRecord

/-- `serde_json` on the records of one type. -/
structure Json (α : Type) where
  toVec : α → Except String Bytes
  fromSlice : Bytes → Except String α

/-- What is written reads back. -/
def Json.RoundTrips {α : Type} (j : Json α) : Prop :=
  ∀ value body, j.toVec value = .ok body → j.fromSlice body = .ok value

structure Codecs where
  issued : Json IssuedRecord
  held : Json HeldCsr
  policy : Json PolicyOverrides
  users : Json UserRecord
  invites : Json UserInvite

structure Codecs.RoundTrips (j : Codecs) : Prop where
  issued : j.issued.RoundTrips
  held : j.held.RoundTrips
  policy : j.policy.RoundTrips
  users : j.users.RoundTrips
  invites : j.invites.RoundTrips

/-- One record of any collection. -/
inductive Record where
  | issued (c : IssuedCertData)
  | held (h : HeldCsr)
  | policy (p : PolicyOverrides)
  | users (u : UserRecord)
  | invites (i : UserInvite)
  | revocations (r : RevocationRecord)
  deriving DecidableEq

def Record.collection : Record → Collection
  | .issued _ => .issued
  | .held _ => .held
  | .policy _ => .policy
  | .users _ => .users
  | .invites _ => .invites
  | .revocations _ => .revocations

namespace CaLogState

def records (s : CaLogState) : Collection → List Record
  | .issued => s.issued.map .issued
  | .held => s.held.map .held
  | .policy => [.policy s.policy]
  | .users => s.users.map .users
  | .invites => s.invites.map .invites
  | .revocations => s.revocations.map .revocations

/-- A record read back joins its collection; the policy's takes the place of the last. -/
def push (s : CaLogState) : Record → CaLogState
  | .issued c => { s with issued := s.issued ++ [c] }
  | .held h => { s with held := s.held ++ [h] }
  | .policy p => { s with policy := p }
  | .users u => { s with users := s.users ++ [u] }
  | .invites i => { s with invites := s.invites ++ [i] }
  | .revocations r => { s with revocations := s.revocations ++ [r] }

/-- The same records in every collection, in whatever order. -/
def SameRecords (s s' : CaLogState) : Prop := ∀ c, (s.records c).Perm (s'.records c)

end CaLogState

/-- A revocation is kept as the bytes that were signed, every other record as JSON. -/
def encodeRecord (j : Codecs) : Record → Except String Bytes
  | .issued c => (j.issued.toVec (.fromProto c)).mapError failed
  | .held h => (j.held.toVec h).mapError failed
  | .policy p => (j.policy.toVec p).mapError failed
  | .users u => (j.users.toVec u).mapError failed
  | .invites i => (j.invites.toVec i).mapError failed
  | .revocations r => .ok r.asBytes
where failed (e : String) : String := "failed to serialize CA record: " ++ e

def encodeCollection (j : Codecs) (s : CaLogState) (c : Collection) : Except String (List Bytes) :=
  (s.records c).mapM (encodeRecord j)

def decodeBody (j : Codecs) (body : Bytes) : Collection → Except String Record
  | .issued => ((j.issued.fromSlice body).mapError invalid).map fun r => .issued r.toProto
  | .held => ((j.held.fromSlice body).mapError invalid).map .held
  | .policy => ((j.policy.fromSlice body).mapError invalid).map .policy
  | .users => ((j.users.fromSlice body).mapError invalid).map .users
  | .invites => ((j.invites.fromSlice body).mapError invalid).map .invites
  | .revocations =>
    match RevocationRecord.readFromPrefix body with
    | some (r, []) => .ok (.revocations r)
    | _ => .error " is not a revocation record"
where invalid (e : String) : String := " is not a valid record: " ++ e

def decodeRow (j : Codecs) (row : StoredRow) : Except String Record :=
  (decodeBody j row.body row.collection).mapError fun e =>
    "CA database row " ++ toString row.id ++ e

/-- The state a store's rows hold, in the order they were written. -/
def decodeRows (j : Codecs) (rows : List StoredRow) : Except String CaLogState := do
  let (state, policies) ← (rows.mergeSort fun r r' => r.id ≤ r'.id).foldlM
    (fun (acc : CaLogState × Nat) row => do
      let record ← decodeRow j row
      pure (acc.1.push record, if record.collection = .policy then acc.2 + 1 else acc.2))
    (CaLogState.empty, 0)
  if 1 < policies then
    .error ("CA database holds " ++ toString policies ++
      " enrollment-policy rows where there can be one")
  else pure state

/-! ### Memory and store -/

structure Backing where
  store : CaStore
  index : Collection → List (Bytes × List Nat)

/-- The collections a state wants written, as bodies. -/
def encodeAll (j : Codecs) (s : CaLogState) (touched : List Collection) :
    Except String (List (Collection × List Bytes)) :=
  touched.mapM fun c => (encodeCollection j s c).map fun bodies => (c, bodies)

/-- Write the difference between the touched collections and the rows of the index. -/
def Backing.commit (j : Codecs) (assign : Assign) (fault : Option String) (b : Backing)
    (s : CaLogState) (touched : List Collection) : Except String Backing := do
  let orders ← encodeAll j s touched
  let deleted := deletions b.index orders
  let inserted := insertions b.index orders
  let change : ChangeSet := ⟨inserted, deleted.map fun d => (d.1, d.2.2), none⟩
  if change.isEmpty then pure b
  else
    let (ids, store) ← b.store.commit assign fault change
    pure ⟨store, rememberAll (forgetAll b.index deleted) (inserted.zip ids)⟩

/-- The log in memory and what keeps it, if anything does. -/
structure DurableLog where
  state : CaLogState
  backing : Option Backing

def DurableLog.mutate (j : Codecs) (assign : Assign) (fault : Option String) (log : DurableLog)
    (touched : List Collection) (f : CaLogState → CaLogState) : Except String Unit × DurableLog :=
  match log.backing with
  | none => (.ok (), { log with state := f log.state })
  | some b =>
    match b.commit j assign fault (f log.state) touched with
    | .ok b' => (.ok (), ⟨f log.state, some b'⟩)
    | .error _ => (.error notRecorded, log)

/-- The ways the authority changes its log, each with any function of what it may touch. -/
inductive Mutation where
  | issued (f : List IssuedCertData → List IssuedCertData)
  | issuedRecording (records : List RevocationRecord) (nowUnix : Nat)
      (f : List IssuedCertData → List IssuedCertData)
  | held (f : List HeldCsr → List HeldCsr)
  | issuedAndHeld
      (f : List IssuedCertData × List HeldCsr → List IssuedCertData × List HeldCsr)
  | policy (f : PolicyOverrides → PolicyOverrides)
  | users (f : List UserRecord → List UserRecord)
  | invites (f : List UserInvite → List UserInvite)
  | usersAndInvites (f : List UserRecord × List UserInvite → List UserRecord × List UserInvite)
  | usersAndIssued (records : List RevocationRecord) (nowUnix : Nat)
      (f : List UserRecord × List IssuedCertData → List UserRecord × List IssuedCertData)

namespace Mutation

def touched : Mutation → List Collection
  | .issued _ => [.issued]
  | .issuedRecording .. => [.issued, .revocations]
  | .held _ => [.held]
  | .issuedAndHeld _ => [.issued, .held]
  | .policy _ => [.policy]
  | .users _ => [.users]
  | .invites _ => [.invites]
  | .usersAndInvites _ => [.users, .invites]
  | .usersAndIssued .. => [.users, .issued, .revocations]

def recording (s : CaLogState) (records : List RevocationRecord) (nowUnix : Nat) : CaLogState :=
  { s with toCaLog := s.toCaLog.recordRevocations records nowUnix }

def apply (s : CaLogState) : Mutation → CaLogState
  | .issued f => { s with issued := f s.issued }
  | .issuedRecording records nowUnix f =>
    { recording s records nowUnix with issued := f s.issued }
  | .held f => { s with held := f s.held }
  | .issuedAndHeld f =>
    let changed := f (s.issued, s.held)
    { s with issued := changed.1, held := changed.2 }
  | .policy f => { s with policy := f s.policy }
  | .users f => { s with users := f s.users }
  | .invites f => { s with invites := f s.invites }
  | .usersAndInvites f =>
    let changed := f (s.users, s.invites)
    { s with users := changed.1, invites := changed.2 }
  | .usersAndIssued records nowUnix f =>
    let changed := f (s.users, s.issued)
    { recording s records nowUnix with users := changed.1, issued := changed.2 }

end Mutation

/-- One call, and what befalls its commit. -/
structure Call where
  mutation : Mutation
  fault : Option String

namespace DurableLog

def serve (j : Codecs) (assign : Assign) (log : DurableLog) (call : Call) :
    Except String Unit × DurableLog :=
  log.mutate j assign call.fault call.mutation.touched fun s => call.mutation.apply s

def step (j : Codecs) (assign : Assign) (log : DurableLog) (call : Call) : DurableLog :=
  (log.serve j assign call).2

/-- The file the authority ran on before it had a database, as it was read. -/
structure Legacy where
  path : String
  state : CaLogState
  digest : String

/-- Whether two states encode to the same bodies once these are sorted. -/
def sameRecords (j : Codecs) (s s' : CaLogState) : Except String Bool :=
  Collection.all.foldlM (fun same c => do
    if !same then pure false
    else
      let x ← encodeCollection j s c
      let y ← encodeCollection j s' c
      pure (x.isPerm y)) true

/-- A new database takes the legacy state, or an empty one; one that is in use is read, and
stands beside a legacy file only if that is where it came from. -/
def withStore (j : Codecs) (assign : Assign) (fault : Option String) (store : CaStore)
    (legacy : Option Legacy) : Except String DurableLog := do
  if !store.initialized then
    let state := legacy.elim CaLogState.empty Legacy.state
    let orders ← encodeAll j state Collection.all
    let pending := orders.flatMap fun o => o.2.map fun body => (o.1, body)
    let (ids, store) ← store.commit assign fault ⟨pending, [], legacy.map Legacy.digest⟩
    pure ⟨state, some ⟨store, rememberAll (fun _ => []) (pending.zip ids)⟩⟩
  else
    let state ← decodeRows j store.rows
    let index := rememberAll (fun _ => []) (store.rows.map fun r => ((r.collection, r.body), r.id))
    match legacy with
    | none => pure ⟨state, some ⟨store, index⟩⟩
    | some file =>
      if store.importedDigest = some file.digest then pure ⟨state, some ⟨store, index⟩⟩
      else
        if ← sameRecords j state file.state then pure ⟨state, some ⟨store, index⟩⟩
        else
          .error (file.path ++ " is still present beside an initialized CA database and is not " ++
            "the file it was imported from; refusing to start rather than choose between them. " ++
            "If its state is already in the database, move it aside")

end DurableLog

end Wayfinder
