import Wayfinder.Authority.Sessions

/-!
# The authority task

The task that owns the authority signs a revocation, records it durably and only then
offers it to the router. A success says that the router took everything this request has
signed; what an earlier request signed and the router refused is not offered again, and a
session is not signed for a second time, as the failed attempt has marked it revoked.
-/

namespace Wayfinder

set_option autoImplicit false

open Run

def CertAuthority.hasLiveSessions (ca : CertAuthority) (username : String) : Bool :=
  match ca.accountIdOf username with
  | .ok account => !(ca.liveSessionsOf account).isEmpty
  | .error _ => false

namespace AuthorityTask

inductive RevokingRequest
  | revokeNode (nodeMac : Bytes)
  | revokeUserSessions (username : String)
  | setUserRole (username : String) (admin : Bool)
  | setUserEnabled (username : String) (enabled : Bool)
  | removeUser (username : String)

inductive Target
  | node (nodeMac : Bytes)
  | account (username : String)
  deriving DecidableEq

def RevokingRequest.target : RevokingRequest → Target
  | revokeNode nodeMac => .node nodeMac
  | revokeUserSessions username | setUserRole username _ | setUserEnabled username _
  | removeUser username => .account username

inductive Answer
  | empty
  | revoked (count : Nat)
  | changed (revoked : Nat) (unchanged : Bool)
  deriving DecidableEq

/-! ### The adapter -/

section Adapter
variable (k : Crypto) (commits : Commits) (authPresent : Bool)

def canFlood (act : String) : Except String Unit :=
  if authPresent then .ok ()
  else
    .error ("cannot " ++ act ++ ": this provider node has mesh authentication disabled, so the " ++
      "revocation cannot be flooded")

/-- An act that would end sessions is refused on a node that could not announce it. -/
def gated {α : Type} (ca : CertAuthority) (username act : String)
    (f : CertAuthority → Except String α × CertAuthority) : Except String α × CertAuthority :=
  attempt (if ca.hasLiveSessions username then canFlood authPresent act else .ok (), ca)
    fun _ ca => f ca

def gatedSessionRevocation (ca : CertAuthority) (username act : String)
    (f : CertAuthority → Except String (List RevocationRecord) × CertAuthority) :
    Except String (List RevocationRecord) × CertAuthority :=
  gated authPresent ca username act f

def gatedAccountChange (ca : CertAuthority) (username act : String)
    (f : CertAuthority → Except String (List RevocationRecord × Bool) × CertAuthority) :
    Except String (List RevocationRecord × Bool) × CertAuthority :=
  gated authPresent ca username act f

/-- The records as they are counted in a response. -/
def kept (records : List RevocationRecord) : Nat := records.length % 2 ^ 32

def revokeNode (ca : CertAuthority) (nodeMac : Bytes) :
    Except String (List RevocationRecord) × CertAuthority :=
  attempt (canFlood authPresent "revoke", ca) fun _ ca =>
    attempt (ca.revoke k commits nodeMac) fun record ca => (.ok [record], ca)

def revokeUserSessions (ca : CertAuthority) (username : String) :
    Except String (List RevocationRecord) × CertAuthority :=
  gatedSessionRevocation authPresent ca username "revoke this account's sessions" fun ca =>
    ca.revokeUserSessions k commits username

def removeUser (ca : CertAuthority) (username : String) :
    Except String (List RevocationRecord) × CertAuthority :=
  gatedSessionRevocation authPresent ca username "remove this account" fun ca =>
    ca.removeUser k commits username

/-- A promotion revokes nothing and is not gated. -/
def setUserRole (ca : CertAuthority) (username : String) (admin : Bool) :
    Except String (List RevocationRecord × Bool) × CertAuthority :=
  if admin then ca.setUserRole k commits username .admin
  else
    gatedAccountChange authPresent ca username "demote this account" fun ca =>
      ca.setUserRole k commits username .viewer

def setUserEnabled (ca : CertAuthority) (username : String) (enabled : Bool) :
    Except String (List RevocationRecord × Bool) × CertAuthority :=
  if enabled then ca.setUserEnabled k commits username true
  else
    gatedAccountChange authPresent ca username "disable this account" fun ca =>
      ca.setUserEnabled k commits username false

def handleAuthority (ca : CertAuthority) :
    RevokingRequest → Except String (Answer × List RevocationRecord) × CertAuthority
  | .revokeNode nodeMac =>
    attempt (revokeNode k commits authPresent ca nodeMac) fun records ca =>
      (.ok (.empty, records), ca)
  | .revokeUserSessions username =>
    attempt (revokeUserSessions k commits authPresent ca username) fun records ca =>
      (.ok (.revoked (kept records), records), ca)
  | .setUserRole username admin =>
    attempt (setUserRole k commits authPresent ca username admin) fun r ca =>
      (.ok (.changed (kept r.1) (!r.2), r.1), ca)
  | .setUserEnabled username enabled =>
    attempt (setUserEnabled k commits authPresent ca username enabled) fun r ca =>
      (.ok (.changed (kept r.1) (!r.2), r.1), ca)
  | .removeUser username =>
    attempt (removeUser k commits authPresent ca username) fun records ca =>
      (.ok (.empty, records), ca)

end Adapter

/-! ### The flood -/

def signedButNotFlooded (reason : String) : String :=
  "the revocation was signed and recorded, but was not flooded to the mesh: " ++ reason

/-- Offer every record, and report the first that the router refused. A verdict is the reason
it gives, for the record at that place. -/
def floodRevocations (verdicts : Nat → Option String) (records : List RevocationRecord)
    (response : Except String Answer) : Except String Answer :=
  match records.zipIdx.foldl (fun failure r => failure.or (verdicts r.2)) none with
  | some reason => .error (signedButNotFlooded reason)
  | none => response

structure Offer where
  target : Target
  record : RevocationRecord
  accepted : Bool
  deriving DecidableEq

/-- The authority, with all that the router was ever offered, which nothing in the program
looks at. -/
structure Task where
  ca : CertAuthority
  offers : List Offer

/-- A request, with the second it is served in and what happens around it. -/
structure Call where
  now : Nat
  commits : Commits
  authPresent : Bool
  verdicts : Nat → Option String
  request : RevokingRequest

def serve (k : Crypto) (task : Task) (call : Call) : Except String Answer × Task :=
  let r := handleAuthority k call.commits call.authPresent (task.ca.setNowUnix call.now) call.request
  match r.1 with
  | .ok (answer, records) =>
    (floodRevocations call.verdicts records (.ok answer),
      ⟨r.2, task.offers ++ records.zipIdx.map fun o =>
        ⟨call.request.target, o.1, (call.verdicts o.2).isNone⟩⟩)
  | .error e => (.error e, ⟨r.2, task.offers⟩)

inductive Event
  | call (call : Call)
  | meanwhile (ca : CertAuthority)

def step (k : Crypto) (task : Task) : Event → Task
  | .call call => (serve k task call).2
  | .meanwhile ca => { task with ca := ca }

/-- The record was accepted when it was offered, if not the first time then once. -/
def Accepted (offers : List Offer) (record : RevocationRecord) : Prop :=
  ∃ o ∈ offers, o.record = record ∧ o.accepted = true

/-- A success means that every record signed for what the request names, and in force, has
been accepted. -/
def Announces (k : Crypto) (task : Task) : Event → Prop
  | .call call => ∀ answer, (serve k task call).1 = .ok answer →
    ∀ o ∈ (serve k task call).2.offers, o.target = call.request.target →
      call.now < o.record.notAfter.get → Accepted (serve k task call).2.offers o.record
  | .meanwhile _ => True

/-! ### What a request signs -/

section Signing
variable (k : Crypto) (ca : CertAuthority)

def sessionRecords (username : String) : List RevocationRecord :=
  match ca.accountIdOf username with
  | .ok account => (ca.liveSessionsOf account).map fun s => ca.authority.revoke k s.1 ca.nowUnix s.2
  | .error _ => []

def signs : RevokingRequest → List RevocationRecord
  | .revokeNode nodeMac =>
    match nodeMacOf nodeMac with
    | .ok mac => [ca.authority.revoke k mac ca.nowUnix (saturatingAdd64 ca.nowUnix ca.certTtlSecs)]
    | .error _ => []
  | .revokeUserSessions username | .removeUser username => sessionRecords k ca username
  | .setUserRole username admin =>
    match ca.userRecord username with
    | .ok user => if admin ∨ user.role = .viewer then [] else sessionRecords k ca username
    | .error _ => []
  | .setUserEnabled username enabled =>
    match ca.userRecord username with
    | .ok user => if enabled ∨ user.disabled then [] else sessionRecords k ca username
    | .error _ => []

end Signing

section Served
variable {k : Crypto} {ca : CertAuthority} {commits : Commits} {authPresent : Bool}

open CertAuthority

theorem revoke_ok {nodeMac : Bytes} {record : RevocationRecord}
    (h : (ca.revoke k commits nodeMac).1 = .ok record) :
    ∃ mac, nodeMacOf nodeMac = .ok mac ∧
      record = ca.authority.revoke k mac ca.nowUnix (saturatingAdd64 ca.nowUnix ca.certTtlSecs) := by
  unfold CertAuthority.revoke at h
  split at h
  · cases h
  · obtain ⟨mac, hmac, h⟩ := exists_of_attempt h
    obtain ⟨_, _, h⟩ := exists_of_attempt h
    exact ⟨mac, hmac, (Except.ok.inj h).symm⟩

end Served

/-- What was refused earlier for the node or account, and is still in force, has been accepted
since or is signed once more, or the request is not answered with success. -/
def Settled (k : Crypto) (task : Task) : Event → Prop
  | .call call => ∀ answer, (serve k task call).1 = .ok answer →
    ∀ o ∈ task.offers, o.target = call.request.target → call.now < o.record.notAfter.get →
      Accepted task.offers o.record ∨
        o.record ∈ signs k (task.ca.setNowUnix call.now) call.request
  | .meanwhile _ => True

end AuthorityTask

namespace SmallMesh

open AuthorityTask

def endSessions (secs : Nat) (refusal : Option String) : AuthorityTask.Call where
  now := epoch + secs
  commits := ⟨true, true⟩
  authPresent := true
  verdicts := fun _ => refusal
  request := .revokeUserSessions "alice"

end SmallMesh

end Wayfinder
