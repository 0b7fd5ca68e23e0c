import Wayfinder.Authority.Accounts
import Wayfinder.Authority.Persistence

/-!
# Accounts and invitations

The authority as an administrator of its accounts sees it. An account is created outright,
or a person is invited to register one: the invitation holds the second factor, its token
reveals that once and is answered with a handle, and the handle, a code and a password make
the account and take the invitation off the file in one commit.
-/

namespace Wayfinder

set_option autoImplicit false

open Fallible

def maxUsernameLen : Nat := 128
def maxPendingInvites : Nat := 128
def defaultSessionTtlSecs : Nat := 8 * 3600
def defaultInviteTtlSecs : Nat := 24 * 3600
def maxInviteTtlSecs : Nat := 7 * 24 * 3600
def registrationHandleTtlSecs : Nat := 15 * 60
def totpIssuer : String := "wayfinder"

/-! ### Enrolment URIs and hashes -/

def utf8 (s : String) : Bytes := (s.toList.flatMap String.utf8EncodeChar).map UInt8.toBitVec

/-- What RFC 3986 leaves unreserved: letters, digits, and four marks. -/
def isUriComponent (c : Char) : Bool :=
  ('A' ≤ c && c ≤ 'Z') || ('a' ≤ c && c ≤ 'z') || ('0' ≤ c && c ≤ '9') || c = '-' || c = '.' ||
    c = '_' || c = '~'

def percentEncode (s : String) : String :=
  String.ofList ((utf8 s).flatMap fun b =>
    let c := Char.ofNat b.toNat
    if isUriComponent c then [c]
    else ['%', (Nat.digitChar (b.toNat / 16)).toUpper, (Nat.digitChar (b.toNat % 16)).toUpper])

def base32Alphabet : List Char := "ABCDEFGHIJKLMNOPQRSTUVWXYZ234567".toList

def base32Digit (buffer : BitVec 16) : Char := base32Alphabet.getD (buffer &&& 0x1f).toNat 'A'

/-- Unpadded: the bits of a buffer go out five at a time, from the oldest. -/
def base32Encode (bytes : Bytes) : String :=
  let (out, buffer, bits) := bytes.foldl
    (fun (acc : List Char × BitVec 16 × Nat) byte =>
      let buffer := acc.2.1 <<< 8 ||| byte.setWidth 16
      let bits := acc.2.2 + 8
      (acc.1 ++ (List.range (bits / 5)).map fun i => base32Digit (buffer >>> (bits - 5 * (i + 1))),
        buffer, bits % 5))
    ([], 0, 0)
  String.ofList (out ++ if 0 < bits then [base32Digit (buffer <<< (5 - bits))] else [])

def totpEnrolmentUri (issuer username : String) (secret : Bytes) : String :=
  "otpauth://totp/" ++ percentEncode issuer ++ ":" ++ percentEncode username ++ "?secret=" ++
    base32Encode secret ++ "&issuer=" ++ percentEncode issuer ++ "&algorithm=SHA1&digits=" ++
    toString totpDigits ++ "&period=" ++ toString totpStepSecs

/-- What an invitation keeps of its token, and of its handle: the labels keep the one from
passing for the other. -/
def inviteTokenHash (k : Crypto) (token : String) : Octets 32 :=
  k.blake2s256 (utf8 "wayfinder-invite-v1" ++ utf8 token)

def registrationHandleHash (k : Crypto) (handle : String) : Octets 32 :=
  k.blake2s256 (utf8 "wayfinder-registration-handle-v1" ++ utf8 handle)

namespace UserInvite

def new (username : String) (role : UserRole) (sessionTtlSecs : Nat) (tokenHash : Octets 32)
    (totpSecret : Bytes) (createdAt expiresAt : Nat) : UserInvite :=
  ⟨username, role, sessionTtlSecs, tokenHash, totpSecret, createdAt, expiresAt, .pending⟩

def isExpired (i : UserInvite) (nowUnix : Nat) : Bool := i.expiresAt ≤ nowUnix

/-- An invitation whose secret is out lives as long as its handle. -/
def isLive (i : UserInvite) (nowUnix : Nat) : Bool :=
  match i.status with
  | .pending => !i.isExpired nowUnix
  | .started _ _ handleExpiresAt => nowUnix < handleExpiresAt

def tokenMatches (i : UserInvite) (hash : Octets 32) : Bool := i.tokenHash = hash

def handleMatches (i : UserInvite) (hash : Octets 32) (nowUnix : Nat) : Bool :=
  match i.status with
  | .pending => false
  | .started handleHash _ handleExpiresAt => nowUnix < handleExpiresAt && handleHash = hash

end UserInvite

/-! ### The authority of accounts -/

structure MintedInvite where
  username : String
  token : String
  expiresAt : Nat
  deriving DecidableEq

structure StartedRegistration where
  username : String
  totpEnrolmentUri : String
  handle : String
  handleExpiresAt : Nat
  deriving DecidableEq

/-- The authority with the invitations on file. -/
structure UserAuthority extends CertAuthority where
  invites : List UserInvite
  deriving DecidableEq

/-- What a call reads off the clock, which it asks anew each time: for its own check that
there is one, for the sweep's, for what the sweep judges by, for what it goes on with, and for
the date of a mint. -/
structure Readings where
  guard : Nat
  sweep : Nat
  evict : Nat
  now : Nat
  stamp : Nat
  deriving DecidableEq

namespace UserAuthority

variable (k : Crypto) (ua : UserAuthority)

def state : CaLogState := { ua.log with invites := ua.invites }

def written (m : Mutation) : UserAuthority :=
  { ua with log := (m.apply ua.state).toCaLog, invites := (m.apply ua.state).invites }

/-- One change of the log. A commit that changes nothing does not reach the store. -/
def mutate (commits : Bool) (m : Mutation) : Except String Unit × UserAuthority :=
  if commits || m.apply ua.state = ua.state then (.ok (), ua.written m)
  else (.error notRecorded, ua)

/-- A step that fails ends the call, in the state it left. -/
def andThen {α β : Type} (r : Except String α × UserAuthority)
    (f : α → UserAuthority → Except String β × UserAuthority) :
    Except String β × UserAuthority :=
  match r with
  | (.ok a, ua) => f a ua
  | (.error e, ua) => (.error e, ua)

/-- A call that does not know of invitations. -/
def onAuthority {α : Type} (r : Except String α × CertAuthority) :
    Except String α × UserAuthority :=
  (r.1, { ua with toCertAuthority := r.2 })

/-! #### Invitations -/

/-- Without a clock nothing has expired. -/
def evictExpiredInvites (clock : Readings) (commits : Bool) :
    Except String Unit × UserAuthority :=
  if clock.sweep = 0 || ua.invites.all (fun i => i.isLive clock.evict) then (.ok (), ua)
  else ua.mutate commits (.invites fun invites => invites.filter fun i => i.isLive clock.evict)

def checkNameAvailable (username : String) : Except String Unit :=
  if username.isEmpty then .error "username must not be empty"
  else if maxUsernameLen < username.utf8ByteSize then
    .error ("username must be at most " ++ toString maxUsernameLen ++ " bytes")
  else if ua.log.users.any fun u => u.username = username then
    .error ("user " ++ username ++ " already exists")
  else if ua.invites.any fun i => i.username = username then
    .error ("user " ++ username ++ " has already been invited; revoke that invitation first, " ++
      "or wait for it to expire")
  else .ok ()

/-- What else a mint is refused for, and the lifetime of the sessions it grants. -/
def checkInvite (username : String) (sessionTtlSecs inviteTtlSecs : Nat) : Except String Nat := do
  ua.checkNameAvailable username
  (if maxPendingInvites ≤ ua.invites.length then
    .error ("the invitation store is full (" ++ toString maxPendingInvites ++ " pending): " ++
      "revoke an outstanding invitation, or wait for one to expire") else .ok ())
  let ttl := if sessionTtlSecs = 0 then defaultSessionTtlSecs else sessionTtlSecs
  checkSessionTtl ttl ua.allowUnboundedCertTtl
  (if maxInviteTtlSecs < inviteTtlSecs then
    .error ("invite_ttl_secs is " ++ toString inviteTtlSecs ++ "s, past the " ++
      toString maxInviteTtlSecs ++ "s cap: an invitation is a bearer token sitting in " ++
      "somebody's chat history, and one that outlives the conversation cannot be recalled. " ++
      "Shorten it, or mint again when it expires") else .ok ())
  pure ttl

/-- The token and the secret are drawn for the invitation. -/
def createUserInvite (clock : Readings) (commits : Commits) (username : String)
    (role : UserRole) (sessionTtlSecs inviteTtlSecs : Nat) (token : String)
    (totpSecret : Bytes) : Except String MintedInvite × UserAuthority :=
  if clock.guard = 0 then (.error (noClock "mint an invitation"), ua)
  else
    andThen (ua.evictExpiredInvites clock commits.onTheWay) fun _ ua =>
      andThen (ua.checkInvite username sessionTtlSecs inviteTtlSecs, ua) fun ttl ua =>
        let expiresAt := saturatingAdd64 clock.now
          (if inviteTtlSecs = 0 then defaultInviteTtlSecs else inviteTtlSecs)
        let invite := UserInvite.new username role ttl (inviteTokenHash k token) totpSecret
          clock.stamp expiresAt
        andThen (ua.mutate commits.final (.invites fun invites => invites ++ [invite])) fun _ ua =>
          (.ok ⟨username, token, expiresAt⟩, ua)

/-- Whether the store takes the change is answered first. -/
def revokeUserInvite (commits : Commits) (username : String) :
    Except String Unit × UserAuthority :=
  let found := ua.invites.any fun i => i.username = username
  andThen (ua.mutate commits.final
    (.invites fun invites => invites.filter fun i => i.username ≠ username)) fun _ ua =>
    if found then (.ok (), ua)
    else (.error ("no invitation on file for " ++ username), ua)

/-! #### Registration -/

def registrationStartRefused : String :=
  "this invitation is not valid: it may have expired, already been used, or been revoked. Ask " ++
    "for a new one."

/-- The invitation a token finds, once its secret is out. -/
def startInvite (hash handleHash : Octets 32) (nowUnix handleExpiresAt : Nat) (i : UserInvite) :
    Option UserInvite :=
  if i.tokenMatches hash then
    some { i with status := .started handleHash nowUnix handleExpiresAt }
  else none

/-- A token that matches nothing costs no write; the invitation is looked up again as it is
written. Only the sweep asks whether it has expired. -/
def beginUserRegistration (clock : Readings) (commits : Commits) (token handle : String) :
    Except String StartedRegistration × UserAuthority :=
  if clock.guard = 0 then (.error (noClock "start a registration"), ua)
  else
    andThen (ua.evictExpiredInvites clock commits.onTheWay) fun _ ua =>
      let hash := inviteTokenHash k token
      let handleHash := registrationHandleHash k handle
      let handleExpiresAt := saturatingAdd64 clock.now registrationHandleTtlSecs
      if ua.invites.any fun i => i.tokenMatches hash && i.status = .pending then
        let found := (ua.invites.find? fun i => i.tokenMatches hash).filter fun i =>
          i.status = .pending
        andThen (ua.mutate commits.final (.invites fun invites =>
          if found.isSome then
            invites.lookmap (startInvite hash handleHash clock.now handleExpiresAt)
          else invites)) fun _ ua =>
          match found with
          | some i =>
            (.ok ⟨i.username, totpEnrolmentUri totpIssuer i.username i.totpSecret, handle,
              handleExpiresAt⟩, ua)
          | none => (.error registrationStartRefused, ua)
      else (.error registrationStartRefused, ua)

/-- The invitation of a handle and the account it makes, for a right code. The lifetime was
granted under a policy that may have changed, so it is cut and not refused. -/
def registrant (cr : Credentials) (nowUnix : Nat) (handle password totpCode : String)
    (id : AccountId) (hashed : Except String String) : Except String UserRecord := do
  let invite ← (ua.invites.find? fun i =>
      i.handleMatches (registrationHandleHash k handle) nowUnix).elim
    (.error ("this registration is no longer valid: it may have expired or been revoked. Ask " ++
      "for a new invitation.")) .ok
  let step ← (cr.verifyTotp invite.totpSecret totpCode nowUnix 0).elim
    (.error "that code is not correct. Check your authenticator and try again.") .ok
  let ttl :=
    if (checkSessionTtl invite.sessionTtlSecs ua.allowUnboundedCertTtl).isOk then
      invite.sessionTtlSecs
    else maxSessionTtlSecs
  (if maxUsernameLen < invite.username.utf8ByteSize then
    .error ("this invitation names a username longer than the " ++ toString maxUsernameLen ++
      "-byte limit                  and can no longer be redeemed; ask an administrator for " ++
      "a new one") else .ok ())
  UserRecord.fromRegistration invite.username password invite.totpSecret step invite.role ttl id
    hashed

/-- The account and the end of its invitation are one commit. -/
def completeUserRegistration (cr : Credentials) (clock : Readings) (commits : Commits)
    (handle password totpCode : String) (id : AccountId) (hashed : Except String String) :
    Except String Unit × UserAuthority :=
  if clock.guard = 0 then (.error (noClock "create an account"), ua)
  else
    andThen (ua.evictExpiredInvites clock commits.onTheWay) fun _ ua =>
      andThen (ua.registrant k cr clock.now handle password totpCode id hashed, ua) fun user ua =>
        let taken := ua.log.users.any fun u => u.username = user.username
        andThen (ua.mutate commits.final (.usersAndInvites fun (users, invites) =>
          if taken then (users, invites)
          else (users ++ [user], invites.filter fun i => i.username ≠ user.username))) fun _ ua =>
          if taken then
            (.error ("user " ++ user.username ++ " already exists; this invitation can no " ++
              "longer be redeemed"), ua)
          else (.ok (), ua)

/-! #### Accounts -/

def addUser (clock : Readings) (commits : Commits) (user : UserRecord) :
    Except String Unit × UserAuthority :=
  andThen (ua.evictExpiredInvites clock commits.onTheWay) fun _ ua =>
    andThen (ua.checkNameAvailable user.username, ua) fun _ ua =>
      ua.mutate commits.final (.users fun users => users ++ [user])

/-- The record of a new account, which a second factor may be left off. -/
def newUser (username password : String) (admin : Bool) (sessionTtlSecs : Nat) (noTotp : Bool)
    (id : AccountId) (hashed : Except String String) (totpSecret : Bytes) :
    Except String UserRecord := do
  let role := if admin then UserRole.admin else UserRole.viewer
  let ttl := if sessionTtlSecs = 0 then defaultSessionTtlSecs else sessionTtlSecs
  checkSessionTtl ttl ua.allowUnboundedCertTtl
  let user ← UserRecord.new username password role ttl id hashed totpSecret
  pure (if noTotp then user.withoutTotp else user)

def createUser (clock : Readings) (commits : Commits) (username password : String)
    (admin : Bool) (sessionTtlSecs : Nat) (noTotp : Bool) (id : AccountId)
    (hashed : Except String String) (totpSecret : Bytes) :
    Except String String × UserAuthority :=
  andThen (ua.newUser username password admin sessionTtlSecs noTotp id hashed totpSecret, ua)
    fun user ua =>
      let uri := user.totpSecret.elim "" (totpEnrolmentUri totpIssuer user.username)
      andThen (ua.addUser clock commits user) fun _ ua => (.ok uri, ua)

/-- A password that is refused leaves the account as it was, and the call still asks the
store. -/
def setUserPassword (commits : Commits) (username password : String)
    (hashed : Except String String) : Except String Unit × UserAuthority :=
  match ua.log.users.find? fun u => u.username = username with
  | none => (.error ("no such user: " ++ username), ua)
  | some user =>
    andThen (ua.mutate commits.final (.users fun users => users.lookmap fun u =>
      if u.username = username then some (u.setPassword password hashed).2 else none)) fun _ ua =>
      ((user.setPassword password hashed).1, ua)

/-! ### Requests -/

inductive UserOp where
  | createUser (username password : String) (admin : Bool) (sessionTtlSecs : Nat) (noTotp : Bool)
      (id : AccountId) (hashed : Except String String) (totpSecret : Bytes)
  | setUserRole (username : String) (role : UserRole)
  | setUserEnabled (username : String) (enabled : Bool)
  | setUserPassword (username password : String) (hashed : Except String String)
  | removeUser (username : String)
  | revokeUserSessions (username : String)
  | authenticateUser (username password totpCode : String) (edPubkey xPubkey : Bytes)
  | createUserInvite (username : String) (role : UserRole) (sessionTtlSecs inviteTtlSecs : Nat)
      (token : String) (totpSecret : Bytes)
  | beginUserRegistration (token handle : String)
  | completeUserRegistration (handle password totpCode : String) (id : AccountId)
      (hashed : Except String String)
  | revokeUserInvite (username : String)
  | restart (cfg : ProviderConfig)

structure UserRequest where
  clock : Readings
  commits : Commits
  op : UserOp

inductive UserReply where
  | uri (answer : Except String String)
  | minted (answer : Except String MintedInvite)
  | started (answer : Except String StartedRegistration)
  | session (answer : Except String UserAuthOutcome)
  | revocations (answer : Except String (List RevocationRecord))
  | changed (answer : Except String (List RevocationRecord × Bool))
  | done (answer : Except String Unit)
  deriving DecidableEq

def perform (cr : Credentials) (clock : Readings) (commits : Commits) :
    UserOp → UserReply × UserAuthority
  | .createUser username password admin ttl noTotp account hashed secret =>
    (ua.createUser clock commits username password admin ttl noTotp account hashed secret).map
      .uri id
  | .setUserRole username role =>
    (ua.onAuthority (ua.toCertAuthority.setUserRole k commits username role)).map .changed id
  | .setUserEnabled username enabled =>
    (ua.onAuthority (ua.toCertAuthority.setUserEnabled k commits username enabled)).map .changed id
  | .setUserPassword username password hashed =>
    (ua.setUserPassword commits username password hashed).map .done id
  | .removeUser username =>
    (ua.onAuthority (ua.toCertAuthority.removeUser k commits username)).map .revocations id
  | .revokeUserSessions username =>
    (ua.onAuthority (ua.toCertAuthority.revokeUserSessions k commits username)).map
      .revocations id
  | .authenticateUser username password totpCode ed x =>
    (ua.onAuthority (ua.toCertAuthority.authenticateUser k cr commits username password totpCode
      ed x)).map .session id
  | .createUserInvite username role sessionTtl inviteTtl token secret =>
    (ua.createUserInvite k clock commits username role sessionTtl inviteTtl token secret).map
      .minted id
  | .beginUserRegistration token handle =>
    (ua.beginUserRegistration k clock commits token handle).map .started id
  | .completeUserRegistration handle password totpCode account hashed =>
    (ua.completeUserRegistration k cr clock commits handle password totpCode account hashed).map
      .done id
  | .revokeUserInvite username => (ua.revokeUserInvite commits username).map .done id
  | .restart cfg => (ua.onAuthority (ua.toCertAuthority.restart cfg)).map .done id

def setNowUnix (now : Nat) : UserAuthority :=
  { ua with toCertAuthority := ua.toCertAuthority.setNowUnix now }

def serve (cr : Credentials) (req : UserRequest) : UserReply × UserAuthority :=
  (ua.setNowUnix req.clock.now).perform k cr req.clock req.commits req.op

def step (cr : Credentials) (ua : UserAuthority) (req : UserRequest) : UserAuthority :=
  (ua.serve k cr req).2

def after (cr : Credentials) (reqs : List UserRequest) : UserAuthority :=
  Run.run (step k cr) ua reqs

/-! ### What each call can do -/

section Steps
variable {α β : Type}

theorem mutate_cases (commits : Bool) (m : Mutation) :
    ua.mutate commits m = (.ok (), ua.written m) ∨
      ua.mutate commits m = (.error notRecorded, ua) := by
  unfold mutate
  split
  · exact Or.inl rfl
  · exact Or.inr rfl

theorem andThen_check (x : Except String α)
    (f : α → UserAuthority → Except String β × UserAuthority) :
    (∃ e, andThen (x, ua) f = (.error e, ua)) ∨ ∃ a, x = .ok a ∧ andThen (x, ua) f = f a ua := by
  cases x with
  | error e => exact Or.inl ⟨e, rfl⟩
  | ok a => exact Or.inr ⟨a, rfl, rfl⟩

theorem andThen_mutate (commits : Bool) (m : Mutation)
    (f : Unit → UserAuthority → Except String β × UserAuthority) :
    andThen (ua.mutate commits m) f = (.error notRecorded, ua) ∨
      andThen (ua.mutate commits m) f = f () (ua.written m) := by
  rcases ua.mutate_cases commits m with h | h
  · exact Or.inr (by rw [h]; rfl)
  · exact Or.inl (by rw [h]; rfl)

/-- The authority without the invitations that have expired. -/
def swept (clock : Readings) : UserAuthority :=
  { ua with invites := ua.invites.filter fun i => clock.sweep = 0 || i.isLive clock.evict }

theorem andThen_evict (clock : Readings) (commits : Bool)
    (f : Unit → UserAuthority → Except String β × UserAuthority) :
    andThen (ua.evictExpiredInvites clock commits) f = (.error notRecorded, ua) ∨
      andThen (ua.evictExpiredInvites clock commits) f = f () (ua.swept clock) := by
  unfold evictExpiredInvites
  split
  · rename_i hnone
    have hall : ∀ i ∈ ua.invites, (clock.sweep = 0 || i.isLive clock.evict) = true := by
      intro i hi
      rcases Bool.or_eq_true_iff.mp hnone with hclock | hlive
      · exact Bool.or_eq_true_iff.mpr (Or.inl hclock)
      · exact Bool.or_eq_true_iff.mpr (Or.inr (List.all_eq_true.mp hlive i hi))
    have hswept : ua.swept clock = ua := by
      unfold swept
      rw [List.filter_eq_self.mpr hall]
    rw [hswept]
    exact Or.inr rfl
  · rename_i hclock
    have hclock : clock.sweep ≠ 0 := fun h => hclock (by simp [h])
    have hswept : ua.swept clock = ua.written (.invites fun invites =>
        invites.filter fun i => i.isLive clock.evict) := by
      unfold swept
      simp only [hclock, decide_false, Bool.false_or]
      rfl
    rw [hswept]
    exact ua.andThen_mutate commits _ f

/-- A call that failed has at most swept. -/
def Refused (clock : Readings) (r : Except String α × UserAuthority) : Prop :=
  ∃ e ua', r = (.error e, ua') ∧ (ua' = ua ∨ ua' = ua.swept clock)

theorem refused_here {clock : Readings} {r : Except String α × UserAuthority} {e : String}
    (h : r = (.error e, ua)) : ua.Refused clock r := ⟨e, ua, h, Or.inl rfl⟩

theorem refused_swept {clock : Readings} {r : Except String α × UserAuthority} {e : String}
    (h : r = (.error e, ua.swept clock)) : ua.Refused clock r :=
  ⟨e, ua.swept clock, h, Or.inr rfl⟩

end Steps

section Calls
variable {k : Crypto} (ua : UserAuthority) {clock : Readings}

theorem checkNameAvailable_ok {ua : UserAuthority} {username : String}
    (h : ua.checkNameAvailable username = .ok ()) :
    (∀ u ∈ ua.log.users, u.username ≠ username) ∧ ∀ i ∈ ua.invites, i.username ≠ username := by
  unfold checkNameAvailable at h
  split at h
  · cases h
  split at h
  · cases h
  split at h
  · cases h
  rename_i hfree
  split at h
  · cases h
  rename_i huninvited
  refine ⟨?_, ?_⟩
  · intro u hu hname
    exact hfree (List.any_eq_true.mpr ⟨u, hu, decide_eq_true hname⟩)
  · intro i hi hname
    exact huninvited (List.any_eq_true.mpr ⟨i, hi, decide_eq_true hname⟩)

theorem checkInvite_ok {ua : UserAuthority} {username : String}
    {sessionTtlSecs inviteTtlSecs ttl : Nat}
    (h : ua.checkInvite username sessionTtlSecs inviteTtlSecs = .ok ttl) :
    ua.checkNameAvailable username = .ok () ∧ ua.invites.length < maxPendingInvites ∧
      ttl = if sessionTtlSecs = 0 then defaultSessionTtlSecs else sessionTtlSecs := by
  obtain ⟨_, hname, h⟩ := exists_of_bind_ok h
  obtain ⟨_, hroom, h⟩ := exists_of_bind_ok h
  obtain ⟨_, _, h⟩ := exists_of_bind_ok h
  obtain ⟨_, _, h⟩ := exists_of_bind_ok h
  refine ⟨hname, ?_, (Except.ok.inj h).symm⟩
  split at hroom
  · cases hroom
  · omega

/-- A mint puts one pending invitation on the file, behind those that are left. -/
theorem createUserInvite_cases (commits : Commits) (username : String) (role : UserRole)
    (sessionTtlSecs inviteTtlSecs : Nat) (token : String) (totpSecret : Bytes) :
    let r := ua.createUserInvite k clock commits username role sessionTtlSecs inviteTtlSecs token
      totpSecret
    ua.Refused clock r ∨ ∃ ttl expiresAt,
      (ua.swept clock).checkInvite username sessionTtlSecs inviteTtlSecs = .ok ttl ∧
      r = (.ok ⟨username, token, expiresAt⟩, { ua.swept clock with
        invites := (ua.swept clock).invites ++ [UserInvite.new username role ttl
          (inviteTokenHash k token) totpSecret clock.stamp expiresAt] }) := by
  dsimp only
  unfold createUserInvite
  split
  · exact Or.inl (ua.refused_here rfl)
  rcases ua.andThen_evict clock commits.onTheWay _ with h | h <;> rw [h]
  · exact Or.inl (ua.refused_here rfl)
  rcases (ua.swept clock).andThen_check
    ((ua.swept clock).checkInvite username sessionTtlSecs inviteTtlSecs) _ with
    ⟨_, h⟩ | ⟨ttl, hcheck, h⟩ <;> rw [h]
  · exact Or.inl (ua.refused_swept rfl)
  dsimp only
  rcases (ua.swept clock).andThen_mutate commits.final _ _ with h | h <;> rw [h]
  · exact Or.inl (ua.refused_swept rfl)
  · exact Or.inr ⟨ttl, _, hcheck, rfl⟩

/-- A start reveals the second factor of the pending invitation its token finds first. -/
theorem beginUserRegistration_cases (commits : Commits) (token handle : String) :
    let r := ua.beginUserRegistration k clock commits token handle
    let handleExpiresAt := saturatingAdd64 clock.now registrationHandleTtlSecs
    ua.Refused clock r ∨ ∃ i, clock.guard ≠ 0 ∧
      ((ua.swept clock).invites.find? fun i => i.tokenMatches (inviteTokenHash k token)) = some i ∧
      i.status = .pending ∧
      r = (.ok ⟨i.username, totpEnrolmentUri totpIssuer i.username i.totpSecret, handle,
        handleExpiresAt⟩, { ua.swept clock with
          invites := (ua.swept clock).invites.lookmap (startInvite (inviteTokenHash k token)
            (registrationHandleHash k handle) clock.now handleExpiresAt) }) := by
  dsimp only
  unfold beginUserRegistration
  split
  · exact Or.inl (ua.refused_here rfl)
  rename_i hclock
  rcases ua.andThen_evict clock commits.onTheWay _ with h | h <;> rw [h]
  · exact Or.inl (ua.refused_here rfl)
  dsimp only
  split
  · cases hfound : ((ua.swept clock).invites.find? fun i =>
        i.tokenMatches (inviteTokenHash k token)).filter fun i => i.status = .pending with
    | none =>
      rcases (ua.swept clock).andThen_mutate commits.final _ _ with h | h <;> rw [h]
      · exact Or.inl (ua.refused_swept rfl)
      · exact Or.inl (ua.refused_swept rfl)
    | some i =>
      rcases (ua.swept clock).andThen_mutate commits.final _ _ with h | h <;> rw [h]
      · exact Or.inl (ua.refused_swept rfl)
      · obtain ⟨hfind, hpending⟩ := Option.filter_eq_some_iff.mp hfound
        exact Or.inr ⟨i, hclock, hfind, of_decide_eq_true hpending, rfl⟩
  · exact Or.inl (ua.refused_swept rfl)

/-- A completion makes one account and takes the invitations under its name off the file. -/
theorem completeUserRegistration_cases (cr : Credentials) (commits : Commits)
    (handle password totpCode : String) (id : AccountId) (hashed : Except String String) :
    let r := ua.completeUserRegistration k cr clock commits handle password totpCode id hashed
    ua.Refused clock r ∨ ∃ user, clock.guard ≠ 0 ∧
      (ua.swept clock).registrant k cr clock.now handle password totpCode id hashed = .ok user ∧
      (∀ u ∈ ua.log.users, u.username ≠ user.username) ∧
      r = (.ok (), { ua.swept clock with
        log := { ua.log with users := ua.log.users ++ [user] }
        invites := (ua.swept clock).invites.filter fun i => i.username ≠ user.username }) := by
  dsimp only
  unfold completeUserRegistration
  split
  · exact Or.inl (ua.refused_here rfl)
  rename_i hclock
  rcases ua.andThen_evict clock commits.onTheWay _ with h | h <;> rw [h]
  · exact Or.inl (ua.refused_here rfl)
  rcases (ua.swept clock).andThen_check
    ((ua.swept clock).registrant k cr clock.now handle password totpCode id hashed) _ with
    ⟨_, h⟩ | ⟨user, huser, h⟩ <;> rw [h]
  · exact Or.inl (ua.refused_swept rfl)
  dsimp only
  cases htaken : (ua.swept clock).log.users.any fun u => u.username = user.username with
  | true =>
    rcases (ua.swept clock).andThen_mutate commits.final _ _ with h | h <;> rw [h]
    · exact Or.inl (ua.refused_swept rfl)
    · exact Or.inl (ua.refused_swept rfl)
  | false =>
    rcases (ua.swept clock).andThen_mutate commits.final _ _ with h | h <;> rw [h]
    · exact Or.inl (ua.refused_swept rfl)
    · refine Or.inr ⟨user, hclock, huser, ?_, rfl⟩
      intro u hu hname
      have htaken := List.any_eq_false.mp htaken u hu
      exact htaken (decide_eq_true hname)

theorem createUser_cases (commits : Commits) (username password : String) (admin : Bool)
    (sessionTtlSecs : Nat) (noTotp : Bool) (id : AccountId) (hashed : Except String String)
    (totpSecret : Bytes) :
    let r := ua.createUser clock commits username password admin sessionTtlSecs noTotp id hashed
      totpSecret
    ua.Refused clock r ∨ ∃ user,
      (ua.swept clock).checkNameAvailable user.username = .ok () ∧
      r.2 = { ua.swept clock with log := { ua.log with users := ua.log.users ++ [user] } } := by
  dsimp only
  unfold createUser
  rcases ua.andThen_check
    (ua.newUser username password admin sessionTtlSecs noTotp id hashed totpSecret) _ with
    ⟨_, h⟩ | ⟨user, _, h⟩ <;> rw [h]
  · exact Or.inl (ua.refused_here rfl)
  dsimp only
  unfold addUser
  rcases ua.andThen_evict clock commits.onTheWay _ with h | h <;> rw [h]
  · exact Or.inl (ua.refused_here rfl)
  rcases (ua.swept clock).andThen_check ((ua.swept clock).checkNameAvailable user.username) _ with
    ⟨_, h⟩ | ⟨_, hname, h⟩ <;> rw [h]
  · exact Or.inl (ua.refused_swept rfl)
  rcases (ua.swept clock).andThen_mutate commits.final _ _ with h | h <;> rw [h]
  · exact Or.inl (ua.refused_swept rfl)
  · exact Or.inr ⟨user, hname, rfl⟩

theorem revokeUserInvite_cases (commits : Commits) (username : String) :
    (ua.revokeUserInvite commits username).2 = ua ∨
      (ua.revokeUserInvite commits username).2 =
        { ua with invites := ua.invites.filter fun i => i.username ≠ username } := by
  unfold revokeUserInvite
  dsimp only
  rcases ua.andThen_mutate commits.final _ _ with h | h <;> rw [h]
  · exact Or.inl rfl
  · right
    split
    · rfl
    · rfl

theorem setUserPassword_cases (commits : Commits) (username password : String)
    (hashed : Except String String) :
    (ua.setUserPassword commits username password hashed).2 = ua ∨
      (ua.setUserPassword commits username password hashed).2 = { ua with
        log := { ua.log with users := ua.log.users.lookmap fun u =>
          if u.username = username then some (u.setPassword password hashed).2 else none } } := by
  unfold setUserPassword
  split
  · exact Or.inl rfl
  · rcases ua.andThen_mutate commits.final _ _ with h | h <;> rw [h]
    · exact Or.inl rfl
    · exact Or.inr rfl

end Calls

end UserAuthority

end Wayfinder
