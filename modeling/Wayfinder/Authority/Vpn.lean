import Wayfinder.Auth.Cert
import Wayfinder.Lib.Run

/-!
# Revoking a device from the VPN

A revocation lists the registered nodes, deletes those of the device one by one, looks its
user up and deletes it with every key not spent yet. Each of these is a call of its own to the
coordination server, while devices register there with the keys they were given.
-/

namespace Wayfinder

set_option autoImplicit false

/-! ### Names on the coordination server -/

def hexDigits : Bytes := ascii "0123456789abcdef"

def hexDigit (n : Nat) : U8 := hexDigits.getD n 0

def hexByte (b : U8) : Bytes := [hexDigit (b.toNat / 16), hexDigit (b.toNat % 16)]

def hostnameFor (mac : Mac) : Bytes := mac.asBytes.flatMap hexByte

def hexNibble (b : U8) : Option U8 :=
  if 0x30 ≤ b ∧ b ≤ 0x39 then some (b - 0x30)
  else if 0x61 ≤ b ∧ b ≤ 0x66 then some (b - 0x61 + 10)
  else none

def byteFromHex (hi lo : U8) : Option U8 :=
  (hexNibble hi).bind fun h => (hexNibble lo).map fun l => h <<< 4 ||| l

/-- Exactly twelve lowercase hexadecimal digits. -/
def macFromHostname : Bytes → Option Mac
  | [a, a', b, b', c, c', d, d', e, e', f, f'] => do
    some ⟨← byteFromHex a a', ← byteFromHex b b', ← byteFromHex c c', ← byteFromHex d d',
      ← byteFromHex e e', ← byteFromHex f f'⟩
  | _ => none

theorem byteFromHex_hexByte (b : U8) :
    byteFromHex (hexDigit (b.toNat / 16)) (hexDigit (b.toNat % 16)) = some b := by
  revert b
  decide +kernel

theorem macFromHostname_hostnameFor (mac : Mac) : macFromHostname (hostnameFor mac) = some mac := by
  cases mac
  simp [hostnameFor, Mac.asBytes, hexByte, macFromHostname, byteFromHex_hexByte]

structure HeadscaleUser where
  id : Bytes
  name : Bytes
  deriving DecidableEq

structure HeadscaleNode where
  id : Bytes
  givenName : Bytes
  user : Option HeadscaleUser
  preAuthKeyUser : Option HeadscaleUser
  deriving DecidableEq

def nodeMac (node : HeadscaleNode) : Option Mac :=
  ((node.preAuthKeyUser.bind fun u => macFromHostname u.name).or
    (node.user.bind fun u => macFromHostname u.name)).or (macFromHostname node.givenName)

inductive VpnError where
  | unreachable (text : Bytes)
  | malformed (text : Bytes)
  deriving DecidableEq

/-! ### The server -/

structure UnspentKey where
  key : Bytes
  user : HeadscaleUser
  tagged : Bool
  deriving DecidableEq

/-- The owner of every tagged node. -/
def taggedDevices : HeadscaleUser := ⟨[], ascii "tagged-devices"⟩

/-- What registers when a device spends this key. -/
def UnspentKey.registered (k : UnspentKey) (id givenName : Bytes) : HeadscaleNode :=
  ⟨id, givenName, some (if k.tagged then taggedDevices else k.user), some k.user⟩

/-- A coordination server: what it holds, what its calls do, and what it promises of them.
Names of users are unique and keys belong to users. A deletion of what is not there is answered
like any other. With a user go its unspent keys and no node, and an id once given to a node is
not given again. -/
structure CoordinationServer (σ : Type) where
  users : σ → List HeadscaleUser
  keys : σ → List UnspentKey
  nodes : σ → List HeadscaleNode
  usedIds : σ → List Bytes
  usersNamed : σ → Bytes → List HeadscaleUser
  deleteNode : σ → Bytes → σ
  deleteUser : σ → Bytes → σ
  createUser : σ → Bytes → Mac → σ
  mint : σ → Bytes → Mac → σ
  register : σ → Bytes → Bytes → Bytes → σ
  names_unique : ∀ s, ((users s).map HeadscaleUser.name).Nodup
  keys_owned : ∀ s, ∀ k ∈ keys s, k.user ∈ users s
  ids_used : ∀ s, ∀ n ∈ nodes s, n.id ∈ usedIds s
  mem_usersNamed : ∀ s name u, u ∈ usersNamed s name ↔ u ∈ users s ∧ u.name = name
  deleteNode_nodes : ∀ s id n, n ∈ nodes (deleteNode s id) ↔ n ∈ nodes s ∧ n.id ≠ id
  deleteNode_rest : ∀ s id, users (deleteNode s id) = users s ∧
    keys (deleteNode s id) = keys s ∧ usedIds (deleteNode s id) = usedIds s
  deleteUser_keys : ∀ s id k, k ∈ keys (deleteUser s id) ↔ k ∈ keys s ∧ k.user.id ≠ id
  deleteUser_rest : ∀ s id, nodes (deleteUser s id) = nodes s ∧
    usedIds (deleteUser s id) = usedIds s
  createUser_users : ∀ s id mac, ∀ u ∈ users (createUser s id mac),
    u ∈ users s ∨ u.name = hostnameFor mac
  createUser_rest : ∀ s id mac, keys (createUser s id mac) = keys s ∧
    nodes (createUser s id mac) = nodes s ∧ usedIds (createUser s id mac) = usedIds s
  mint_keys : ∀ s key mac, ∀ k ∈ keys (mint s key mac), k ∈ keys s ∨ k.user.name = hostnameFor mac
  mint_rest : ∀ s key mac, users (mint s key mac) = users s ∧
    nodes (mint s key mac) = nodes s ∧ usedIds (mint s key mac) = usedIds s
  register_cases : ∀ s key id givenName, register s key id givenName = s ∨
    ∃ k ∈ keys s, id ∉ usedIds s ∧
      nodes (register s key id givenName) = nodes s ++ [k.registered id givenName] ∧
      users (register s key id givenName) = users s ∧
      keys (register s key id givenName) ⊆ keys s ∧
      usedIds s ⊆ usedIds (register s key id givenName)

namespace CoordinationServer

variable {σ : Type}

def listNodes (c : CoordinationServer σ) (s : σ) : List HeadscaleNode := c.nodes s

/-- The first of the users a query by name answers with. -/
def findUser (c : CoordinationServer σ) (s : σ) (name : Bytes) : Option HeadscaleUser :=
  (c.usersNamed s name).head?

/-- No node of the device is registered, and no key minted for it is left. -/
structure Reaped (c : CoordinationServer σ) (s : σ) (mac : Mac) : Prop where
  nodes : ∀ n ∈ c.nodes s, nodeMac n ≠ some mac
  keys : ∀ k ∈ c.keys s, k.user.name ≠ hostnameFor mac

end CoordinationServer

/-! ### A server in memory -/

structure Headscale where
  users : List HeadscaleUser
  keys : List UnspentKey
  nodes : List HeadscaleNode
  usedIds : List Bytes
  named : (users.map HeadscaleUser.name).Nodup
  owned : ∀ k ∈ keys, k.user ∈ users
  used : ∀ n ∈ nodes, n.id ∈ usedIds

namespace Headscale

def deleteNode (s : Headscale) (id : Bytes) : Headscale :=
  { s with
    nodes := s.nodes.filter fun n => n.id ≠ id
    used := by
      intro n hn
      exact s.used n (List.mem_filter.mp hn).1 }

/-- The user's keys go with it, the nodes registered with spent ones stay. -/
def deleteUser (s : Headscale) (id : Bytes) : Headscale :=
  { s with
    users := s.users.filter fun u => u.id ≠ id
    keys := s.keys.filter fun k => k.user.id ≠ id
    named := s.named.sublist ((List.filter_sublist).map _)
    owned := by
      intro k hk
      obtain ⟨hk, hid⟩ := List.mem_filter.mp hk
      exact List.mem_filter.mpr ⟨s.owned k hk, hid⟩ }

/-- Two enrollments of one device may both find it without a user; the second loses. -/
def createUser (s : Headscale) (id : Bytes) (mac : Mac) : Headscale :=
  if htaken : hostnameFor mac ∈ s.users.map HeadscaleUser.name then s
  else
    { s with
      users := s.users ++ [⟨id, hostnameFor mac⟩]
      named := by
        rw [List.map_append]
        refine List.nodup_append'.mpr ⟨s.named, by simp, ?_⟩
        simpa using htaken
      owned := by
        intro k hk
        exact List.mem_append_left _ (s.owned k hk) }

/-- A key for the device's user, which registers under the tag of the mesh. -/
def mint (s : Headscale) (key : Bytes) (mac : Mac) : Headscale :=
  match hfind : s.users.find? fun u => u.name = hostnameFor mac with
  | none => s
  | some user =>
    { s with
      keys := s.keys ++ [⟨key, user, true⟩]
      owned := by
        intro k hk
        rcases List.mem_append.mp hk with hk | hk
        · exact s.owned k hk
        · obtain rfl := List.mem_singleton.mp hk
          exact List.mem_of_find?_eq_some hfind }

/-- A device registers under its own name, with a key that is known and not spent. -/
def register (s : Headscale) (key id givenName : Bytes) : Headscale :=
  match hfind : s.keys.find? fun k => k.key = key with
  | none => s
  | some k =>
    if id ∈ s.usedIds then s
    else
      { s with
        keys := s.keys.filter fun k => k.key ≠ key
        nodes := s.nodes ++ [k.registered id givenName]
        usedIds := id :: s.usedIds
        owned := by
          intro k hk
          exact s.owned k (List.mem_filter.mp hk).1
        used := by
          intro n hn
          rcases List.mem_append.mp hn with hn | hn
          · exact List.mem_cons_of_mem _ (s.used n hn)
          · obtain rfl := List.mem_singleton.mp hn
            exact List.mem_cons_self }

theorem createUser_users (s : Headscale) (id : Bytes) (mac : Mac) :
    s.createUser id mac = s ∨ ((s.createUser id mac).users = s.users ++ [⟨id, hostnameFor mac⟩] ∧
      (s.createUser id mac).keys = s.keys ∧ (s.createUser id mac).nodes = s.nodes ∧
      (s.createUser id mac).usedIds = s.usedIds) := by
  unfold createUser
  split
  · exact Or.inl rfl
  · exact Or.inr ⟨rfl, rfl, rfl, rfl⟩

theorem mint_keys (s : Headscale) (key : Bytes) (mac : Mac) :
    s.mint key mac = s ∨ ∃ user : HeadscaleUser, user.name = hostnameFor mac ∧
      (s.mint key mac).keys = s.keys ++ [⟨key, user, true⟩] ∧
      (s.mint key mac).users = s.users ∧ (s.mint key mac).nodes = s.nodes ∧
      (s.mint key mac).usedIds = s.usedIds := by
  unfold mint
  split
  · exact Or.inl rfl
  · rename_i user hfind
    have hname := List.find?_some hfind
    exact Or.inr ⟨user, by simpa using hname, rfl, rfl, rfl, rfl⟩

theorem register_cases (s : Headscale) (key id givenName : Bytes) :
    s.register key id givenName = s ∨ ∃ k ∈ s.keys, id ∉ s.usedIds ∧
      (s.register key id givenName).nodes = s.nodes ++ [k.registered id givenName] ∧
      (s.register key id givenName).users = s.users ∧
      (s.register key id givenName).keys ⊆ s.keys ∧
      s.usedIds ⊆ (s.register key id givenName).usedIds := by
  unfold register
  split
  · exact Or.inl rfl
  · rename_i k hfind
    split
    · exact Or.inl rfl
    · rename_i hnew
      exact Or.inr ⟨k, List.mem_of_find?_eq_some hfind, hnew, rfl, rfl,
        fun _ h => (List.mem_filter.mp h).1, List.subset_cons_self _ _⟩

end Headscale

def headscale : CoordinationServer Headscale where
  users := Headscale.users
  keys := Headscale.keys
  nodes := Headscale.nodes
  usedIds := Headscale.usedIds
  usersNamed s name := s.users.filter fun u => u.name = name
  deleteNode := Headscale.deleteNode
  deleteUser := Headscale.deleteUser
  createUser := Headscale.createUser
  mint := Headscale.mint
  register := Headscale.register
  names_unique := Headscale.named
  keys_owned := Headscale.owned
  ids_used := Headscale.used
  mem_usersNamed s name u := by
    rw [List.mem_filter, decide_eq_true_eq]
  deleteNode_nodes s id n := by
    rw [Headscale.deleteNode, List.mem_filter, decide_eq_true_eq]
  deleteNode_rest _ _ := ⟨rfl, rfl, rfl⟩
  deleteUser_keys s id k := by
    rw [Headscale.deleteUser, List.mem_filter, decide_eq_true_eq]
  deleteUser_rest _ _ := ⟨rfl, rfl⟩
  createUser_users := by
    intro s id mac u hu
    rcases s.createUser_users id mac with hsame | ⟨husers, -⟩
    · rw [hsame] at hu
      exact .inl hu
    · rw [husers] at hu
      rcases List.mem_append.mp hu with hold | hnew
      · exact .inl hold
      · obtain rfl := List.mem_singleton.mp hnew
        exact .inr rfl
  createUser_rest := by
    intro s id mac
    rcases s.createUser_users id mac with hsame | ⟨-, hrest⟩
    · rw [hsame]
      exact ⟨rfl, rfl, rfl⟩
    · exact hrest
  mint_keys := by
    intro s key mac k hk
    rcases s.mint_keys key mac with hsame | ⟨user, hname, hkeys, -⟩
    · rw [hsame] at hk
      exact .inl hk
    · rw [hkeys] at hk
      rcases List.mem_append.mp hk with hold | hnew
      · exact .inl hold
      · obtain rfl := List.mem_singleton.mp hnew
        exact .inr hname
  mint_rest := by
    intro s key mac
    rcases s.mint_keys key mac with hsame | ⟨-, -, -, hrest⟩
    · rw [hsame]
      exact ⟨rfl, rfl, rfl⟩
    · exact hrest
  register_cases := Headscale.register_cases

/-! ### The revocation, call by call -/

/-- What the revocation does next. -/
inductive RevokePhase where
  | listing
  | deleting (rest : List HeadscaleNode)
  | finding
  | deletingUser (id : Bytes)
  | done (result : Except VpnError Unit)
  deriving DecidableEq

/-- A call is answered, a deletion of what is gone already like any other, or fails with an error before it reaches the server, or behind it. -/
inductive CallFate where
  | served
  | refused (err : VpnError)
  | unanswered (err : VpnError)

/-- The revocation makes its next call, a device registers, or an enrollment makes a call. -/
inductive VpnOp where
  | call (fate : CallFate)
  | register (key id givenName : Bytes)
  | createUser (id : Bytes) (mac : Mac)
  | mint (key : Bytes) (mac : Mac)

def VpnOp.enrolls : VpnOp → Option Mac
  | .createUser _ mac => some mac
  | .mint _ mac => some mac
  | _ => none

structure Revocation (σ : Type) where
  server : σ
  phase : RevokePhase

namespace Revocation

variable {σ : Type}

def noIdText (mac : Mac) : Bytes :=
  ascii "coordination server reported a node for " ++ hostnameFor mac ++ ascii " with no id"

/-- The loop over the listed nodes up to its next call. -/
def nextDeletion (mac : Mac) : List HeadscaleNode → RevokePhase
  | [] => .finding
  | node :: rest =>
    if nodeMac node ≠ some mac then nextDeletion mac rest
    else if node.id.isEmpty then .done (.error (.malformed (noIdText mac)))
    else .deleting (node :: rest)

/-- The next call, answered, and where the revocation goes from there. -/
def serve (c : CoordinationServer σ) (mac : Mac) (r : Revocation σ) : Revocation σ :=
  match r.phase with
  | .listing => { r with phase := nextDeletion mac (c.listNodes r.server) }
  | .deleting [] => { r with phase := .finding }
  | .deleting (node :: rest) => ⟨c.deleteNode r.server node.id, nextDeletion mac rest⟩
  | .finding =>
    match c.findUser r.server (hostnameFor mac) with
    | none => { r with phase := .done (.ok ()) }
    | some user => { r with phase := .deletingUser user.id }
  | .deletingUser id => ⟨c.deleteUser r.server id, .done (.ok ())⟩
  | .done _ => r

def failed (r : Revocation σ) (err : VpnError) : RevokePhase :=
  match r.phase with
  | .done result => .done result
  | _ => .done (.error err)

def step (c : CoordinationServer σ) (mac : Mac) (r : Revocation σ) : VpnOp → Revocation σ
  | .call .served => r.serve c mac
  | .call (.refused err) => { r with phase := r.failed err }
  | .call (.unanswered err) => { r.serve c mac with phase := r.failed err }
  | .register key id givenName => { r with server := c.register r.server key id givenName }
  | .createUser id other => { r with server := c.createUser r.server id other }
  | .mint key other => { r with server := c.mint r.server key other }

def run (c : CoordinationServer σ) (mac : Mac) (s : σ) (ops : List VpnOp) : Revocation σ :=
  Run.run (step c mac) ⟨s, .listing⟩ ops

/-- Once the nodes are listed, none that belongs to the device registers. -/
def ListedLast (c : CoordinationServer σ) (mac : Mac) (r : Revocation σ) : VpnOp → Prop
  | .register key id givenName => r.phase = .listing ∨
      ∀ n ∈ c.nodes (c.register r.server key id givenName), n ∉ c.nodes r.server →
        nodeMac n ≠ some mac
  | _ => True

instance (c : CoordinationServer σ) (mac : Mac) (r : Revocation σ) :
    (op : VpnOp) → Decidable (r.ListedLast c mac op)
  | .call _ => .isTrue trivial
  | .register key id givenName =>
    inferInstanceAs (Decidable (_ ∨ ∀ n ∈ c.nodes (c.register r.server key id givenName), _ → _))
  | .createUser _ _ => .isTrue trivial
  | .mint _ _ => .isTrue trivial

/-! ### What is still to be deleted -/

def pending (r : Revocation σ) : List HeadscaleNode :=
  match r.phase with
  | .deleting rest => rest
  | _ => []

section Step
variable {c : CoordinationServer σ} {mac : Mac} {r : Revocation σ} {rest : List HeadscaleNode} {n : HeadscaleNode}

theorem nextDeletion_cases (mac : Mac) (rest : List HeadscaleNode) :
    (nextDeletion mac rest = .finding ∧ ∀ n ∈ rest, nodeMac n ≠ some mac) ∨
    nextDeletion mac rest = .done (.error (.malformed (noIdText mac))) ∨
    ∃ node later, nextDeletion mac rest = .deleting (node :: later) ∧ node :: later ⊆ rest ∧
      ∀ n ∈ rest, nodeMac n = some mac → n ∈ node :: later := by
  induction rest with
  | nil => exact Or.inl ⟨rfl, fun n hn => by cases hn⟩
  | cons node rest ih =>
    rw [nextDeletion]
    split
    · rename_i hother
      rcases ih with ⟨heq, hnone⟩ | heq | ⟨node', later, heq, hsub, hall⟩
      · exact Or.inl ⟨heq, List.forall_mem_cons.mpr ⟨hother, hnone⟩⟩
      · exact Or.inr (Or.inl heq)
      · refine Or.inr (Or.inr ⟨node', later, heq, List.subset_cons_of_subset _ hsub, ?_⟩)
        intro n hn hmac
        rcases List.mem_cons.mp hn with rfl | hn
        · exact absurd hmac hother
        · exact hall n hn hmac
    · split
      · exact Or.inr (Or.inl rfl)
      · exact Or.inr (Or.inr ⟨node, rest, rfl, List.Subset.refl _, fun n hn _ => hn⟩)

theorem step_enrolls {op : VpnOp} {other : Mac} (h : op.enrolls = some other) :
    (r.step c mac op).phase = r.phase ∧ c.nodes (r.step c mac op).server = c.nodes r.server ∧
      c.usedIds (r.step c mac op).server = c.usedIds r.server := by
  cases op with
  | call fate => cases h
  | register key id givenName => cases h
  | createUser id mac =>
    obtain ⟨-, hnodes, hused⟩ := c.createUser_rest r.server id mac
    exact ⟨rfl, hnodes, hused⟩
  | mint key mac =>
    obtain ⟨-, hnodes, hused⟩ := c.mint_rest r.server key mac
    exact ⟨rfl, hnodes, hused⟩

theorem pending_of_phase {r' : Revocation σ} (h : r'.phase = r.phase) : r'.pending = r.pending := by
  rw [pending, pending, h]

theorem failed_cases (r : Revocation σ) (err : VpnError) :
    (∃ result, r.phase = .done result ∧ r.failed err = .done result) ∨
      r.failed err = .done (.error err) := by
  unfold failed
  split
  · rename_i result hphase
    exact Or.inl ⟨result, hphase, rfl⟩
  · exact Or.inr rfl

theorem step_failed {op : VpnOp} {err : VpnError}
    (hop : op = .call (.refused err) ∨ op = .call (.unanswered err)) :
    r.step c mac op = r ∨ (r.step c mac op).phase = .done (.error err) := by
  rcases failed_cases r err with ⟨result, hphase, heq⟩ | heq
  · left
    have hserve : r.serve c mac = r := by
      unfold serve
      rw [hphase]
    rcases hop with rfl | rfl
    · rw [step, heq, ← hphase]
    · rw [step, hserve, heq, ← hphase]
  · right
    rcases hop with rfl | rfl
    · exact heq
    · exact heq

/-! ### The keys -/

/-- The user to be deleted is the one the keys were minted for, and in the end none is left. -/
structure KeysReaped (c : CoordinationServer σ) (mac : Mac) (r : Revocation σ) : Prop where
  user : ∀ id, r.phase = .deletingUser id → ∀ u ∈ c.users r.server,
    u.name = hostnameFor mac → u.id = id
  keys : r.phase = .done (.ok ()) → ∀ k ∈ c.keys r.server, k.user.name ≠ hostnameFor mac

theorem keysReaped_of_phase (hdeleting : ∀ id, r.phase ≠ .deletingUser id)
    (hdone : r.phase ≠ .done (.ok ())) : KeysReaped c mac r :=
  ⟨fun id h => absurd h (hdeleting id), fun h => absurd h hdone⟩

theorem nextDeletion_ne (mac : Mac) (rest : List HeadscaleNode) :
    (∀ id, nextDeletion mac rest ≠ .deletingUser id) ∧ nextDeletion mac rest ≠ .done (.ok ()) ∧
      nextDeletion mac rest ≠ .listing := by
  rcases nextDeletion_cases mac rest with ⟨heq, _⟩ | heq | ⟨_, _, heq, _⟩
  · rw [heq]
    simp
  · rw [heq]
    simp
  · rw [heq]
    simp

theorem findUser_eq_none {s : σ} {name : Bytes} (h : c.findUser s name = none) :
    ∀ u ∈ c.users s, u.name ≠ name := by
  intro u hu hname
  have hmem := (c.mem_usersNamed s name u).mpr ⟨hu, hname⟩
  rw [List.head?_eq_none_iff.mp h] at hmem
  cases hmem

theorem eq_of_findUser {s : σ} {name : Bytes} {user u : HeadscaleUser}
    (h : c.findUser s name = some user) (hu : u ∈ c.users s) (hname : u.name = name) :
    u = user := by
  obtain ⟨huser, hname'⟩ := (c.mem_usersNamed s name user).mp (List.mem_of_mem_head? h)
  exact List.inj_on_of_nodup_map (c.names_unique s) hu huser (hname.trans hname'.symm)

theorem KeysReaped.serve (h : KeysReaped c mac r) : KeysReaped c mac (r.serve c mac) := by
  unfold Revocation.serve
  split
  · obtain ⟨hdeleting, hdone, _⟩ := nextDeletion_ne mac (c.listNodes r.server)
    exact keysReaped_of_phase hdeleting hdone
  · exact keysReaped_of_phase (by simp) (by simp)
  · rename_i node rest _
    obtain ⟨hdeleting, hdone, _⟩ := nextDeletion_ne mac rest
    exact keysReaped_of_phase hdeleting hdone
  · split
    · rename_i hnone
      constructor
      · intro id hid
        cases hid
      · intro _ k hk
        exact findUser_eq_none hnone k.user (c.keys_owned r.server k hk)
    · rename_i user hsome
      constructor
      · intro id hid u hu hname
        obtain rfl := RevokePhase.deletingUser.inj hid
        rw [eq_of_findUser hsome hu hname]
      · intro hdone
        cases hdone
  · rename_i id hphase
    constructor
    · intro id' hid
      cases hid
    · intro _ k hk hname
      obtain ⟨hk, hid⟩ := (c.deleteUser_keys r.server id k).mp hk
      exact hid (h.user id hphase k.user (c.keys_owned r.server k hk) hname)
  · exact h

theorem hostnameFor_ne {other : Mac} (h : other ≠ mac) : hostnameFor other ≠ hostnameFor mac := by
  intro heq
  apply h
  have hread := congrArg macFromHostname heq
  rw [macFromHostname_hostnameFor, macFromHostname_hostnameFor] at hread
  exact Option.some.inj hread

theorem KeysReaped.step (h : KeysReaped c mac r) (op : VpnOp) (hother : op.enrolls ≠ some mac) :
    KeysReaped c mac (r.step c mac op) := by
  have hfailed : ∀ op err, op = .call (.refused err) ∨ op = .call (.unanswered err) →
      KeysReaped c mac (r.step c mac op) := by
    intro op err hop
    rcases step_failed hop with heq | hphase
    · rw [heq]
      exact h
    · exact keysReaped_of_phase (by simp [hphase]) (by simp [hphase])
  cases op with
  | call fate =>
    cases fate with
    | served => exact h.serve
    | refused err => exact hfailed _ err (Or.inl rfl)
    | unanswered err => exact hfailed _ err (Or.inr rfl)
  | register key id givenName =>
    rw [Revocation.step]
    rcases c.register_cases r.server key id givenName with heq | ⟨k, _, _, _, husers, hkeys, _⟩
    · rw [heq]
      exact h
    · constructor
      · intro id hid u hu
        rw [husers] at hu
        exact h.user id hid u hu
      · intro hdone k hk
        exact h.keys hdone k (hkeys hk)
  | createUser id other =>
    rw [Revocation.step]
    have hne : other ≠ mac := fun heq => hother (congrArg some heq)
    constructor
    · intro found hid u hu hname
      rcases c.createUser_users r.server id other u hu with hu | hname'
      · exact h.user found hid u hu hname
      · exact absurd (hname'.symm.trans hname) (hostnameFor_ne hne)
    · intro hdone k hk
      rw [(c.createUser_rest r.server id other).1] at hk
      exact h.keys hdone k hk
  | mint key other =>
    rw [Revocation.step]
    have hne : other ≠ mac := fun heq => hother (congrArg some heq)
    constructor
    · intro found hid u hu
      rw [(c.mint_rest r.server key other).1] at hu
      exact h.user found hid u hu
    · intro hdone k hk
      rcases c.mint_keys r.server key other k hk with hk | hname
      · exact h.keys hdone k hk
      · rw [hname]
        exact hostnameFor_ne hne

/-! ### The nodes -/

/-- The device's nodes are all among those still to be deleted. -/
def NodesListed (c : CoordinationServer σ) (mac : Mac) (r : Revocation σ) : Prop :=
  r.phase = .listing ∨ (∃ err, r.phase = .done (.error err)) ∨
    ∀ n ∈ c.nodes r.server, nodeMac n = some mac → n ∈ r.pending

theorem nodesListed_nextDeletion {s : σ}
    (h : ∀ n ∈ c.nodes s, nodeMac n = some mac → n ∈ rest) :
    NodesListed c mac ⟨s, nextDeletion mac rest⟩ := by
  rcases nextDeletion_cases mac rest with ⟨heq, hnone⟩ | heq | ⟨node, later, heq, _, hall⟩
  · refine Or.inr (Or.inr ?_)
    intro n hn hmac
    exact absurd hmac (hnone n (h n hn hmac))
  · exact Or.inr (Or.inl ⟨_, heq⟩)
  · refine Or.inr (Or.inr ?_)
    intro n hn hmac
    rw [pending, heq]
    exact hall n (h n hn hmac) hmac

theorem nodesListed_of_pending {r' : Revocation σ} (h : NodesListed c mac r)
    (hlisting : r.phase ≠ .listing) (hdone : ∀ err, r.phase ≠ .done (.error err))
    (hnodes : c.nodes r'.server = c.nodes r.server) (hpending : r'.pending = r.pending) :
    NodesListed c mac r' := by
  rcases h with hphase | ⟨err, hphase⟩ | hlisted
  · exact absurd hphase hlisting
  · exact absurd hphase (hdone err)
  · refine Or.inr (Or.inr ?_)
    rw [hnodes, hpending]
    exact hlisted

theorem NodesListed.serve (h : NodesListed c mac r) : NodesListed c mac (r.serve c mac) := by
  unfold Revocation.serve
  split
  · exact nodesListed_nextDeletion fun n hn _ => hn
  · rename_i hphase
    apply nodesListed_of_pending h (by simp [hphase]) (by simp [hphase])
    · rfl
    · simp [pending, hphase]
  · rename_i node rest hphase
    have hlisted : ∀ n ∈ c.nodes r.server, nodeMac n = some mac → n ∈ node :: rest := by
      simpa [NodesListed, pending, hphase] using h
    apply nodesListed_nextDeletion
    intro n hn hmac
    obtain ⟨hn, hid⟩ := (c.deleteNode_nodes r.server node.id n).mp hn
    rcases List.mem_cons.mp (hlisted n hn hmac) with rfl | hrest
    · exact absurd rfl hid
    · exact hrest
  · rename_i hphase
    split
    · apply nodesListed_of_pending h (by simp [hphase]) (by simp [hphase])
      · rfl
      · simp [pending, hphase]
    · apply nodesListed_of_pending h (by simp [hphase]) (by simp [hphase])
      · rfl
      · simp [pending, hphase]
  · rename_i id hphase
    apply nodesListed_of_pending h (by simp [hphase]) (by simp [hphase])
    · exact (c.deleteUser_rest r.server id).1
    · simp [pending, hphase]
  · exact h

theorem NodesListed.of_enrolls (h : NodesListed c mac r) {op : VpnOp} {other : Mac}
    (hop : op.enrolls = some other) : NodesListed c mac (r.step c mac op) := by
  obtain ⟨hphase, hnodes, _⟩ := step_enrolls hop
  rw [NodesListed, hphase, hnodes, pending_of_phase hphase]
  exact h

theorem NodesListed.step (h : NodesListed c mac r) (op : VpnOp) (hsafe : r.ListedLast c mac op) :
    NodesListed c mac (r.step c mac op) := by
  have hfailed : ∀ op err, op = .call (.refused err) ∨ op = .call (.unanswered err) →
      NodesListed c mac (r.step c mac op) := by
    intro op err hop
    rcases step_failed hop with heq | hphase
    · rw [heq]
      exact h
    · exact Or.inr (Or.inl ⟨_, hphase⟩)
  cases op with
  | call fate =>
    cases fate with
    | served => exact h.serve
    | refused err => exact hfailed _ err (Or.inl rfl)
    | unanswered err => exact hfailed _ err (Or.inr rfl)
  | register key id givenName =>
    rcases h with hphase | ⟨err, hphase⟩ | hlisted
    · exact Or.inl hphase
    · exact Or.inr (Or.inl ⟨err, hphase⟩)
    · rcases hsafe with hphase | hother
      · exact Or.inl hphase
      · refine Or.inr (Or.inr ?_)
        intro n hn hmac
        by_cases hold : n ∈ c.nodes r.server
        · exact hlisted n hold hmac
        · exact absurd hmac (hother n hn hold)
  | createUser id other => exact h.of_enrolls rfl
  | mint key other => exact h.of_enrolls rfl

/-- The ids still to be deleted were given out already. -/
def PendingKnown (c : CoordinationServer σ) (r : Revocation σ) : Prop := ∀ n ∈ r.pending, n.id ∈ c.usedIds r.server

/-- A node of the device that the revocation will not delete any more. -/
structure Lost (c : CoordinationServer σ) (mac : Mac) (n : HeadscaleNode) (r : Revocation σ) :
    Prop where
  mac : nodeMac n = some mac
  registered : n ∈ c.nodes r.server
  listed : r.phase ≠ .listing
  other : ∀ m ∈ r.pending, m.id ≠ n.id

theorem pending_serve (c : CoordinationServer σ) (mac : Mac) (r : Revocation σ) :
    (r.phase = .listing ∧ (r.serve c mac).pending ⊆ c.nodes r.server) ∨
      (r.serve c mac).pending ⊆ r.pending := by
  have hnext : ∀ (s : σ) rest, Revocation.pending ⟨s, nextDeletion mac rest⟩ ⊆ rest := by
    intro s rest
    rcases nextDeletion_cases mac rest with ⟨heq, _⟩ | heq | ⟨node, later, heq, hsub, _⟩
    · simp [pending, heq]
    · simp [pending, heq]
    · simpa [pending, heq] using hsub
  unfold Revocation.serve
  split
  · rename_i hphase
    exact Or.inl ⟨hphase, hnext _ _⟩
  · simp [pending]
  · rename_i node rest hphase
    refine Or.inr fun n hn => ?_
    simp only [pending, hphase]
    exact List.mem_cons_of_mem _ (hnext _ _ hn)
  · split
    · simp [pending]
    · simp [pending]
  · simp [pending]
  · exact Or.inr (List.Subset.refl _)

theorem serve_frame (c : CoordinationServer σ) (mac : Mac) (r : Revocation σ) :
    c.usedIds (r.serve c mac).server = c.usedIds r.server ∧
      ∀ n ∈ c.nodes r.server, n ∉ c.nodes (r.serve c mac).server →
        ∃ m ∈ r.pending, m.id = n.id := by
  unfold Revocation.serve
  split
  · exact ⟨rfl, fun n hn hgone => absurd hn hgone⟩
  · exact ⟨rfl, fun n hn hgone => absurd hn hgone⟩
  · rename_i node rest hphase
    refine ⟨(c.deleteNode_rest r.server node.id).2.2,
      fun n hn hgone => ⟨node, by simp [pending, hphase], ?_⟩⟩
    by_contra hid
    exact hgone ((c.deleteNode_nodes r.server node.id n).mpr ⟨hn, Ne.symm hid⟩)
  · split
    · exact ⟨rfl, fun n hn hgone => absurd hn hgone⟩
    · exact ⟨rfl, fun n hn hgone => absurd hn hgone⟩
  · rename_i id _
    obtain ⟨hnodes, hused⟩ := c.deleteUser_rest r.server id
    refine ⟨hused, fun n hn hgone => absurd hn ?_⟩
    rw [hnodes] at hgone
    exact hgone
  · exact ⟨rfl, fun n hn hgone => absurd hn hgone⟩

theorem PendingKnown.serve (h : r.PendingKnown c) : (r.serve c mac).PendingKnown c := by
  intro n hn
  rw [(serve_frame c mac r).1]
  rcases pending_serve c mac r with ⟨_, hsub⟩ | hsub
  · exact c.ids_used r.server n (hsub hn)
  · exact h n (hsub hn)

theorem PendingKnown.of_enrolls (h : r.PendingKnown c) {op : VpnOp} {other : Mac}
    (hop : op.enrolls = some other) : (r.step c mac op).PendingKnown c := by
  obtain ⟨hphase, _, hused⟩ := step_enrolls hop
  rw [PendingKnown, hused, pending_of_phase hphase]
  exact h

theorem PendingKnown.step (h : r.PendingKnown c) (op : VpnOp) : (r.step c mac op).PendingKnown c := by
  have hfailed : ∀ op err, op = .call (.refused err) ∨ op = .call (.unanswered err) →
      (r.step c mac op).PendingKnown c := by
    intro op err hop
    rcases step_failed hop with heq | hphase
    · rw [heq]
      exact h
    · intro n hn
      simp [pending, hphase] at hn
  cases op with
  | call fate =>
    cases fate with
    | served => exact h.serve
    | refused err => exact hfailed _ err (Or.inl rfl)
    | unanswered err => exact hfailed _ err (Or.inr rfl)
  | register key id givenName =>
    intro n hn
    have hid := h n hn
    rw [Revocation.step]
    rcases c.register_cases r.server key id givenName with heq | ⟨k, _, _, _, _, _, hused⟩
    · rw [heq]
      exact hid
    · exact hused hid
  | createUser id other => exact h.of_enrolls rfl
  | mint key other => exact h.of_enrolls rfl

theorem serve_phase_ne (h : r.phase ≠ .listing) : (r.serve c mac).phase ≠ .listing := by
  unfold Revocation.serve
  split
  · rename_i hphase
    exact absurd hphase h
  · simp
  · rename_i node rest _
    exact (nextDeletion_ne mac rest).2.2
  · split
    · simp
    · simp
  · simp
  · exact h

theorem failed_ne (r : Revocation σ) (err : VpnError) : r.failed err ≠ .listing := by
  rcases failed_cases r err with ⟨result, _, heq⟩ | heq
  · simp [heq]
  · simp [heq]

theorem pending_failed (s : σ) (r : Revocation σ) (err : VpnError) :
    Revocation.pending ⟨s, r.failed err⟩ = [] := by
  rcases failed_cases r err with ⟨result, _, heq⟩ | heq
  · simp [pending, heq]
  · simp [pending, heq]

theorem Lost.serve (h : Lost c mac n r) : Lost c mac n (r.serve c mac) := by
  refine ⟨h.mac, ?_, serve_phase_ne h.listed, ?_⟩
  · by_contra hgone
    obtain ⟨m, hm, hid⟩ := (serve_frame c mac r).2 n h.registered hgone
    exact h.other m hm hid
  · intro m hm
    rcases pending_serve c mac r with ⟨hphase, _⟩ | hsub
    · exact absurd hphase h.listed
    · exact h.other m (hsub hm)

theorem Lost.of_enrolls (h : Lost c mac n r) {op : VpnOp} {other : Mac}
    (hop : op.enrolls = some other) : Lost c mac n (r.step c mac op) := by
  obtain ⟨hphase, hnodes, _⟩ := step_enrolls hop
  refine ⟨h.mac, ?_, ?_, ?_⟩
  · rw [hnodes]
    exact h.registered
  · rw [hphase]
    exact h.listed
  · rw [pending_of_phase hphase]
    exact h.other

theorem Lost.step (h : Lost c mac n r) (op : VpnOp) : Lost c mac n (r.step c mac op) := by
  cases op with
  | call fate =>
    cases fate with
    | served => exact h.serve
    | refused err =>
      refine ⟨h.mac, h.registered, failed_ne r err, ?_⟩
      simp [Revocation.step, pending_failed]
    | unanswered err =>
      refine ⟨h.mac, h.serve.registered, failed_ne r err, ?_⟩
      simp [Revocation.step, pending_failed]
  | register key id givenName =>
    refine ⟨h.mac, ?_, h.listed, h.other⟩
    rw [Revocation.step]
    rcases c.register_cases r.server key id givenName with heq | ⟨k, _, _, hnodes, _⟩
    · rw [heq]
      exact h.registered
    · rw [hnodes]
      exact List.mem_append_left _ h.registered
  | createUser id other => exact h.of_enrolls rfl
  | mint key other => exact h.of_enrolls rfl

theorem lost_of_unsafe {op : VpnOp} (hknown : r.PendingKnown c) (h : ¬ r.ListedLast c mac op) :
    ∃ n, Lost c mac n (r.step c mac op) := by
  cases op with
  | call fate => exact absurd trivial h
  | createUser id other => exact absurd trivial h
  | mint key other => exact absurd trivial h
  | register key id givenName =>
    obtain ⟨hlisted, hnew⟩ := not_or.mp h
    push Not at hnew
    obtain ⟨n, hn, hold, hmac⟩ := hnew
    refine ⟨n, hmac, hn, hlisted, ?_⟩
    intro m hm hid
    rcases c.register_cases r.server key id givenName with heq | ⟨k, _, hfresh, hnodes, _⟩
    · rw [heq] at hn
      exact hold hn
    · rw [hnodes] at hn
      rcases List.mem_append.mp hn with hn | hn
      · exact hold hn
      · obtain rfl := List.mem_singleton.mp hn
        have hsame : m.id = id := hid
        have hgiven := hknown m hm
        rw [hsame] at hgiven
        exact hfresh hgiven

end Step

/-! ### Whole runs -/

variable {c : CoordinationServer σ} {mac : Mac} {s : σ} {ops : List VpnOp}

theorem run_keysReaped (hother : ∀ op ∈ ops, op.enrolls ≠ some mac) :
    KeysReaped c mac (run c mac s ops) := by
  have hsafe : Run.AllSafe (step c mac) (fun _ op => op.enrolls ≠ some mac) ⟨s, .listing⟩ ops := by
    intro pre op hpre
    exact hother op (hpre.subset (List.mem_append_right _ List.mem_cons_self))
  have hgood : Run.AllGood (step c mac) (KeysReaped c mac) ⟨s, .listing⟩ ops := by
    refine Run.allGood_of_allSafe ?_ ?_ hsafe
    · exact keysReaped_of_phase (by simp) (by simp)
    · intro pre op h hop
      exact h.step op hop
  exact hgood ops (List.prefix_refl _)

theorem run_pendingKnown (c : CoordinationServer σ) (mac : Mac) (s : σ) (ops : List VpnOp) :
    (run c mac s ops).PendingKnown c := by
  apply Run.invariant
  · intro n hn
    cases hn
  · intro r op h
    exact h.step op

theorem run_nodesListed (h : Run.AllSafe (step c mac) (ListedLast c mac) ⟨s, .listing⟩ ops) :
    NodesListed c mac (run c mac s ops) := by
  have hgood : Run.AllGood (step c mac) (NodesListed c mac) ⟨s, .listing⟩ ops := by
    refine Run.allGood_of_allSafe ?_ ?_ h
    · exact Or.inl rfl
    · intro pre op hbefore hsafe
      exact hbefore.step op hsafe
  exact hgood ops (List.prefix_refl _)

theorem run_lost (h : ¬ Run.AllSafe (step c mac) (ListedLast c mac) ⟨s, .listing⟩ ops) :
    ∃ n, Lost c mac n (run c mac s ops) := by
  unfold Run.AllSafe at h
  push Not at h
  obtain ⟨pre, op, ⟨later, rfl⟩, hunsafe⟩ := h
  obtain ⟨n, hlost⟩ := lost_of_unsafe (run_pendingKnown c mac s pre) hunsafe
  refine ⟨n, ?_⟩
  rw [run, Run.run_append, Run.run_append_singleton]
  apply Run.invariant hlost
  intro r op hr
  exact hr.step op

/-- A revocation that reports success has left the device neither a node nor a key, exactly if
none of the device's nodes registered behind the list it worked from. -/
theorem revoke_reaps_iff (hother : ∀ op ∈ ops, op.enrolls ≠ some mac)
    (h : (run c mac s ops).phase = .done (.ok ())) :
    c.Reaped (run c mac s ops).server mac ↔
      Run.AllSafe (step c mac) (ListedLast c mac) ⟨s, .listing⟩ ops := by
  constructor
  · intro hreaped
    by_contra hunsafe
    obtain ⟨n, hlost⟩ := run_lost hunsafe
    exact hreaped.nodes n hlost.registered hlost.mac
  · intro hsafe
    refine ⟨?_, (run_keysReaped hother).keys h⟩
    rcases run_nodesListed hsafe with hphase | ⟨err, hphase⟩ | hlisted
    · rw [h] at hphase
      cases hphase
    · rw [h] at hphase
      cases hphase
    · intro n hn hmac
      simpa [pending, h] using hlisted n hn hmac

section Examples

def enrolled : Mac := ⟨0xda, 0xd6, 0xc7, 0xe7, 0x7f, 0xba⟩

def enrolledUser : HeadscaleUser := ⟨ascii "7", hostnameFor enrolled⟩

def mintedServer : Headscale where
  users := [enrolledUser]
  keys := [⟨ascii "hskey-1", enrolledUser, true⟩]
  nodes := []
  usedIds := []
  named := by decide
  owned := by decide
  used := by decide

theorem registered_reaped :
    headscale.Reaped (run headscale enrolled mintedServer
      [.register (ascii "hskey-1") (ascii "1") (ascii "some-laptop"),
        .call .served, .call .served, .call .served, .call .served]).server enrolled :=
  (revoke_reaps_iff (by decide) (by decide +kernel)).mpr (by decide +kernel)

/-- The device spends its key between the list of the nodes, which it is not on yet, and the
deletion of its user. The revocation reports success. -/
theorem late_node_kept :
    let ops := [.call .served, .register (ascii "hskey-1") (ascii "1") (ascii "some-laptop"),
      .call .served, .call .served]
    (run headscale enrolled mintedServer ops).phase = .done (.ok ()) ∧
      (run headscale enrolled mintedServer ops).server.nodes.map nodeMac = [some enrolled] ∧
        ¬ headscale.Reaped (run headscale enrolled mintedServer ops).server enrolled := by
  refine ⟨by decide +kernel, by decide +kernel, ?_⟩
  intro hreaped
  have hmac : UnspentKey.registered ⟨ascii "hskey-1", enrolledUser, true⟩ (ascii "1")
      (ascii "some-laptop") ∈ (run headscale enrolled mintedServer
        [.call .served, .register (ascii "hskey-1") (ascii "1") (ascii "some-laptop"),
          .call .served, .call .served]).server.nodes := by
    decide +kernel
  exact hreaped.nodes _ hmac (by decide +kernel)

end Examples

end Revocation

end Wayfinder
