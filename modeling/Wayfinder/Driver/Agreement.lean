import Wayfinder.Auth.Envelope
import Wayfinder.Driver.Receive
import Wayfinder.KeyMatch

/-!
# What one end proves the other end checks

Two members that know each other's live certificate. Every proof the sender writes draws
the next number of one counter, whoever it is for, so what reaches the receiver carries
rising numbers whatever was sent elsewhere or lost in between; the receiver's mark stays
below the next of them, and each frame is stripped to the body that was sent.
-/

namespace Wayfinder

set_option autoImplicit false

open Table

/-- The facts of the primitives the two ends rely on: a signature verifies under its signer's
key, and two keypairs agree on one secret. -/
structure Crypto.Agrees (k : Crypto) : Prop where
  signs : ∀ keypair msg, k.verifySignature (k.edPubkey keypair) msg (k.sign keypair msg) = true
  shares : ∀ a b, k.diffieHellman a (k.xPubkey b) = k.diffieHellman b (k.xPubkey a)

namespace OgmAuth

variable {c d : AuthCapacities} {k : Crypto} {s s' : OgmAuth c} {peer : OgmAuth d}

/-! ### The receiver's mark -/

/-- The mark of the sender stands at `n` or below; without one there is room for it. -/
def AwaitsAbove (s : OgmAuth c) (src : Mac) (n : Nat) : Prop :=
  match s.highWater src with
  | some m => m ≤ n
  | none => s.recvCounters.toList.length < c.maxNeighborKeys

theorem acceptRecvCounter_awaited {src : Mac} {n counter : Nat} (hmark : s.AwaitsAbove src n)
    (habove : n < counter) :
    ∃ counters, s.acceptRecvCounter src counter =
        ({ s with recvCounters := counters }, .accepted) ∧
      ({ s with recvCounters := counters }).AwaitsAbove src counter := by
  have hput : ((∃ row ∈ s.recvCounters.toList, row.1 = src) ∨
      s.recvCounters.toList.length < c.maxNeighborKeys) →
      ({ s with recvCounters := s.recvCounters.put (src, counter) fun _ => none }).AwaitsAbove
        src counter := by
    intro hfits
    have hmarked : ({ s with recvCounters := s.recvCounters.put (src, counter) fun _ => none }
        : OgmAuth c).highWater src = if src = src then some counter else s.highWater src :=
      highWater_put rfl hfits
    rw [if_pos rfl] at hmarked
    unfold AwaitsAbove
    rw [hmarked]
  unfold AwaitsAbove highWater at hmark
  unfold acceptRecvCounter
  cases hrow : s.recvCounters.find? src with
  | some row =>
    rw [hrow] at hmark
    have hstale : ¬ counter ≤ row.2 := Nat.not_le_of_lt (Nat.lt_of_le_of_lt hmark habove)
    dsimp only
    rw [if_neg hstale]
    obtain ⟨hmem, hkey⟩ := KeyedVec.find?_eq_some_iff.mp hrow
    exact ⟨_, rfl, hput (.inl ⟨row, hmem, hkey⟩)⟩
  | none =>
    rw [hrow] at hmark
    change s.recvCounters.toList.length < c.maxNeighborKeys at hmark
    dsimp only
    rw [if_pos hmark]
    exact ⟨_, rfl, hput (.inr hmark)⟩

theorem spendCounter_awaited {src : Mac} {n counter : Nat} (hmark : s.AwaitsAbove src n)
    (habove : n < counter) :
    ∃ s', s.spendCounter src counter = (s', true) ∧ OnlyMarks s s' ∧
      s'.AwaitsAbove src counter := by
  obtain ⟨counters, haccept, hmark⟩ := acceptRecvCounter_awaited hmark habove
  refine ⟨{ s with recvCounters := counters }, ?_, ⟨counters, s.restartCandidate, rfl⟩, hmark⟩
  unfold spendCounter
  rw [haccept]

/-! ### The sender's proof -/

theorem nextSendCounter_eq_some {counter : Nat} (h : s.nextSendCounter = some (s', counter)) :
    counter = s.sendCounter + 1 ∧ counter < 2 ^ 64 ∧ s' = { s with sendCounter := counter } := by
  unfold nextSendCounter at h
  split at h
  · rename_i hlt
    obtain ⟨rfl, rfl⟩ := Prod.mk.inj (Option.some.inj h)
    exact ⟨rfl, hlt, rfl⟩
  · cases h

def sealWith (k : Crypto) (s : OgmAuth c) (proof : RequiredProof) (key : Octets 32)
    (frame : Bytes) : Bytes :=
  (Be64.ofNat (s.sendCounter + 1)).toList ++
    match proof with
    | .fanout => (k.sign s.keypair (fanoutMessage k (s.sendCounter + 1) frame)).toList
    | _ => (k.frameTag (directedInput key (s.sendCounter + 1) s.cert.nodeMac frame)).toList

theorem writeProof_eq_some {proof : RequiredProof} {dst : Mac} {frame trailer : Bytes}
    (h : s.writeProof k proof dst frame = (s', some trailer)) :
    s' = { s with sendCounter := s.sendCounter + 1 } ∧ s.sendCounter + 1 < 2 ^ 64 ∧
      (proof = .fanout ∧ (∀ key, trailer = s.sealWith k proof key frame) ∨
        proof.isPairwise = true ∧ ∃ mine, s.liveNeighbor dst = some mine ∧
          trailer = s.sealWith k proof mine.pairwiseKey frame) := by
  have htag : ∀ len, s.tagDirected k dst frame len = (s', some trailer) →
      s' = { s with sendCounter := s.sendCounter + 1 } ∧ s.sendCounter + 1 < 2 ^ 64 ∧
        ∃ mine, s.liveNeighbor dst = some mine ∧
          trailer = s.sealWith k .tag mine.pairwiseKey frame := by
    intro len h
    unfold tagDirected at h
    split at h
    · cases h
    split at h
    · cases h
    rename_i mine hlive
    split at h
    · cases h
    rename_i s'' counter hnext
    obtain ⟨rfl, hlt, rfl⟩ := nextSendCounter_eq_some hnext
    obtain ⟨rfl, htrailer⟩ := Prod.mk.inj h
    obtain rfl := Option.some.inj htrailer
    exact ⟨rfl, hlt, mine, hlive, rfl⟩
  cases proof with
  | none => cases h
  | drop => cases h
  | tag =>
    obtain ⟨hs, hlt, hsealed⟩ := htag _ h
    exact ⟨hs, hlt, .inr ⟨rfl, hsealed⟩⟩
  | nonceTag =>
    obtain ⟨hs, hlt, hsealed⟩ := htag _ h
    exact ⟨hs, hlt, .inr ⟨rfl, hsealed⟩⟩
  | fanout =>
    unfold writeProof signFanout at h
    dsimp only at h
    split at h
    · cases h
    split at h
    · cases h
    rename_i s'' counter hnext
    obtain ⟨rfl, hlt, rfl⟩ := nextSendCounter_eq_some hnext
    obtain ⟨rfl, htrailer⟩ := Prod.mk.inj h
    obtain rfl := Option.some.inj htrailer
    exact ⟨rfl, hlt, .inl ⟨rfl, fun _ => rfl⟩⟩

theorem sealWith_length {proof : RequiredProof} (key : Octets 32) (frame : Bytes)
    (hcarries : proof = .fanout ∨ proof.isPairwise = true) :
    (s.sealWith k proof key frame).length = proof.trailerLen := by
  unfold sealWith
  rw [List.length_append, Octets.length_eq]
  cases proof with
  | fanout => exact congrArg (8 + ·) (Octets.length_eq _)
  | tag => exact congrArg (8 + ·) (Octets.length_eq _)
  | nonceTag => exact congrArg (8 + ·) (Octets.length_eq _)
  | none => simp [RequiredProof.isPairwise] at hcarries
  | drop => simp [RequiredProof.isPairwise] at hcarries

/-! ### Two members -/

/-- The node holds the other's live certificate, and with it the key the two share. -/
def Knows (k : Crypto) (s : OgmAuth c) (peer : OgmAuth d) : Prop :=
  ∃ key lastOgm,
    s.liveNeighbor peer.cert.nodeMac = some ⟨peer.cert.facts, key, peer.cert, lastOgm⟩ ∧
    k.pairwiseKey s.keypair peer.cert.xPubkey = .ok key

structure OwnsKeys (k : Crypto) (s : OgmAuth c) : Prop where
  edPubkey : s.cert.edPubkey = k.edPubkey s.keypair
  xPubkey : s.cert.xPubkey = k.xPubkey s.keypair

/-- What the two ends need of each other: both run under the keys of their certificates, each
knows the other, and the receiver holds no revocation of the sender. -/
structure Members (k : Crypto) (s : OgmAuth c) (peer : OgmAuth d) : Prop where
  sender : OwnsKeys k s
  receiver : OwnsKeys k peer
  knows : Knows k s peer
  known : Knows k peer s
  standing : peer.isRevoked s.cert.facts = false

theorem Members.entries (hk : k.Agrees) (h : Members k s peer) :
    ∃ mine theirs, s.liveNeighbor peer.cert.nodeMac = some mine ∧
      peer.liveNeighbor s.cert.nodeMac = some theirs ∧ theirs.cert = s.cert.facts ∧
      mine.pairwiseKey = theirs.pairwiseKey := by
  obtain ⟨key, lastOgm, hlive, hagreed⟩ := h.knows
  obtain ⟨key', lastOgm', hlive', hagreed'⟩ := h.known
  refine ⟨_, _, hlive, hlive', rfl, ?_⟩
  rw [h.receiver.xPubkey] at hagreed
  rw [h.sender.xPubkey] at hagreed'
  unfold Crypto.pairwiseKey at hagreed hagreed'
  rw [hk.shares] at hagreed
  exact Except.ok.inj (hagreed.symm.trans hagreed')

section Accepted
variable {proof : RequiredProof} {frame trailer : Bytes} {src : Mac} {n : Nat}

theorem verifyDirectedTag_sealed {theirs : NeighborKeys}
    (hlive : peer.liveNeighbor s.cert.nodeMac = some theirs) (hlt : s.sendCounter + 1 < 2 ^ 64)
    (hpair : proof.isPairwise = true) :
    peer.verifyDirectedTag k s.cert.nodeMac frame (s.sealWith k proof theirs.pairwiseKey frame) =
      some (s.sendCounter + 1) := by
  have hlen := sealWith_length (k := k) (s := s) theirs.pairwiseKey frame (.inr hpair)
  have hdirected : proof.trailerLen = directedTrailerLen := by
    cases proof with
    | tag => rfl
    | nonceTag => rfl
    | none => cases hpair
    | drop => cases hpair
    | fanout => cases hpair
  have htag : s.sealWith k proof theirs.pairwiseKey frame =
      (Be64.ofNat (s.sendCounter + 1)).toList ++ (k.frameTag (directedInput theirs.pairwiseKey
        (s.sendCounter + 1) s.cert.nodeMac frame)).toList := by
    cases proof with
    | tag => rfl
    | nonceTag => rfl
    | none => cases hpair
    | drop => cases hpair
    | fanout => cases hpair
  unfold verifyDirectedTag
  rw [if_neg (not_not.mpr (hlen.trans hdirected)), hlive, htag, Octets.readFromPrefix_append]
  dsimp only
  rw [Octets.tryFrom_toList]
  dsimp only
  rw [Be64.get_ofNat hlt, if_pos]
  exact decide_eq_true rfl

/-- A proof written for the receiver is taken by it, and its mark moves to the sender's
number. -/
theorem verifyProof_written (hk : k.Agrees) (hm : Members k s peer)
    (h : s.writeProof k proof peer.cert.nodeMac frame = (s', some trailer))
    (hmark : peer.AwaitsAbove s.cert.nodeMac s.sendCounter) :
    ∃ peer', peer.verifyProof k proof s.cert.nodeMac frame trailer = (peer', true) ∧
      OnlyMarks peer peer' ∧ peer'.AwaitsAbove s.cert.nodeMac s'.sendCounter := by
  obtain ⟨mine, theirs, hlive, hlive', hcert, hkey⟩ := hm.entries hk
  obtain ⟨rfl, hlt, hsealed⟩ := writeProof_eq_some h
  obtain ⟨peer', hspend, honly, hmarked⟩ :=
    spendCounter_awaited hmark (Nat.lt_succ_self s.sendCounter)
  rcases hsealed with ⟨rfl, htrailer⟩ | ⟨hpair, mine', hmine, rfl⟩
  · refine ⟨peer', ?_, honly, hmarked⟩
    have hlen : (s.sealWith k .fanout theirs.pairwiseKey frame).length = fanoutTrailerLen :=
      sealWith_length theirs.pairwiseKey frame (.inl rfl)
    have hsigned := hk.signs s.keypair (fanoutMessage k (s.sendCounter + 1) frame)
    rw [htrailer theirs.pairwiseKey]
    unfold verifyProof verifyFanout
    dsimp only
    rw [if_neg (not_not.mpr hlen), hlive']
    unfold sealWith
    rw [Octets.readFromPrefix_append]
    dsimp only
    rw [Octets.tryFrom_toList]
    dsimp only
    rw [Be64.get_ofNat hlt, hcert, if_pos]
    · exact hspend
    · exact (congrArg (fun key => k.verifySignature key _ _) hm.sender.edPubkey).trans hsigned
  · obtain rfl : mine' = mine := Option.some.inj (hmine.symm.trans hlive)
    rw [hkey]
    have htag : peer.verifyDirectedTag k s.cert.nodeMac frame
        (s.sealWith k proof theirs.pairwiseKey frame) = some (s.sendCounter + 1) :=
      verifyDirectedTag_sealed hlive' hlt hpair
    have hplain : peer.verifyDirected k s.cert.nodeMac frame
        (s.sealWith k proof theirs.pairwiseKey frame) = (peer', true) := by
      unfold verifyDirected
      rw [htag]
      exact hspend
    cases proof with
    | none => cases hpair
    | drop => cases hpair
    | fanout => cases hpair
    | tag => exact ⟨peer', hplain, honly, hmarked⟩
    | nonceTag =>
      unfold verifyProof verifyDirectedNonceFresh
      dsimp only
      split
      · exact ⟨peer', hplain, honly, hmarked⟩
      · rw [htag]
        obtain ⟨counters, haccept, hmarked⟩ :=
          acceptRecvCounter_awaited hmark (Nat.lt_succ_self s.sendCounter)
        dsimp only
        rw [haccept]
        exact ⟨_, rfl, ⟨counters, none, rfl⟩, hmarked⟩

/-- The number of a heartbeat is told from the others by its highest bit. -/
theorem get_tagged {counter : Nat} (hlt : counter < 2 ^ 63) :
    (Be64.ofNat (counter ||| keepaliveCounterTag)).get = counter + keepaliveCounterTag := by
  have hor : counter ||| keepaliveCounterTag = counter + keepaliveCounterTag := by
    rw [Nat.or_comm, Nat.add_comm]
    exact (Nat.two_pow_add_eq_or_of_lt hlt 1).symm
  rw [hor, Be64.get_ofNat]
  unfold keepaliveCounterTag
  omega

theorem verifyKeepalive_written {header : Bytes} {bufLen : Nat} (hk : k.Agrees)
    (hm : Members k s peer) (hlt : s.sendCounter + 1 < 2 ^ 63)
    (h : s.augmentKeepalive k header.length bufLen = (s', some trailer))
    (hmark : peer.AwaitsAbove s.cert.nodeMac s.sendCounter) :
    s' = { s with sendCounter := s.sendCounter + 1 } ∧
      ∃ peer', peer.verifyKeepalive k s.cert.nodeMac (header ++ trailer) = (peer', true) ∧
        OnlyMarks peer peer' ∧ peer'.AwaitsAbove s.cert.nodeMac s'.sendCounter := by
  obtain ⟨mine, theirs, hlive, hlive', hcert, hkey⟩ := hm.entries hk
  obtain ⟨hmem, hmac, hwindow⟩ := liveNeighbor_eq_some_iff.mp hlive'
  unfold augmentKeepalive at h
  split at h
  · cases h
  split at h
  · cases h
  rename_i s'' counter hnext
  obtain ⟨rfl, -, rfl⟩ := nextSendCounter_eq_some hnext
  obtain ⟨rfl, htrailer⟩ := Prod.mk.inj h
  obtain rfl := Option.some.inj htrailer
  refine ⟨rfl, ?_⟩
  obtain ⟨peer', hspend, honly, hmarked⟩ :=
    spendCounter_awaited hmark (Nat.lt_succ_self s.sendCounter)
  refine ⟨peer', ?_, honly, hmarked⟩
  have hfind : peer.neighbors.find? s.cert.nodeMac = some theirs :=
    KeyedVec.find?_eq_some_iff.mpr ⟨hmem, hmac⟩
  have hget := get_tagged hlt
  have hsigned := hk.signs s.keypair (keepaliveSignedMessage s.cert.nodeMac
    (Be64.ofNat (s.sendCounter + 1 ||| keepaliveCounterTag)))
  have hverified : k.verifySignature theirs.cert.edPubkey (keepaliveSignedMessage s.cert.nodeMac
      (Be64.ofNat (s.sendCounter + 1 ||| keepaliveCounterTag))) (k.sign s.keypair
        (keepaliveSignedMessage s.cert.nodeMac
          (Be64.ofNat (s.sendCounter + 1 ||| keepaliveCounterTag)))) = true := by
    rw [hcert]
    exact (congrArg (fun key => k.verifySignature key _ _) hm.sender.edPubkey).trans hsigned
  have hstanding : peer.isRevoked theirs.cert = false := by
    rw [hcert]
    exact hm.standing
  have hlen : ∀ tagged : Be64, ∀ signature : Octets 64,
      (tagged.toList ++ signature.toList).length = keepaliveTrailerLen := by
    intro tagged signature
    rw [List.length_append, Octets.length_eq, Octets.length_eq]
    rfl
  unfold verifyKeepalive
  rw [List.length_append, hlen, if_neg (Nat.not_lt.mpr (Nat.le_add_left _ _)),
    Nat.add_sub_cancel_right, List.drop_left]
  dsimp only
  rw [Octets.readFromPrefix_append]
  dsimp only
  rw [hget, if_neg (Nat.not_lt.mpr (Nat.le_add_left _ _)), hfind, Octets.tryFrom_toList]
  dsimp only
  rw [hwindow, hstanding, hverified, Nat.add_sub_cancel_right]
  exact hspend

theorem Members.after {peer' : OgmAuth d} (h : Members k s peer) (m : Nat)
    (honly : OnlyMarks peer peer') : Members k { s with sendCounter := m } peer' := by
  obtain ⟨counters, candidate, rfl⟩ := honly
  exact ⟨⟨h.sender.edPubkey, h.sender.xPubkey⟩, ⟨h.receiver.edPubkey, h.receiver.xPubkey⟩,
    h.knows, h.known, h.standing⟩

theorem AwaitsAbove.mono {m : Nat} (h : peer.AwaitsAbove src n) (hle : n ≤ m) :
    peer.AwaitsAbove src m := by
  unfold AwaitsAbove at h ⊢
  cases hmark : peer.highWater src with
  | none =>
    rw [hmark] at h
    exact h
  | some mark =>
    rw [hmark] at h
    exact Nat.le_trans h hle

end Accepted

end OgmAuth

/-! ### The two routers -/

theorem requiredProof_append {body rest : Bytes} (hne : body ≠ [])
    (hproof : requiredProof body ≠ .drop) :
    requiredProof (body ++ rest) = requiredProof body := by
  obtain ⟨b, tail, rfl⟩ := List.exists_cons_of_ne_nil hne
  have hhead : (b :: tail ++ rest).head? = (b :: tail).head? := rfl
  have hform : requiredProof (b :: tail) ≠ .drop →
      (b :: tail).head? >>= BatmanPacketType.fromU8 = some .mcast →
      (b :: tail ++ rest)[mcastFormOff]? = (b :: tail)[mcastFormOff]? := by
    intro hproof hmcast
    apply List.getElem?_append_left
    by_contra hshort
    apply hproof
    unfold requiredProof
    rw [hmcast, List.getElem?_eq_none (Nat.le_of_not_lt hshort)]
    rfl
  unfold requiredProof
  rw [hhead]
  cases htype : (b :: tail).head? >>= BatmanPacketType.fromU8 with
  | none => rfl
  | some type =>
    cases type with
    | mcast =>
      dsimp only
      rw [hform hproof htype]
    | _ => rfl

/-- What a node puts on the air: a body it is given, or its own heartbeat. -/
inductive Airing where
  | dispatch (now : Duration) (dst : Mac) (protocol : U16) (egress : Egress) (body : Bytes)
      (bufLen numInterfaces : Nat)
  | heartbeat (now : Duration) (txLen : Nat) (egress : Egress) (bufLen numInterfaces : Nat)

structure Aired where
  frame : LinkFrame
  body : Bytes

namespace NodeRouter

section Air
variable {e : Capacities} {a : AuthCapacities} {t : TableCapacities}

def airBody (k : Crypto) (n : NodeRouter e a t) (now : Duration) (dst : Mac) (protocol : U16)
    (egress : Egress) (body : Bytes) (bufLen numInterfaces : Nat) :
    NodeRouter e a t × Option Aired :=
  match n.planDispatch k now dst protocol egress body bufLen numInterfaces with
  | (n, some plan) => (n, some ⟨⟨dst, n.selfIdent, protocol, plan.payload⟩, body⟩)
  | (n, none) => (n, none)

def air (k : Crypto) (n : NodeRouter e a t) : Airing → NodeRouter e a t × Option Aired
  | .dispatch now dst protocol egress body bufLen numInterfaces =>
    n.airBody k now dst protocol egress body bufLen numInterfaces
  | .heartbeat now txLen egress bufLen numInterfaces =>
    let (core, frame) := n.core.pollKeepalive k txLen
    match frame with
    | some f => (n.withCore core).airBody k now f.dst f.protocol egress f.payload bufLen
        numInterfaces
    | none => (n.withCore core, none)

def airAll (k : Crypto) : NodeRouter e a t → List Airing → List Aired
  | _, [] => []
  | n, op :: ops => (n.air k op).2.toList ++ airAll k (n.air k op).1 ops

/-- Take the trailer off a frame, and judge a heartbeat: `none` drops it. -/
def hear (k : Crypto) (n : NodeRouter e a t) (now : Duration) (ifaceIdx txLen : Nat)
    (frame : LinkFrame) : NodeRouter e a t × Option LinkFrame :=
  match n.stripDirected k frame with
  | (n, none) => (n, none)
  | (n, some frame) =>
    if CentralRouter.packetTypeOf frame = some .keepalive then
      let (core, verdict) := n.core.judgeFrame k now ifaceIdx frame txLen
      (n.withCore core, if verdict.isNone then some frame else none)
    else (n, some frame)

def hearAll (k : Crypto) (now : Duration) (ifaceIdx txLen : Nat) :
    NodeRouter e a t → List LinkFrame → List (Option LinkFrame)
  | _, [] => []
  | n, frame :: frames =>
    (n.hear k now ifaceIdx txLen frame).2 ::
      hearAll k now ifaceIdx txLen (n.hear k now ifaceIdx txLen frame).1 frames

theorem planTargets_core (n : NodeRouter e a t) (now : Duration) (dst : Mac)
    (pktType : Option BatmanPacketType) (egress : Egress) (numInterfaces : Nat) :
    (n.planTargets now dst pktType egress numInterfaces).1.core = n.core := by
  cases egress with
  | iface idx => rfl
  | auto =>
    rw [← (core_getEgressInterface n now dst).1]
    unfold planTargets
    dsimp only
    obtain ⟨n', found⟩ := n.getEgressInterface now dst
    rcases found with _ | _ | idx <;> rfl

theorem tagDirectedInto_eq_some {n n' : NodeRouter e a t} {k : Crypto} {s : OgmAuth a}
    {dst : Mac} {protocol : U16} {body payload : Bytes} {bufLen : Nat}
    (hauth : n.core.auth = some s)
    (h : n.tagDirectedInto k dst protocol body bufLen = (n', some payload)) :
    (payload = body ∧ n' = n ∧ (protocol = ethPBatman → requiredProof body = .none)) ∨
      protocol = ethPBatman ∧ requiredProof body ≠ .none ∧ requiredProof body ≠ .drop ∧
        ∃ s' trailer, s.writeProof k (requiredProof body) dst body = (s', some trailer) ∧
          n' = n.withAuth s' ∧ payload = body ++ trailer := by
  unfold tagDirectedInto at h
  dsimp only at h
  rw [hauth] at h
  dsimp only at h
  by_cases hproto : protocol = ethPBatman
  · rw [if_pos hproto] at h
    split at h
    · rename_i hnone
      obtain ⟨rfl, hpayload⟩ := Prod.mk.inj h
      exact .inl ⟨(Option.some.inj hpayload).symm, rfl, fun _ => hnone⟩
    split at h
    · cases h
    split at h
    · cases h
    rename_i hnone hdrop _
    split at h
    · rename_i s' trailer hwritten
      obtain ⟨rfl, hpayload⟩ := Prod.mk.inj h
      exact .inr ⟨hproto, hnone, hdrop, s', trailer, hwritten, rfl,
        (Option.some.inj hpayload).symm⟩
    · cases h
  · rw [if_neg hproto, if_pos rfl] at h
    obtain ⟨rfl, hpayload⟩ := Prod.mk.inj h
    exact .inl ⟨(Option.some.inj hpayload).symm, rfl, fun hsame => absurd hsame hproto⟩

theorem stripDirected_exempt {n : NodeRouter e a t} {k : Crypto} {frame : LinkFrame}
    (hproof : frame.protocol = ethPBatman → requiredProof frame.payload = .none) :
    n.stripDirected k frame = (n, some frame) := by
  unfold stripDirected
  split
  · rfl
  split
  · rfl
  rename_i hproto
  dsimp only
  rw [if_pos (hproof (not_not.mp hproto))]

theorem stripDirected_written {n : NodeRouter e a t} {k : Crypto} {peer peer' : OgmAuth a}
    {dst src : Mac} {body trailer : Bytes} (hauth : n.core.auth = some peer) (hne : body ≠ [])
    (hnone : requiredProof body ≠ .none) (hdrop : requiredProof body ≠ .drop)
    (hdst : (requiredProof body).isPairwise = true → dst = n.selfIdent)
    (hlen : trailer.length = (requiredProof body).trailerLen)
    (hverified : peer.verifyProof k (requiredProof body) src body trailer = (peer', true)) :
    n.stripDirected k ⟨dst, src, ethPBatman, body ++ trailer⟩ =
      (n.withAuth peer', some ⟨dst, src, ethPBatman, body⟩) := by
  have hhop : ((requiredProof body).isPairwise && !dst.isMulticast && dst != n.selfIdent) =
      false := by
    cases hpair : (requiredProof body).isPairwise with
    | false => rfl
    | true =>
      rw [hdst hpair]
      simp
  unfold stripDirected
  rw [hauth]
  dsimp only
  rw [if_neg (not_not.mpr rfl), requiredProof_append hne hdrop, if_neg hnone, if_neg hdrop, hhop,
    if_neg Bool.false_ne_true, List.length_append, hlen,
    if_neg (Nat.not_lt.mpr (Nat.le_add_left _ _)), Nat.add_sub_cancel_right, List.take_left',
    List.drop_left', hverified]
  · rfl
  · rfl
  · rfl

end Air

end NodeRouter

/-- A body with a sub-type, and not a heartbeat: those the node makes itself. -/
def Airing.Proper : Airing → Prop
  | .dispatch _ _ protocol _ body _ _ =>
    protocol = ethPBatman → body ≠ [] ∧ body.head? >>= BatmanPacketType.fromU8 ≠ some .keepalive
  | .heartbeat .. => True

instance : (op : Airing) → Decidable op.Proper
  | .dispatch .. => inferInstanceAs (Decidable (_ → _ ∧ _))
  | .heartbeat .. => .isTrue trivial

section Ends

variable {e e' : Capacities} {a a' : AuthCapacities} {t t' : TableCapacities}
  {A : NodeRouter e a t} {B : NodeRouter e' a' t'} {k : Crypto} {s : OgmAuth a}
  {peer : OgmAuth a'}

/-- The two routers, with the auth states they hold, each named by its certificate, and the
receiver's mark not above the sender's counter. -/
structure Ends (k : Crypto) (A : NodeRouter e a t) (B : NodeRouter e' a' t') (s : OgmAuth a)
    (peer : OgmAuth a') : Prop where
  sending : A.core.auth = some s
  receiving : B.core.auth = some peer
  members : OgmAuth.Members k s peer
  source : A.selfIdent = s.cert.nodeMac
  destination : B.selfIdent = peer.cert.nodeMac
  mark : peer.AwaitsAbove s.cert.nodeMac s.sendCounter

def Aired.Reaches (f : Aired) (B : NodeRouter e' a' t') : Prop :=
  f.frame.protocol = ethPBatman → (requiredProof f.body).isPairwise = true →
    f.frame.dst = B.selfIdent

/-- What a step of the sender does to the two ends, whether or not the receiver hears it. -/
structure Step (k : Crypto) (now : Duration) (ifaceIdx txLen : Nat) (B : NodeRouter e' a' t')
    (s : OgmAuth a) (peer : OgmAuth a') (A' : NodeRouter e a t) (out : Option Aired)
    (s' : OgmAuth a) : Prop where
  counted : s'.sendCounter ≤ s.sendCounter + 1
  unheard : Ends k A' B s' peer
  heard : ∀ f, out = some f → f.Reaches B →
    ∃ B' peer',
      B.hear k now ifaceIdx txLen f.frame = (B', some { f.frame with payload := f.body }) ∧
      B'.selfIdent = B.selfIdent ∧ Ends k A' B' s' peer'

variable {now : Duration} {ifaceIdx txLen : Nat}

theorem writeProof_eq_none {s' : OgmAuth a} {proof : RequiredProof} {dst : Mac} {frame : Bytes}
    (h : s.writeProof k proof dst frame = (s', none)) : s' = s := by
  have htag : ∀ len, s.tagDirected k dst frame len = (s', none) → s' = s := by
    intro len h
    unfold OgmAuth.tagDirected at h
    split at h
    · exact (Prod.mk.inj h).1.symm
    split at h
    · exact (Prod.mk.inj h).1.symm
    split at h
    · exact (Prod.mk.inj h).1.symm
    · cases (Prod.mk.inj h).2
  cases proof with
  | none => exact (Prod.mk.inj h).1.symm
  | drop => exact (Prod.mk.inj h).1.symm
  | tag => exact htag _ h
  | nonceTag => exact htag _ h
  | fanout =>
    unfold OgmAuth.writeProof OgmAuth.signFanout at h
    dsimp only at h
    split at h
    · exact (Prod.mk.inj h).1.symm
    split at h
    · exact (Prod.mk.inj h).1.symm
    · cases (Prod.mk.inj h).2

theorem tagDirectedInto_eq_none {n' : NodeRouter e a t} {dst : Mac} {protocol : U16} {body : Bytes}
    {bufLen : Nat} (hauth : A.core.auth = some s)
    (h : A.tagDirectedInto k dst protocol body bufLen = (n', none)) : n'.core = A.core := by
  unfold NodeRouter.tagDirectedInto at h
  dsimp only at h
  rw [hauth] at h
  dsimp only at h
  generalize (if protocol = ethPBatman then requiredProof body else .none) = proof at h
  split at h
  · cases (Prod.mk.inj h).2
  split at h
  · rw [(Prod.mk.inj h).1]
  split at h
  · rw [(Prod.mk.inj h).1]
  split at h
  · cases (Prod.mk.inj h).2
  · rename_i s' hwritten
    obtain rfl := writeProof_eq_none hwritten
    rw [← (Prod.mk.inj h).1]
    show { A.core with auth := some s' } = A.core
    rw [← hauth]

theorem Ends.of_core {A' : NodeRouter e a t} (h : Ends k A B s peer) (hcore : A'.core = A.core) :
    Ends k A' B s peer := by
  refine ⟨?_, h.receiving, h.members, ?_, h.destination, h.mark⟩
  · rw [hcore]
    exact h.sending
  · rw [← h.source]
    exact congrArg (fun core => core.batman.selfIdent) hcore

theorem Ends.count {A' : NodeRouter e a t} (h : Ends k A B s peer) {m : Nat}
    (hle : s.sendCounter ≤ m)
    (hcore : A'.core = { A.core with auth := some { s with sendCounter := m } }) :
    Ends k A' B { s with sendCounter := m } peer := by
  refine ⟨?_, h.receiving, h.members.after m ⟨peer.recvCounters, peer.restartCandidate, rfl⟩, ?_,
    h.destination, h.mark.mono hle⟩
  · rw [hcore]
  · rw [← h.source]
    exact congrArg (fun core => core.batman.selfIdent) hcore

theorem Ends.taken {A' : NodeRouter e a t} {B' : NodeRouter e' a' t'} {peer' : OgmAuth a'}
    (h : Ends k A B s peer) {m : Nat}
    (hcore : A'.core = { A.core with auth := some { s with sendCounter := m } })
    (hcore' : B'.core = { B.core with auth := some peer' }) (honly : OgmAuth.OnlyMarks peer peer')
    (hmark : peer'.AwaitsAbove s.cert.nodeMac m) :
    Ends k A' B' { s with sendCounter := m } peer' := by
  refine ⟨?_, ?_, h.members.after m honly, ?_, ?_, hmark⟩
  · rw [hcore]
  · rw [hcore']
  · rw [← h.source]
    exact congrArg (fun core => core.batman.selfIdent) hcore
  · obtain ⟨counters, candidate, rfl⟩ := honly
    rw [← h.destination]
    exact congrArg (fun core => core.batman.selfIdent) hcore'

theorem packetTypeOf_eq (dst src : Mac) (body : Bytes) :
    CentralRouter.packetTypeOf ⟨dst, src, ethPBatman, body⟩ =
      body.head? >>= BatmanPacketType.fromU8 := if_pos rfl

theorem Ends.airBody (hk : k.Agrees) (h : Ends k A B s peer) (at' : Duration) (dst : Mac)
    (protocol : U16) (egress : Egress) (body : Bytes) (bufLen numInterfaces : Nat)
    (hproper : protocol = ethPBatman →
      body ≠ [] ∧ body.head? >>= BatmanPacketType.fromU8 ≠ some .keepalive) :
    ∃ s', Step k now ifaceIdx txLen B s peer
      (A.airBody k at' dst protocol egress body bufLen numInterfaces).1
      (A.airBody k at' dst protocol egress body bufLen numInterfaces).2 s' := by
  unfold NodeRouter.airBody NodeRouter.planDispatch
  cases htag : A.tagDirectedInto k dst protocol body bufLen with
  | mk n' payload =>
    cases payload with
    | none =>
      refine ⟨s, Nat.le_succ _, h.of_core (tagDirectedInto_eq_none h.sending htag), ?_⟩
      intro f hf
      cases hf
    | some payload =>
      have hcore := NodeRouter.planTargets_core n' at' dst (bodyType protocol body) egress
        numInterfaces
      dsimp only
      rcases NodeRouter.tagDirectedInto_eq_some h.sending htag with
        ⟨rfl, rfl, hexempt⟩ | ⟨rfl, hnone, hdrop, s', trailer, hwritten, rfl, rfl⟩
      · refine ⟨s, Nat.le_succ _, h.of_core hcore, ?_⟩
        intro f hf _
        obtain rfl := Option.some.inj hf
        refine ⟨B, peer, ?_, rfl, h.of_core hcore⟩
        have hother : CentralRouter.packetTypeOf
            ⟨dst, (n'.planTargets at' dst (bodyType protocol payload) egress
              numInterfaces).1.selfIdent, protocol, payload⟩ ≠ some .keepalive := by
          unfold CentralRouter.packetTypeOf
          dsimp only
          split
          · rename_i hproto
            exact (hproper hproto).2
          · intro hcontra
            cases hcontra
        unfold NodeRouter.hear
        rw [NodeRouter.stripDirected_exempt hexempt]
        dsimp only
        rw [if_neg hother]
      · obtain ⟨rfl, hlt, hsealed⟩ := OgmAuth.writeProof_eq_some hwritten
        refine ⟨_, Nat.le_refl _, h.count (Nat.le_succ _) hcore, ?_⟩
        intro f hf hreaches
        obtain rfl := Option.some.inj hf
        obtain ⟨hne, hkeepalive⟩ := hproper rfl
        have hpairwise : (requiredProof body).isPairwise = true → dst = peer.cert.nodeMac := by
          intro hpair
          exact (hreaches rfl hpair).trans h.destination
        have hwritten' : s.writeProof k (requiredProof body) peer.cert.nodeMac body =
            ({ s with sendCounter := s.sendCounter + 1 }, some trailer) := by
          cases hproof : requiredProof body with
          | tag =>
            rw [hproof] at hpairwise hwritten
            rw [← hpairwise rfl]
            exact hwritten
          | nonceTag =>
            rw [hproof] at hpairwise hwritten
            rw [← hpairwise rfl]
            exact hwritten
          | fanout =>
            rw [hproof] at hwritten
            exact hwritten
          | none => exact absurd hproof hnone
          | drop => exact absurd hproof hdrop
        obtain ⟨peer', hverified, honly, hmark⟩ :=
          OgmAuth.verifyProof_written hk h.members hwritten' h.mark
        have hlen : trailer.length = (requiredProof body).trailerLen := by
          rcases hsealed with ⟨hfanout, hseal⟩ | ⟨hpair, mine, -, rfl⟩
          · rw [hseal (Octets.zero 32)]
            exact OgmAuth.sealWith_length _ _ (.inl hfanout)
          · exact OgmAuth.sealWith_length _ _ (.inr hpair)
        have hsrc : (NodeRouter.planTargets (A.withAuth { s with sendCounter := s.sendCounter + 1 })
            at' dst (bodyType ethPBatman body) egress numInterfaces).1.selfIdent =
              s.cert.nodeMac := by
          rw [← h.source]
          exact congrArg (fun core => core.batman.selfIdent) hcore
        refine ⟨B.withAuth peer', peer', ?_, rfl, h.taken hcore rfl honly hmark⟩
        unfold NodeRouter.hear
        dsimp only
        rw [hsrc, NodeRouter.stripDirected_written h.receiving hne hnone hdrop
          (fun hpair => (hpairwise hpair).trans h.destination.symm) hlen hverified]
        dsimp only
        rw [packetTypeOf_eq, if_neg hkeepalive]

def keepaliveHeader : Bytes := [BatmanPacketType.keepalive.asU8, batmanVersion]

theorem CentralRouter.pollKeepalive_cases {r : CentralRouter e a} (hauth : r.auth = some s)
    (txLen : Nat) :
    r.pollKeepalive k txLen = (r, none) ∨
      ∃ s' trailer, s.augmentKeepalive k keepaliveHeader.length txLen = (s', some trailer) ∧
        r.pollKeepalive k txLen = ({ r with auth := some s' },
          some ⟨Mac.broadcast, ethPBatman, keepaliveHeader ++ trailer⟩) := by
  unfold CentralRouter.pollKeepalive
  dsimp only
  split
  · exact .inl rfl
  split
  · exact .inl rfl
  rw [hauth]
  dsimp only
  cases hwritten : s.augmentKeepalive k keepaliveHeader.length txLen with
  | mk s' trailer =>
    cases trailer with
    | none =>
      have hsame : s' = s := by
        unfold OgmAuth.augmentKeepalive at hwritten
        split at hwritten
        · exact (Prod.mk.inj hwritten).1.symm
        split at hwritten
        · exact (Prod.mk.inj hwritten).1.symm
        · cases (Prod.mk.inj hwritten).2
      subst hsame
      left
      have hunwritten : s'.augmentKeepalive k
        [BatmanPacketType.keepalive.asU8, batmanVersion].length txLen = (s', none) := hwritten
      rw [hunwritten, ← hauth]
      rfl
    | some trailer =>
      right
      refine ⟨s', trailer, rfl, ?_⟩
      have hwritten' : s.augmentKeepalive k
        [BatmanPacketType.keepalive.asU8, batmanVersion].length txLen = (s', some trailer) :=
          hwritten
      rw [hwritten']
      rfl

theorem NodeRouter.airBody_exempt {A : NodeRouter e a t} (hauth : A.core.auth = some s)
    {body : Bytes} (hproof : requiredProof body = .none) (at' : Duration) (dst : Mac)
    (egress : Egress) (bufLen numInterfaces : Nat) :
    ∃ A' : NodeRouter e a t, A'.core = A.core ∧
      A.airBody k at' dst ethPBatman egress body bufLen numInterfaces =
        (A', some ⟨⟨dst, A'.selfIdent, ethPBatman, body⟩, body⟩) := by
  have htag : A.tagDirectedInto k dst ethPBatman body bufLen = (A, some body) := by
    unfold NodeRouter.tagDirectedInto
    rw [hauth]
    dsimp only
    rw [if_pos rfl, if_pos hproof]
  refine ⟨_, NodeRouter.planTargets_core A at' dst (bodyType ethPBatman body) egress
    numInterfaces, ?_⟩
  unfold NodeRouter.airBody NodeRouter.planDispatch
  rw [htag]

/-- A heartbeat goes out unproven, for it carries its own signature. -/
theorem Ends.heartbeat (hk : k.Agrees) (h : Ends k A B s peer) (hlt : s.sendCounter + 1 < 2 ^ 63)
    (at' : Duration) (bufLen : Nat) (egress : Egress) (bufLen' numInterfaces : Nat) :
    ∃ s', Step k now ifaceIdx txLen B s peer
      (A.air k (.heartbeat at' bufLen egress bufLen' numInterfaces)).1
      (A.air k (.heartbeat at' bufLen egress bufLen' numInterfaces)).2 s' := by
  unfold NodeRouter.air
  dsimp only
  rcases CentralRouter.pollKeepalive_cases (k := k) h.sending bufLen with
    hquiet | ⟨s', trailer, hwritten, hpolled⟩
  · rw [hquiet]
    refine ⟨s, Nat.le_succ _, h.of_core rfl, ?_⟩
    intro f hf
    cases hf
  · rw [hpolled]
    dsimp only
    obtain ⟨rfl, peer', hverified, honly, hmark⟩ :=
      OgmAuth.verifyKeepalive_written hk h.members hlt hwritten h.mark
    have hexempt : requiredProof (keepaliveHeader ++ trailer) = .none := rfl
    obtain ⟨A', hcore, haired⟩ := NodeRouter.airBody_exempt (k := k)
      (A := A.withAuth { s with sendCounter := s.sendCounter + 1 }) rfl hexempt at' Mac.broadcast
      egress bufLen' numInterfaces
    have hcore' : A'.core =
        { A.core with auth := some { s with sendCounter := s.sendCounter + 1 } } := hcore
    have hsrc : A'.selfIdent = s.cert.nodeMac := by
      rw [← h.source]
      exact congrArg (fun core => core.batman.selfIdent) hcore'
    refine ⟨{ s with sendCounter := s.sendCounter + 1 }, ?_⟩
    change Step k now ifaceIdx txLen B s peer
      ((A.withAuth { s with sendCounter := s.sendCounter + 1 }).airBody k at' Mac.broadcast
        ethPBatman egress (keepaliveHeader ++ trailer) bufLen' numInterfaces).1
      ((A.withAuth { s with sendCounter := s.sendCounter + 1 }).airBody k at' Mac.broadcast
        ethPBatman egress (keepaliveHeader ++ trailer) bufLen' numInterfaces).2 _
    rw [haired]
    refine ⟨Nat.le_refl _, h.count (Nat.le_succ _) hcore', ?_⟩
    intro f hf _
    obtain rfl := Option.some.inj hf
    refine ⟨B.withAuth peer', peer', ?_, rfl, h.taken hcore' rfl honly hmark⟩
    unfold NodeRouter.hear
    dsimp only
    rw [NodeRouter.stripDirected_exempt (fun _ => hexempt)]
    dsimp only
    have htype : CentralRouter.packetTypeOf ⟨Mac.broadcast, A'.selfIdent, ethPBatman,
        keepaliveHeader ++ trailer⟩ = some .keepalive := rfl
    rw [if_pos htype, hsrc]
    have hjudged : B.core.judgeFrame k now ifaceIdx ⟨Mac.broadcast, s.cert.nodeMac, ethPBatman,
        keepaliveHeader ++ trailer⟩ txLen = ({ B.core with auth := some peer' }, none) := by
      unfold CentralRouter.judgeFrame
      rw [hsrc] at htype
      rw [htype, h.receiving]
      dsimp only
      rw [hverified]
    rw [hjudged]
    rfl

theorem Ends.step (hk : k.Agrees) (h : Ends k A B s peer) (hlt : s.sendCounter + 1 < 2 ^ 63)
    {op : Airing} (hproper : op.Proper) :
    ∃ s', Step k now ifaceIdx txLen B s peer (A.air k op).1 (A.air k op).2 s' := by
  cases op with
  | dispatch at' dst protocol egress body bufLen numInterfaces =>
    exact h.airBody hk at' dst protocol egress body bufLen numInterfaces hproper
  | heartbeat at' bufLen egress bufLen' numInterfaces =>
    exact h.heartbeat hk hlt at' bufLen egress bufLen' numInterfaces

theorem Ends.run (hk : k.Agrees) {ops : List Airing} :
    ∀ {A : NodeRouter e a t} {B : NodeRouter e' a' t'} {s : OgmAuth a} {peer : OgmAuth a'}
      {heard : List Aired}, Ends k A B s peer → (∀ op ∈ ops, op.Proper) →
      s.sendCounter + ops.length < 2 ^ 63 → heard.Sublist (A.airAll k ops) →
      (∀ f ∈ heard, f.Reaches B) →
      B.hearAll k now ifaceIdx txLen (heard.map Aired.frame) =
        heard.map fun f => some { f.frame with payload := f.body } := by
  induction ops with
  | nil =>
    intro A B s peer heard _ _ _ hsub _
    obtain rfl := List.sublist_nil.mp hsub
    rfl
  | cons op ops ih =>
    intro A B s peer heard h hproper hlt hsub hreaches
    rw [List.length_cons] at hlt
    obtain ⟨s', hstep⟩ :
        ∃ s', Step k now ifaceIdx txLen B s peer (A.air k op).1 (A.air k op).2 s' :=
      h.step hk (by omega) (hproper op List.mem_cons_self)
    have hrest : ∀ op ∈ ops, op.Proper := fun op hop => hproper op (List.mem_cons_of_mem _ hop)
    have hcounted := hstep.counted
    have hbound : s'.sendCounter + ops.length < 2 ^ 63 := by omega
    have hsub' : heard.Sublist ((A.air k op).2.toList ++ (A.air k op).1.airAll k ops) := hsub
    cases hout : (A.air k op).2 with
    | none =>
      rw [hout] at hsub'
      exact ih hstep.unheard hrest hbound hsub' hreaches
    | some f =>
      rw [hout] at hsub'
      cases hsub' with
      | cons _ hlost => exact ih hstep.unheard hrest hbound hlost hreaches
      | cons_cons _ hkept =>
        rename_i heard
        obtain ⟨B', peer', hheard, hself, hends⟩ :=
          hstep.heard f hout (hreaches f List.mem_cons_self)
        have hreaches' : ∀ g ∈ heard, g.Reaches B' := by
          intro g hg hproto hpair
          rw [hself]
          exact hreaches g (List.mem_cons_of_mem _ hg) hproto hpair
        rw [List.map_cons, List.map_cons, NodeRouter.hearAll, hheard]
        exact congrArg _ (ih hends hrest hbound hkept hreaches')

/-- Whatever the sender sent elsewhere in between, and whatever was lost on the way, what
reaches the receiver in order is taken: every frame stripped to the body it was made of. -/
theorem in_order_heard (k : Crypto) (hk : k.Agrees) (A : NodeRouter e a t)
    (B : NodeRouter e' a' t') (s : OgmAuth a) (peer : OgmAuth a') (h : Ends k A B s peer)
    (ops : List Airing) (hproper : ∀ op ∈ ops, op.Proper)
    (hlt : s.sendCounter + ops.length < 2 ^ 63) (heard : List Aired)
    (hsub : heard.Sublist (A.airAll k ops)) (hreaches : ∀ f ∈ heard, f.Reaches B)
    (now : Duration) (ifaceIdx txLen : Nat) :
    B.hearAll k now ifaceIdx txLen (heard.map Aired.frame) =
      heard.map fun f => some { f.frame with payload := f.body } :=
  Ends.run hk h hproper hlt hsub hreaches

end Ends

namespace SmallMesh

def agreeingCrypto : Crypto :=
  { signingCrypto with
    blake2s256 := fun msg =>
      if msg = macDeriveLabel ++ cert3.edPubkey.toList then
        .be 32 0xef84322a92b7366da9a3dc17dde08ca7829184fb0d6858ae11215d65fda54149
      else pairwiseCrypto.blake2s256 msg
    diffieHellman := renewalCrypto.diffieHellman
    low_order := renewalCrypto.low_order
    own_key := renewalCrypto.own_key }

theorem agreeingCrypto_agrees : agreeingCrypto.Agrees :=
  ⟨signingCrypto_signs, renewalCrypto_commutes⟩

def pairwiseKey24 : Octets 32 :=
  .be 32 0xccc642fbf5163ade6ed6a46a66f3f9f22ca76d68dc64f4eadef2e3fe284965d8

/-- Node 2 once nodes 3 and 4 are in its cache, four frames sent. -/
def sender2 : OgmAuth capacities :=
  { ((signer2.cacheNeighbor ⟨cert3.facts, pairwiseKey23, cert3, none⟩).1.cacheNeighbor
      ⟨cert4.facts, pairwiseKey24, cert4, none⟩).1 with sendCounter := 4 }

def receiver3 : OgmAuth capacities :=
  (listener3.cacheNeighbor ⟨cert2.facts, pairwiseKey23, cert2, none⟩).1

theorem ends23 : Ends agreeingCrypto (routerOf mac2 sender2) (routerOf mac3 receiver3) sender2
    receiver3 where
  sending := rfl
  receiving := rfl
  members :=
    ⟨⟨by decide +kernel, by decide +kernel⟩, ⟨by decide +kernel, by decide +kernel⟩,
      ⟨pairwiseKey23, none, by decide +kernel, by decide +kernel⟩,
      ⟨pairwiseKey23, none, by decide +kernel, by decide +kernel⟩, by decide +kernel⟩
  source := by decide +kernel
  destination := by decide +kernel
  mark := by
    have hnone : receiver3.highWater sender2.cert.nodeMac = none := by decide +kernel
    unfold OgmAuth.AwaitsAbove
    rw [hnone]
    decide +kernel

/-- A directed frame of node 2 for node 3, one for another hop, a response, a heartbeat and
a second directed frame. -/
def sent2 : List Airing :=
  [.dispatch 0 mac3 ethPBatman (.iface 0) unicastFrame 64 1,
    .dispatch 0 cert4.nodeMac ethPBatman (.iface 0) unicastFrame 64 1,
    .dispatch 0 mac3 ethPBatman (.iface 0) responseFrame 64 1,
    .heartbeat 0 128 .auto 128 1,
    .dispatch 0 mac3 ethPBatman (.iface 0) unicastFrame 64 1]

def aired2 : List Aired := (routerOf mac2 sender2).airAll agreeingCrypto sent2

/-- Node 3 hears neither the frame for node 4 nor the response, which is lost. -/
def heardOf2 : List Aired := aired2.take 1 ++ aired2.drop 3

theorem heardOf2_sublist : heardOf2.Sublist aired2 := by
  have hlost : (aired2.drop 3).Sublist (aired2.drop 1) := List.drop_sublist_drop_left _ (by decide)
  calc heardOf2.Sublist (aired2.take 1 ++ aired2.drop 1) := hlost.append_left _
    _ = aired2 := List.take_append_drop 1 aired2

theorem in_order_heard_sent2 :
    aired2.map (fun f => f.frame.dst) = [mac3, cert4.nodeMac, mac3, Mac.broadcast, mac3] ∧
      heardOf2.map (fun f => f.frame.dst) = [mac3, Mac.broadcast, mac3] ∧
      (routerOf mac3 receiver3).hearAll agreeingCrypto 0 0 64 (heardOf2.map Aired.frame) =
        heardOf2.map fun f => some { f.frame with payload := f.body } :=
  ⟨by decide +kernel, by decide +kernel,
    in_order_heard agreeingCrypto agreeingCrypto_agrees (routerOf mac2 sender2)
      (routerOf mac3 receiver3) sender2 receiver3 ends23 sent2
      (by decide) (by decide) heardOf2 heardOf2_sublist (by unfold Aired.Reaches; decide +kernel) 0 0 64⟩

end SmallMesh

end Wayfinder
