import Wayfinder.Auth.Verify

/-!
# The pairwise data plane

Directed frames carry a tag under the key two neighbors share, fan-out frames and
keep-alives a signature; all three carry a counter, and one high-water mark for each
sender guards them against replay. A peer that restarts falls behind its own mark: a
challenge it answers is what moves the mark back.
-/

namespace Wayfinder

set_option autoImplicit false

open Table

def tagLen : Nat := 16
def directedTrailerLen : Nat := 8 + tagLen
def fanoutTrailerLen : Nat := 8 + sigLen
def keepaliveTrailerLen : Nat := 8 + sigLen
def challengeNonceLen : Nat := tagLen
def keepaliveCounterTag : Nat := 2 ^ 63
def keepaliveSigDomain : Bytes := ascii "wf-keepalive-sig-v1"
def fanoutSigDomain : Bytes := ascii "wf-mcast-fanout-sig-v1"
def noncePrfDomain : Bytes := ascii "wf-nexthop-nonce-v1"
def challengeRespDomain : Bytes := ascii "wf-nexthop-resp-v1"

/-- What the tag of a directed frame is computed from. -/
structure TagInput where
  key : Octets 32
  counter : Nat
  context : Bytes
  frame : Bytes
  deriving DecidableEq

namespace Crypto

def tagPreimage (i : TagInput) : Bytes :=
  ascii "wayfinder-tag-v2" ++ i.key.toList ++ (Be64.ofNat i.counter).toList ++
    (Octets.be 4 i.context.length).toList ++ i.context ++ i.frame

def frameTag (k : Crypto) (i : TagInput) : Octets 16 :=
  ⟨(k.blake2s256 (tagPreimage i)).toList.take 16, by
    rw [List.length_take, Octets.length_eq]
    rfl⟩

def verifyFrameTag (k : Crypto) (i : TagInput) (tag : Octets 16) : Bool := k.frameTag i = tag

def fanoutDigest (k : Crypto) (counter : Nat) (frame : Bytes) : Octets 32 :=
  k.blake2s256 (ascii "wf-mcast-fanout-digest-v1" ++ (Be64.ofNat counter).toList ++ frame)

/-- The key of the nonces: the agreement of a node with itself. -/
def noncePrfKey (k : Crypto) (keypair : Keypair) : Octets 32 :=
  k.blake2s256 (pairwiseLabel ++ (k.diffieHellman keypair (k.xPubkey keypair)).toList)

/-- The `expect` of the source: the agreement is never refused. -/
theorem pairwiseKey_own (k : Crypto) (keypair : Keypair) :
    k.pairwiseKey keypair (k.xPubkey keypair) = .ok (k.noncePrfKey keypair) := by
  unfold pairwiseKey
  exact if_neg (k.own_key keypair)

end Crypto

inductive CounterVerdict where
  | accepted
  | stale
  | noSlot
  deriving DecidableEq, Repr

namespace OgmAuth

variable {c : AuthCapacities}

/-! ### The replay guard -/

def acceptRecvCounter (s : OgmAuth c) (src : Mac) (counter : Nat) :
    OgmAuth c × CounterVerdict :=
  match s.recvCounters.find? src with
  | some e =>
    if counter ≤ e.2 then (s, .stale)
    else ({ s with recvCounters := s.recvCounters.put (src, counter) fun _ => none }, .accepted)
  | none =>
    if s.recvCounters.toList.length < c.maxNeighborKeys then
      ({ s with recvCounters := s.recvCounters.put (src, counter) fun _ => none }, .accepted)
    else (s, .noSlot)

/-- Force the mark to `counter`, forward or back. -/
def anchorRecvCounter (s : OgmAuth c) (src : Mac) (counter : Nat) : OgmAuth c :=
  { s with recvCounters := s.recvCounters.put (src, counter) fun _ => none }

def nextSendCounter (s : OgmAuth c) : Option (OgmAuth c × Nat) :=
  if s.sendCounter + 1 < 2 ^ 64 then
    some ({ s with sendCounter := s.sendCounter + 1 }, s.sendCounter + 1)
  else none

/-! ### Directed frames -/

def directedInput (key : Octets 32) (counter : Nat) (src : Mac) (frame : Bytes) : TagInput :=
  ⟨key, counter, src.asBytes, frame⟩

def tagDirected (k : Crypto) (s : OgmAuth c) (dst : Mac) (frame : Bytes) (trailerLen : Nat) :
    OgmAuth c × Option Bytes :=
  if trailerLen < directedTrailerLen then (s, none)
  else
    match s.liveNeighbor dst with
    | none => (s, none)
    | some n =>
      match s.nextSendCounter with
      | none => (s, none)
      | some (s, counter) =>
        let tag := k.frameTag (directedInput n.pairwiseKey counter s.cert.nodeMac frame)
        (s, some ((Be64.ofNat counter).toList ++ tag.toList))

/-- The counter of a trailer whose tag checks out. -/
def verifyDirectedTag (k : Crypto) (s : OgmAuth c) (src : Mac) (frame trailer : Bytes) :
    Option Nat :=
  if trailer.length ≠ directedTrailerLen then none
  else
    match s.liveNeighbor src, Octets.readFromPrefix (n := 8) trailer with
    | some n, some (counter, rest) =>
      match Octets.tryFrom rest with
      | none => none
      | some tag =>
        if k.verifyFrameTag (directedInput n.pairwiseKey (Be64.get counter) src frame) tag then
          some (Be64.get counter)
        else none
    | _, _ => none

/-- The counter of a checked trailer, spent. -/
def spendCounter (s : OgmAuth c) (src : Mac) (counter : Nat) : OgmAuth c × Bool :=
  match s.acceptRecvCounter src counter with
  | (s, .accepted) => (s, true)
  | (s, _) => (s, false)

def verifyDirected (k : Crypto) (s : OgmAuth c) (src : Mac) (frame trailer : Bytes) :
    OgmAuth c × Bool :=
  match s.verifyDirectedTag k src frame trailer with
  | none => (s, false)
  | some counter => s.spendCounter src counter

/-- The one directed frame whose freshness is a nonce's: behind the mark, it is let
through while a challenge to its sender is outstanding, and its counter noted. -/
def verifyDirectedNonceFresh (k : Crypto) (s : OgmAuth c) (src : Mac) (frame trailer : Bytes) :
    OgmAuth c × Bool :=
  if frame.head? ≠ some BatmanPacketType.nextHopResponse.asU8 then
    s.verifyDirected k src frame trailer
  else
    match s.verifyDirectedTag k src frame trailer with
    | none => (s, false)
    | some counter =>
      match s.acceptRecvCounter src counter with
      | (s, .accepted) => ({ s with restartCandidate := none }, true)
      | (s, .stale) =>
        if (s.inProgress.find? src).isSome then
          ({ s with restartCandidate := some (src, counter) }, true)
        else ({ s with restartCandidate := none }, false)
      | (s, .noSlot) => (s, false)

/-! ### Fan-out frames and keep-alives -/

def fanoutMessage (k : Crypto) (counter : Nat) (frame : Bytes) : Bytes :=
  fanoutSigDomain ++ (k.fanoutDigest counter frame).toList

def signFanout (k : Crypto) (s : OgmAuth c) (frame : Bytes) (trailerLen : Nat) :
    OgmAuth c × Option Bytes :=
  if trailerLen < fanoutTrailerLen then (s, none)
  else
    match s.nextSendCounter with
    | none => (s, none)
    | some (s, counter) =>
      let signature := k.sign s.keypair (fanoutMessage k counter frame)
      (s, some ((Be64.ofNat counter).toList ++ signature.toList))

def verifyFanout (k : Crypto) (s : OgmAuth c) (src : Mac) (frame trailer : Bytes) :
    OgmAuth c × Bool :=
  if trailer.length ≠ fanoutTrailerLen then (s, false)
  else
    match s.liveNeighbor src, Octets.readFromPrefix (n := 8) trailer with
    | some n, some (counter, rest) =>
      match Octets.tryFrom rest with
      | none => (s, false)
      | some signature =>
        if k.verifySignature n.cert.edPubkey (fanoutMessage k (Be64.get counter) frame)
            signature then
          s.spendCounter src (Be64.get counter)
        else (s, false)
    | _, _ => (s, false)

def keepaliveSignedMessage (src : Mac) (counter : Be64) : Bytes :=
  keepaliveSigDomain ++ src.asBytes ++ counter.toList

/-- The trailer behind a heartbeat of `len` bytes in a buffer of `bufLen`. -/
def augmentKeepalive (k : Crypto) (s : OgmAuth c) (len bufLen : Nat) : OgmAuth c × Option Bytes :=
  if bufLen < len + keepaliveTrailerLen then (s, none)
  else
    match s.nextSendCounter with
    | none => (s, none)
    | some (s, counter) =>
      let tagged : Be64 := Be64.ofNat (counter ||| keepaliveCounterTag)
      let signature := k.sign s.keypair (keepaliveSignedMessage s.cert.nodeMac tagged)
      (s, some (tagged.toList ++ signature.toList))

def verifyKeepalive (k : Crypto) (s : OgmAuth c) (src : Mac) (payload : Bytes) :
    OgmAuth c × Bool :=
  if payload.length < keepaliveTrailerLen then (s, false)
  else
    let trailer := payload.drop (payload.length - keepaliveTrailerLen)
    match Octets.readFromPrefix (n := 8) trailer with
    | none => (s, false)
    | some (tagged, rest) =>
      if Be64.get tagged < keepaliveCounterTag then (s, false)
      else
        match s.neighbors.find? src, Octets.tryFrom rest with
        | some n, some signature =>
          if s.wall.provesPast n.cert.notAfter then (s, false)
          else if s.isRevoked n.cert then (s, false)
          else if !k.verifySignature n.cert.edPubkey (keepaliveSignedMessage src tagged)
              signature then (s, false)
          else s.spendCounter src (Be64.get tagged - keepaliveCounterTag)
        | _, _ => (s, false)

/-! ### Next-hop proof -/

def nonceInput (k : Crypto) (keypair : Keypair) (seq : Nat) (neighbor : Mac) : TagInput :=
  ⟨k.noncePrfKey keypair, seq, noncePrfDomain, neighbor.asBytes⟩

def responseInput (key : Octets 32) (responder : Mac) (nonce : Bytes) : TagInput :=
  ⟨key, 0, challengeRespDomain ++ responder.asBytes, nonce⟩

def issueChallenge (k : Crypto) (s : OgmAuth c) (neighbor : Mac) :
    OgmAuth c × Option (Octets 16) :=
  match s.liveNeighbor neighbor with
  | none => (s, none)
  | some _ =>
    if s.challengeCounter + 1 < 2 ^ 64 then
      let seq := s.challengeCounter + 1
      let nonce := k.frameTag (nonceInput k s.keypair seq neighbor)
      ({ s with
        challengeCounter := seq
        inProgress := s.inProgress.put ⟨neighbor, nonce, seq⟩
          (minByKey OutstandingChallenge.issuedSeq) }, some nonce)
    else (s, none)

def answerChallenge (k : Crypto) (s : OgmAuth c) (challenger : Mac) (nonce : Bytes) :
    Option (Octets 16) :=
  if nonce.length ≠ challengeNonceLen then none
  else (s.liveNeighbor challenger).map fun n =>
    k.frameTag (responseInput n.pairwiseKey s.cert.nodeMac nonce)

/-- The challenge a response answers, if its tag checks out. -/
def answeredChallenge (k : Crypto) (s : OgmAuth c) (neighbor : Mac) (tag : Bytes) :
    Option OutstandingChallenge :=
  match Octets.tryFrom tag, s.inProgress.find? neighbor, s.liveNeighbor neighbor with
  | some tag, some challenge, some n =>
    if k.verifyFrameTag (responseInput n.pairwiseKey neighbor challenge.nonce.toList) tag then
      some challenge
    else none
  | _, _, _ => none

def verifyChallengeResponse (k : Crypto) (s : OgmAuth c) (neighbor : Mac) (tag : Bytes) :
    OgmAuth c × Bool :=
  -- The claim is taken up front, so that it never outlives the frame that raised it.
  let claim := s.restartCandidate
  let s := { s with restartCandidate := none }
  match s.answeredChallenge k neighbor tag with
  | none => (s, false)
  | some _ =>
    let s := { s with inProgress := s.inProgress.remove neighbor }
    match claim with
    | some (mac, counter) =>
      if mac = neighbor then (s.anchorRecvCounter neighbor counter, true) else (s, true)
    | none => (s, true)

end OgmAuth

namespace SmallMesh

/-! ### Frames of node 2 to node 3 -/

def pairwiseKey23 : Octets 32 :=
  .be 32 0xebc0960ee0e767399c48ab35973cfa6a4cde5cd503ee0ae6412b02f3743a3bb9

/-- A directed frame of node 2, and a bare response to a challenge. -/
def unicastFrame : Bytes := [BatmanPacketType.unicast.asU8, batmanVersion]
def responseFrame : Bytes := [BatmanPacketType.nextHopResponse.asU8, batmanVersion]

def own33 : Octets 32 :=
  .be 32 0xbc98e47aac877273a17c1bca31006fff34bffef2f26d989dfbe9c6ebd4fdb971

def noncePrfKey3 : Octets 32 :=
  .be 32 0x72dff8f142e018d3dc777c2098dad6bf92fdd3052bed9bdbb36bcc376f26d02e

def nonceOf2 (seq : Nat) : TagInput := ⟨noncePrfKey3, seq, noncePrfDomain, mac2.asBytes⟩

def nonce1 : Octets 16 := .be 16 0x03a060f34ae92406e97c7ec4e8750ef7
def nonce2 : Octets 16 := .be 16 0x73ffe58c6bb1c6ccc4cf649cbb4ce5b7

def tagDigests : List (TagInput × Octets 32) :=
  [(OgmAuth.directedInput pairwiseKey23 5 mac2 unicastFrame,
      .be 32 0xcdd83ab1ff6bbc3537e27ab27e0c5362283eb8178b2eafb297bb1b549ecbad39),
    (OgmAuth.directedInput pairwiseKey23 6 mac2 responseFrame,
      .be 32 0x84d91013d6f7105c87bce242cd851c71517ba8048c786a038a1a90455d55e2e0),
    (OgmAuth.directedInput pairwiseKey23 9 mac2 unicastFrame,
      .be 32 0x515d9f765de5abb21fd6e48c3a6b2f9f50fc3f7335ef4b5f43164eecb1046baf),
    (nonceOf2 1,
      .be 32 0x03a060f34ae92406e97c7ec4e8750ef7b74485b5f4ed5d3bc6b3ffa45adc9632),
    (nonceOf2 2,
      .be 32 0x73ffe58c6bb1c6ccc4cf649cbb4ce5b76f84d87278ead80014eba45ff7ab0fa4),
    (OgmAuth.responseInput pairwiseKey23 mac2 nonce1.toList,
      .be 32 0x3ac644ddf94e4b1fc77d9ccab57a49ced75fc3a2374856f78948274dd07e4c5e),
    (OgmAuth.responseInput pairwiseKey23 mac2 nonce2.toList,
      .be 32 0x57e18331627b6d3e02f7dcfc794921e3d7d40a83e47f9d29b7ced51735797cb2)]

/-- The primitives on what nodes 2 and 3 exchange as neighbors. -/
def pairwiseCrypto : Crypto where
  verifySignature := crypto.verifySignature
  sign := crypto.sign
  blake2s256 msg := (((tagDigests.find? fun d => Crypto.tagPreimage d.1 = msg).map Prod.snd).orElse
    fun _ => if msg = pairwiseLabel ++ own33.toList then some noncePrfKey3 else none).getD
      (crypto.blake2s256 msg)
  edPubkey := crypto.edPubkey
  xPubkey := crypto.xPubkey
  diffieHellman k peer := if peer = cert3.xPubkey then own33 else crypto.diffieHellman k peer
  low_order k k' peer h := by
    split at h
    · exact absurd h (by decide)
    · rename_i hother
      rw [if_neg hother]
      exact crypto.low_order k k' peer h
  own_key k := by
    split
    · decide
    · exact crypto.own_key k

def trailer (counter : Nat) (tag : Octets 16) : Bytes :=
  (Be64.ofNat counter).toList ++ tag.toList

def trailer5 : Bytes := trailer 5 (.be 16 0xcdd83ab1ff6bbc3537e27ab27e0c5362)
def trailer6 : Bytes := trailer 6 (.be 16 0x84d91013d6f7105c87bce242cd851c71)
def trailer9 : Bytes := trailer 9 (.be 16 0x515d9f765de5abb21fd6e48c3a6b2f9f)
def response1 : Bytes := (Octets.be 16 0x3ac644ddf94e4b1fc77d9ccab57a49ce).toList
def response2 : Bytes := (Octets.be 16 0x57e18331627b6d3e02f7dcfc794921e3).toList

/-- Node 3 at 100, with node 2 in its cache. -/
def heard2 : OgmAuth capacities := ((node3 100).verifyOgm pairwiseCrypto (ogm7 228)).1

end SmallMesh

end Wayfinder
