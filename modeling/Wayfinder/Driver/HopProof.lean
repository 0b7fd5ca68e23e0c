import Wayfinder.Auth.Replay
import Wayfinder.Node

/-!
# The proof a frame carries to its next hop

On an authenticated node the driver puts a trailer behind what it hands to a neighbor and
takes it off what a neighbor hands to it. Which of the forms it is, or none, both ends
read off the frame's own sub-type.
-/

namespace Wayfinder

set_option autoImplicit false

/-- Which proof a sub-type must carry when auth is on. -/
inductive RequiredProof where
  | none | tag | nonceTag | fanout | drop
  deriving DecidableEq, Repr

namespace RequiredProof

def trailerLen : RequiredProof → Nat
  | .none | .drop => 0
  | .tag | .nonceTag => directedTrailerLen
  | .fanout => fanoutTrailerLen

def isPairwise : RequiredProof → Bool
  | .tag | .nonceTag => true
  | _ => false

end RequiredProof

def mcastFormOff : Nat := 4

def requiredProof (payload : Bytes) : RequiredProof :=
  match payload.head? >>= BatmanPacketType.fromU8 with
  | some .ogm | some .bcast | some .keepalive | some .certReq | some .certReply => .none
  | some .mcast =>
    match payload[mcastFormOff]?.map McastAuthForm.fromU8 with
    | some (some .tag) => .tag
    | some (some .signature) => .fanout
    | _ => .drop
  | some .unicast | some .echoRequest | some .echoReply | some .nextHopChallenge
  | some .renewReq | some .renewReply => .tag
  | some .nextHopResponse => .nonceTag
  -- an unknown sub-type, or an empty payload, fails closed
  | none => .tag

namespace OgmAuth

variable {c : AuthCapacities}

def verifyProof (k : Crypto) (s : OgmAuth c) (proof : RequiredProof) (src : Mac)
    (inner trailer : Bytes) : OgmAuth c × Bool :=
  match proof with
  | .fanout => s.verifyFanout k src inner trailer
  | .nonceTag => s.verifyDirectedNonceFresh k src inner trailer
  | .tag => s.verifyDirected k src inner trailer
  | .none | .drop => (s, false)

def writeProof (k : Crypto) (s : OgmAuth c) (proof : RequiredProof) (dst : Mac)
    (frame : Bytes) : OgmAuth c × Option Bytes :=
  match proof with
  | .fanout => s.signFanout k frame proof.trailerLen
  | .tag | .nonceTag => s.tagDirected k dst frame proof.trailerLen
  | .none | .drop => (s, none)

section Verdicts
variable {k : Crypto} {s s' : OgmAuth c} {proof : RequiredProof} {src : Mac}
  {inner trailer : Bytes}

/-- What verifying a frame leaves of the receiver: all but its marks. -/
def OnlyMarks (s s' : OgmAuth c) : Prop :=
  ∃ counters candidate, s' = { s with recvCounters := counters, restartCandidate := candidate }

theorem OnlyMarks.refl (s : OgmAuth c) : OnlyMarks s s := ⟨s.recvCounters, s.restartCandidate, rfl⟩

theorem OnlyMarks.trans {s'' : OgmAuth c} (h : OnlyMarks s s') (h' : OnlyMarks s' s'') :
    OnlyMarks s s'' := by
  obtain ⟨counters, candidate, rfl⟩ := h
  obtain ⟨counters', candidate', rfl⟩ := h'
  exact ⟨counters', candidate', rfl⟩

/-- The trailer is the proof of `src` for these bytes: a tag under the key this node shares
with it, or its signature. -/
def Vouches (k : Crypto) (s : OgmAuth c) (proof : RequiredProof) (src : Mac)
    (inner trailer : Bytes) : Prop :=
  ∃ n counter, s.liveNeighbor src = some n ∧
    (proof.isPairwise = true ∧ trailer = (counter : Be64).toList ++
        (k.frameTag (directedInput n.pairwiseKey (Be64.get counter) src inner)).toList ∨
      proof = .fanout ∧ ∃ signature : Octets 64,
        trailer = counter.toList ++ signature.toList ∧
        k.verifySignature n.cert.edPubkey (fanoutMessage k (Be64.get counter) inner) signature =
          true)

theorem acceptRecvCounter_onlyMarks (s : OgmAuth c) (src : Mac) (counter : Nat) :
    OnlyMarks s (s.acceptRecvCounter src counter).1 := by
  rcases acceptRecvCounter_cases s src counter with
    ⟨s', haccept, hkept, -⟩ | ⟨hstale, -⟩ | ⟨hfull, -⟩
  · rw [haccept]
    exact ⟨s'.recvCounters, s.restartCandidate, hkept⟩
  · rw [hstale]
    exact .refl s
  · rw [hfull]
    exact .refl s

theorem spendCounter_onlyMarks (s : OgmAuth c) (src : Mac) (counter : Nat) :
    OnlyMarks s (s.spendCounter src counter).1 := by
  have haccepted := acceptRecvCounter_onlyMarks s src counter
  unfold spendCounter
  split
  · rename_i heq
    rw [heq] at haccepted
    exact haccepted
  · rename_i heq
    rw [heq] at haccepted
    exact haccepted

theorem verifyDirectedTag_vouches {counter : Nat} (hpair : proof.isPairwise = true)
    (h : s.verifyDirectedTag k src inner trailer = some counter) :
    Vouches k s proof src inner trailer := by
  unfold verifyDirectedTag at h
  split at h
  · cases h
  split at h
  · rename_i n counter rest hlive hread
    split at h
    · cases h
    rename_i tag htag
    split at h
    · rename_i hverified
      refine ⟨n, counter, hlive, .inl ⟨hpair, ?_⟩⟩
      rw [Octets.append_of_readFromPrefix hread, of_decide_eq_true hverified,
        Octets.toList_of_tryFrom htag]
    · cases h
  · cases h

theorem verifyProof_spec (k : Crypto) (s : OgmAuth c) (proof : RequiredProof) (src : Mac)
    (inner trailer : Bytes) :
    OnlyMarks s (s.verifyProof k proof src inner trailer).1 ∧
      ((s.verifyProof k proof src inner trailer).2 = true →
        Vouches k s proof src inner trailer) := by
  have hdirected : proof.isPairwise = true →
      OnlyMarks s (s.verifyDirected k src inner trailer).1 ∧
        ((s.verifyDirected k src inner trailer).2 = true →
          Vouches k s proof src inner trailer) := by
    intro hpair
    unfold verifyDirected
    split
    · exact ⟨.refl s, fun h => absurd h Bool.false_ne_true⟩
    · rename_i htag
      exact ⟨spendCounter_onlyMarks .., fun _ => verifyDirectedTag_vouches hpair htag⟩
  cases proof with
  | none => exact ⟨.refl s, fun h => absurd h Bool.false_ne_true⟩
  | drop => exact ⟨.refl s, fun h => absurd h Bool.false_ne_true⟩
  | tag => exact hdirected rfl
  | nonceTag =>
    unfold verifyProof
    dsimp only
    unfold verifyDirectedNonceFresh
    split
    · exact hdirected rfl
    split
    · exact ⟨.refl s, fun h => absurd h Bool.false_ne_true⟩
    rename_i counter htag
    have haccepted := acceptRecvCounter_onlyMarks s src counter
    have hvouched : Vouches k s .nonceTag src inner trailer := verifyDirectedTag_vouches rfl htag
    split
    · rename_i heq
      rw [heq] at haccepted
      exact ⟨haccepted.trans ⟨_, none, rfl⟩, fun _ => hvouched⟩
    · rename_i heq
      rw [heq] at haccepted
      split
      · exact ⟨haccepted.trans ⟨_, some (src, counter), rfl⟩, fun _ => hvouched⟩
      · exact ⟨haccepted.trans ⟨_, none, rfl⟩, fun _ => hvouched⟩
    · rename_i heq
      rw [heq] at haccepted
      exact ⟨haccepted, fun _ => hvouched⟩
  | fanout =>
    unfold verifyProof
    dsimp only
    unfold verifyFanout
    split
    · exact ⟨.refl s, fun h => absurd h Bool.false_ne_true⟩
    split
    · rename_i n counter rest hlive hread
      split
      · exact ⟨.refl s, fun h => absurd h Bool.false_ne_true⟩
      rename_i signature hsignature
      split
      · rename_i hverified
        refine ⟨spendCounter_onlyMarks .., fun _ => ⟨n, counter, hlive, .inr ⟨rfl, signature, ?_,
          hverified⟩⟩⟩
        rw [Octets.append_of_readFromPrefix hread, Octets.toList_of_tryFrom hsignature]
      · exact ⟨.refl s, fun h => absurd h Bool.false_ne_true⟩
    · exact ⟨.refl s, fun h => absurd h Bool.false_ne_true⟩

end Verdicts

end OgmAuth

namespace NodeRouter

variable {e : Capacities} {a : AuthCapacities} {t : TableCapacities}

def withAuth (n : NodeRouter e a t) (auth : OgmAuth a) : NodeRouter e a t :=
  n.withCore { n.core with auth := some auth }

def selfIdent (n : NodeRouter e a t) : Mac := n.core.batman.selfIdent

/-- Verify the trailer of a directed frame and take it off; `none` drops the frame. -/
def stripDirected (k : Crypto) (n : NodeRouter e a t) (frame : LinkFrame) :
    NodeRouter e a t × Option LinkFrame :=
  match n.core.auth with
  | none => (n, some frame)
  | some auth =>
    if frame.protocol ≠ ethPBatman then (n, some frame)
    else
      let proof := requiredProof frame.payload
      if proof = .none then (n, some frame)
      else if proof = .drop then (n, none)
      -- handed to another hop, and only overheard here
      else if proof.isPairwise && !frame.dst.isMulticast && frame.dst != n.selfIdent then (n, none)
      else if frame.payload.length < proof.trailerLen then (n, none)
      else
        let bodyLen := frame.payload.length - proof.trailerLen
        let inner := frame.payload.take bodyLen
        let (auth, ok) := auth.verifyProof k proof frame.src inner (frame.payload.drop bodyLen)
        (n.withAuth auth, if ok then some { frame with payload := inner } else none)

/-- What is sent of a body in a buffer of `bufLen`: the body with the trailer its sub-type
must carry; `none` drops it. -/
def tagDirectedInto (k : Crypto) (n : NodeRouter e a t) (dst : Mac) (protocol : U16)
    (body : Bytes) (bufLen : Nat) : NodeRouter e a t × Option Bytes :=
  let proof := if protocol = ethPBatman then requiredProof body else .none
  match n.core.auth with
  | none => (n, some body)
  | some auth =>
    if proof = .none then (n, some body)
    else if proof = .drop then (n, none)
    else if bufLen < body.length + proof.trailerLen then (n, none)
    else
      match auth.writeProof k proof dst body with
      | (auth, some trailer) => (n.withAuth auth, some (body ++ trailer))
      | (auth, none) => (n.withAuth auth, none)

end NodeRouter

end Wayfinder
