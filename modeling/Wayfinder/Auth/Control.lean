import Wayfinder.Auth.Renewal
import Wayfinder.Engine

/-!
# Frames of the auth control plane

The frames the auth state builds or answers on the router's behalf: requests for
certificates and the replies to them, challenges and the answers to those. Routing is
lent to it as an engine it may only read.
-/

namespace Wayfinder

set_option autoImplicit false

open Table

/-- The header the four credential-control packets share. -/
def credentialHeader (packetType : BatmanPacketType) (dest : Mac) : Bytes :=
  BatmanUnicastPacket.asBytes ⟨packetType.asU8, batmanVersion, 50, dest⟩

/-- The header of a challenge or a response: the type and the version. -/
def proofHeader (packetType : BatmanPacketType) : Bytes := [packetType.asU8, batmanVersion]

namespace OgmAuth

variable {c : AuthCapacities} {e : Capacities}

/-! ### Requests and replies for certificates -/

def buildCertReqFrame (k : Crypto) (s : OgmAuth c) (orig : Mac) (fp : Octets 8) (firstHop : Mac)
    (bufLen : Nat) : OgmAuth c × Option LinkFrameData :=
  if bufLen < BatmanUnicastPacket.size then (s, none)
  else
    match s.buildCertRequest k orig fp firstHop (bufLen - BatmanUnicastPacket.size) with
    | (s, none) => (s, none)
    | (s, some body) =>
      (s, some ⟨firstHop, ethPBatman, credentialHeader .certReq orig ++ body⟩)

def hasPendingReply (s : OgmAuth c) (requester : Mac) : Bool :=
  (s.pendingReplies.find? requester).isSome

def parkPendingReply (s : OgmAuth c) (requester : Mac) : OgmAuth c :=
  { s with pendingReplies := s.pendingReplies.put ⟨requester, s.now⟩ List.head? }

def clearPendingReply (s : OgmAuth c) (requester : Mac) : OgmAuth c :=
  { s with pendingReplies := s.pendingReplies.remove requester }

def certReplyFrame (s : OgmAuth c) (next dest : Mac) : LinkFrameData :=
  ⟨next, ethPBatman, credentialHeader .certReply dest ++ s.cert.asBytes⟩

def answerCertRequest (k : Crypto) (s : OgmAuth c) (paths : BatmanEngine e) (now : Duration)
    (body : Bytes) (replyLen : Nat) : OgmAuth c × Option LinkFrameData :=
  match s.verifyCertRequest k body with
  | (s, none) => (s, none)
  | (s, some requester) =>
    match paths.nextHopUnprovenOk now requester with
    | some next =>
      if BatmanUnicastPacket.size + MembershipCert.size ≤ replyLen then
        (s, some (s.certReplyFrame next requester))
      else (s.parkPendingReply requester, none)
    | none => (s.parkPendingReply requester, none)

def flushPendingCertReply (s : OgmAuth c) (paths : BatmanEngine e) (now : Duration) (orig : Mac)
    (replyLen : Nat) : OgmAuth c × Option LinkFrameData :=
  if !s.hasPendingReply orig then (s, none)
  else
    match paths.nextHopUnprovenOk now orig with
    | none => (s, none)
    | some next =>
      if replyLen < BatmanUnicastPacket.size + MembershipCert.size then (s, none)
      else (s.clearPendingReply orig, some (s.certReplyFrame next orig))

/-! ### Challenges -/

def buildChallengeFrame (k : Crypto) (s : OgmAuth c) (target : Mac) (bufLen : Nat) :
    OgmAuth c × Option LinkFrameData :=
  match s.issueChallenge k target with
  | (s, none) => (s, none)
  | (s, some nonce) =>
    let payload := proofHeader .nextHopChallenge ++ nonce.toList
    (s, if bufLen < payload.length then none else some ⟨target, ethPBatman, payload⟩)

def answerChallengeFrame (k : Crypto) (s : OgmAuth c) (src : Mac) (body : Bytes) (bufLen : Nat) :
    Option LinkFrameData :=
  match s.answerChallenge k src body with
  | none => none
  | some tag =>
    let payload := proofHeader .nextHopResponse ++ tag.toList
    if bufLen < payload.length then none else some ⟨src, ethPBatman, payload⟩

/-! ### The hint to flood at once -/

def takeTrickleResetHint (s : OgmAuth c) : OgmAuth c × Bool :=
  ({ s with trickleResetHint := false }, s.trickleResetHint)

end OgmAuth

end Wayfinder
