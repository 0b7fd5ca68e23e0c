import Mathlib.Algebra.Order.BigOperators.Group.List
import Mathlib.Algebra.Order.Ring.Nat
import Mathlib.Data.Nat.Sqrt
import Wayfinder.Lib.Ring
import Wayfinder.Lib.Run
import Wayfinder.EngineRun
import Wayfinder.Router

/-!
# Reachability probing

A session sends probes at a cadence and matches the replies that come back. Its statistics
are folded as each probe resolves, beside a ring of the last sixteen rows. They are exact
as long as no reply comes in time for a row the ring has dropped, none comes late for a
row no poll has aged out, and the sum of squares fits its word.

Counters and stamps are natural numbers, saturated and wrapped where the code's are.
-/

namespace Wayfinder

set_option autoImplicit false

open Run Bounded

/-! ### The session -/

def Duration.asMicros (d : Duration) : Nat := d / 1000

def maxPingProbes : Nat := 16
def maxPingCount : Nat := 1000
def defaultPingCount : Nat := 5
def defaultPingInterval : Duration := Duration.ofSecs 1
def defaultPingTimeout : Duration := Duration.ofSecs 5
def defaultPingPayload : Nat := 16
def maxPingInterval : Duration := Duration.ofSecs 600
def minPingInterval : Duration := Duration.ofMillis 50

def saturate (w n : Nat) : Nat := min n (2 ^ w - 1)

def wrappingSub (a b : Nat) : Nat := (a + 2 ^ 32 - b) % 2 ^ 32

def us (now : Duration) : Nat := now.asMicros % 2 ^ 32

structure PingConfig where
  count : Nat
  interval : Duration
  timeout : Duration
  payloadLen : Nat

inductive ProbeState where
  | pending | replied | timedOut | noRoute
  deriving DecidableEq, Repr

structure ProbeRecord where
  seqno : Nat
  sentAtUs : Nat
  rttUs : Nat
  fwdHops : U8
  revHops : U8
  state : ProbeState

def ProbeRecord.isPending (p : ProbeRecord) : Bool := p.state = .pending

structure PingSession where
  sessionSeq : Nat
  target : Mac
  requested : Nat
  interval : Duration
  timeout : Duration
  payloadLen : Nat
  firstSeqno : Nat
  emitted : Nat
  nextDue : Duration
  sent : Nat
  received : Nat
  lost : Nat
  rttMinUs : Nat
  rttMaxUs : Nat
  rttSumUs : Nat
  rttSumSqUs : Nat
  probes : Bounded ProbeRecord maxPingProbes

namespace PingSession

def new (sessionSeq : Nat) (target : Mac) (config : PingConfig) (firstSeqno : Nat)
    (now : Duration) : PingSession where
  sessionSeq := sessionSeq
  target := target
  requested := config.count
  interval := config.interval
  timeout := config.timeout
  payloadLen := config.payloadLen
  firstSeqno := firstSeqno
  emitted := 0
  nextDue := now
  sent := 0
  received := 0
  lost := 0
  rttMinUs := 2 ^ 32 - 1
  rttMaxUs := 0
  rttSumUs := 0
  rttSumSqUs := 0
  probes := .empty

def notePayloadEmitted (s : PingSession) (len : Nat) : PingSession := { s with payloadLen := len }

def rttMin (s : PingSession) : Option Nat := if 0 < s.received then some s.rttMinUs else none

def rttMax (s : PingSession) : Option Nat := if 0 < s.received then some s.rttMaxUs else none

def rttAvg (s : PingSession) : Option Nat :=
  if 0 < s.received then some (s.rttSumUs / s.received % 2 ^ 32) else none

def rttMdev (s : PingSession) : Option Nat :=
  if s.received = 0 then none
  else
    let mean := s.rttSumUs / s.received
    let meanSq := s.rttSumSqUs / s.received
    some ((meanSq - mean * mean).sqrt % 2 ^ 32)

def active (s : PingSession) : Bool :=
  decide (s.emitted < s.requested) || s.probes.toList.any ProbeRecord.isPending

def due (s : PingSession) (now : Duration) : Bool :=
  decide (s.emitted < s.requested ∧ s.nextDue ≤ now)

/-- An evicted row that was still pending is lost: nothing can credit it any more. -/
def push (s : PingSession) (record : ProbeRecord) : PingSession :=
  let (evicted, probes) := s.probes.pushOut record
  { s with
    lost := if evicted.any ProbeRecord.isPending then saturate 32 (s.lost + 1) else s.lost
    probes := probes }

def nextSeqno (s : PingSession) : Nat := (s.firstSeqno + s.emitted) % 2 ^ 16

def advance (s : PingSession) (now : Duration) : PingSession :=
  { s with
    emitted := saturate 16 (s.emitted + 1)
    nextDue := now + s.interval
    sent := saturate 32 (s.sent + 1) }

def recordSent (s : PingSession) (now : Duration) : PingSession × Nat :=
  ((s.advance now).push ⟨s.nextSeqno, us now, 0, 0, 0, .pending⟩, s.nextSeqno)

def recordNoRoute (s : PingSession) (now : Duration) : PingSession :=
  { s.advance now with lost := saturate 32 (s.lost + 1) }.push
    ⟨s.nextSeqno, us now, 0, 0, 0, .noRoute⟩

def recordReply (s : PingSession) (now : Duration) (peer : Mac) (seqno : Nat)
    (fwdHops revHops : U8) : PingSession × Bool :=
  if peer ≠ s.target then (s, false)
  else
    match s.probes.changeFirst (fun p => decide (p.seqno = seqno) && p.isPending) fun p =>
        { p with
          rttUs := wrappingSub (us now) p.sentAtUs
          fwdHops := fwdHops
          revHops := revHops
          state := .replied } with
    | none => (s, false)
    | some (probe, probes) =>
      let rttUs := wrappingSub (us now) probe.sentAtUs
      ({ s with
        received := saturate 32 (s.received + 1)
        rttMinUs := min s.rttMinUs rttUs
        rttMaxUs := max s.rttMaxUs rttUs
        rttSumUs := saturate 64 (s.rttSumUs + rttUs)
        rttSumSqUs := saturate 64 (s.rttSumSqUs + rttUs * rttUs)
        probes := probes }, true)

/-- A row still pending, its age on the truncated clock past the timeout. -/
def overdue (s : PingSession) (now : Duration) (p : ProbeRecord) : Bool :=
  p.isPending && decide (s.timeout.asMicros % 2 ^ 32 ≤ wrappingSub (us now) p.sentAtUs)

def expire (s : PingSession) (now : Duration) : PingSession :=
  { s with
    lost := saturate 32 (s.lost + s.probes.toList.countP (s.overdue now))
    probes := s.probes.map fun p =>
      if s.overdue now p then { p with state := .timedOut } else p }

/-- Nothing further falls due, and what is in flight is lost. -/
def cancel (s : PingSession) : PingSession :=
  { s with
    requested := s.emitted
    lost := saturate 32 (s.lost + s.probes.toList.countP ProbeRecord.isPending)
    probes := s.probes.map fun p => if p.isPending then { p with state := .timedOut } else p }

end PingSession

/-! ### The router -/

structure PingRouter (e : Capacities) (a : AuthCapacities) where
  core : CentralRouter e a
  ping : Option PingSession
  nextPingSeq : Nat
  nextProbeSeqno : Nat

namespace PingRouter

variable {e : Capacities} {a : AuthCapacities}

def ofCore (core : CentralRouter e a) : PingRouter e a := ⟨core, none, 1, 0⟩

/-- What was asked for, after defaults and caps. -/
def clamped (count : Nat) (interval timeout : Duration) (payloadLen : Nat) : PingConfig where
  count := if count = 0 then defaultPingCount else min count maxPingCount
  interval :=
    if interval = 0 then defaultPingInterval
    else max minPingInterval (min interval maxPingInterval)
  timeout :=
    if timeout = 0 then defaultPingTimeout else max minPingInterval (min timeout maxPingInterval)
  payloadLen := if payloadLen = 0 then defaultPingPayload else min payloadLen maxPingPayload

def startPing (r : PingRouter e a) (now : Duration) (target : Mac) (count : Nat)
    (interval timeout : Duration) (payloadLen : Nat) : PingRouter e a × Nat :=
  let config := clamped count interval timeout payloadLen
  ({ r with
    ping := some (.new r.nextPingSeq target config r.nextProbeSeqno now)
    nextPingSeq := if r.nextPingSeq + 1 < 2 ^ 32 then r.nextPingSeq + 1 else 1
    nextProbeSeqno := (r.nextProbeSeqno + config.count) % 2 ^ 16 }, r.nextPingSeq)

/-- Only by the handle that started it. -/
def cancelPing (r : PingRouter e a) (sessionSeq : Nat) : PingRouter e a :=
  { r with ping := r.ping.map fun session =>
      if session.sessionSeq = sessionSeq then session.cancel else session }

/-- The room for a pad: a probe is a directed frame, and takes a tag when auth is on. -/
def probeRoom (core : CentralRouter e a) (txLen : Nat) : Nat :=
  txLen - (BatmanEchoPacket.size + if core.auth.isSome then directedTrailerLen else 0)

def pollPing (r : PingRouter e a) (now : Duration) (txLen : Nat) :
    PingRouter e a × Option LinkFrameData :=
  match r.ping with
  | none => (r, none)
  | some session =>
    let session := session.expire now
    if !session.due now then ({ r with ping := some session }, none)
    else if r.core.authLocked then ({ r with ping := some (session.recordNoRoute now) }, none)
    else
      match r.core.resolveNextHop now session.target with
      | none => ({ r with ping := some (session.recordNoRoute now) }, none)
      | some nextHop =>
        let payloadLen := min session.payloadLen (probeRoom r.core txLen)
        if txLen < BatmanEchoPacket.size + payloadLen then
          ({ r with ping := some (session.recordNoRoute now) }, none)
        else
          let (session, seqno) := (session.notePayloadEmitted payloadLen).recordSent now
          let hdr : BatmanEchoPacket :=
            { packetType := BatmanPacketType.echoRequest.asU8
              version := batmanVersion
              ttl := 50
              dest := session.target
              orig := r.core.batman.selfIdent
              seqno := Be16.ofNat seqno
              reqHops := 0
              hops := 0 }
          ({ r with ping := some session },
            some ⟨nextHop, ethPBatman, hdr.asBytes ++ List.replicate payloadLen 0xa5⟩)

/-- An echo reply that ends here closes on the running session, if there is one. -/
def creditReply (r : PingRouter e a) (now : Duration) (peer : Mac) (seqno : Nat)
    (fwdHops revHops : U8) : PingRouter e a :=
  { r with ping := r.ping.map fun session =>
      (session.recordReply now peer seqno fwdHops revHops).1 }

end PingRouter

/-! ### What the statistics are about -/

/-- A probe started: the number it went under, when it went out, and when the first reply
to it came, on the clock before truncation. Without a route it did not go out at all. -/
structure Probe where
  seqno : Nat
  sentUs : Option Nat
  replyUs : Option Nat

namespace Probe

def roundTrip (timeoutUs : Nat) (p : Probe) : Option Nat :=
  match p.sentUs, p.replyUs with
  | some sent, some reply => if reply - sent < timeoutUs then some (reply - sent) else none
  | _, _ => none

def awaits (seqno : Nat) (p : Probe) : Bool :=
  decide (p.seqno = seqno) && p.sentUs.isSome && p.replyUs.isNone

def answer (seqno nowUs : Nat) (p : Probe) : Probe :=
  if p.awaits seqno then { p with replyUs := some nowUs } else p

end Probe

def roundTrips (timeout : Duration) (started : List Probe) : List Nat :=
  started.filterMap (Probe.roundTrip timeout.asMicros)

def sumOfSquares (vs : List Nat) : Nat := (vs.map fun v => v * v).sum

/-- Mean and deviation as `ping` prints them, in whole microseconds. -/
def meanOf (vs : List Nat) : Nat := vs.sum / vs.length

def deviationOf (vs : List Nat) : Nat :=
  (sumOfSquares vs / vs.length - meanOf vs * meanOf vs).sqrt

/-- What is reported is what the round trips are. -/
structure PingSession.Exact (s : PingSession) (started : List Probe) : Prop where
  received : s.received = (roundTrips s.timeout started).length
  lost : s.lost = started.countP fun p => (p.roundTrip s.timeout.asMicros).isNone
  rttMin : s.rttMin = (roundTrips s.timeout started).min?
  rttMax : s.rttMax = (roundTrips s.timeout started).max?
  rttAvg : s.rttAvg =
    if roundTrips s.timeout started = [] then none
    else some (meanOf (roundTrips s.timeout started))
  rttMdev : s.rttMdev =
    if roundTrips s.timeout started = [] then none
    else some (deviationOf (roundTrips s.timeout started))

/-! ### Runs -/

/-- What drives a session; whatever else the node does meanwhile is any change at all of
the rest of it. -/
inductive PingOp (e : Capacities) (a : AuthCapacities) where
  | poll (now : Duration) (txLen : Nat)
  | reply (now : Duration) (peer : Mac) (seqno : Nat) (fwdHops revHops : U8)
  | elsewhere (core : CentralRouter e a)

/-- The router beside every probe it started. -/
structure PingRun (e : Capacities) (a : AuthCapacities) where
  router : PingRouter e a
  started : List Probe
  clock : Duration

namespace PingRun

variable {e : Capacities} {a : AuthCapacities}

def start (r : PingRouter e a) (now : Duration) (target : Mac) (count : Nat)
    (interval timeout : Duration) (payloadLen : Nat) : PingRun e a :=
  ⟨(r.startPing now target count interval timeout payloadLen).1, [], now⟩

def step (s : PingRun e a) : PingOp e a → PingRun e a
  | .poll now txLen =>
    let polled := s.router.pollPing now txLen
    { router := polled.1
      started := s.started ++ s.router.ping.elim [] fun session =>
        if session.due now then
          [⟨session.nextSeqno, polled.2.map fun _ => now.asMicros, none⟩]
        else []
      clock := now }
  | .reply now peer seqno fwdHops revHops =>
    { router := s.router.creditReply now peer seqno fwdHops revHops
      started :=
        if s.router.ping.any fun session => session.target = peer then
          s.started.map (Probe.answer seqno now.asMicros)
        else s.started
      clock := now }
  | .elsewhere core => { s with router := { s.router with core := core } }

/-- Time does not go back. -/
def Ordered (s : PingRun e a) : PingOp e a → Prop
  | .poll now _ => s.clock ≤ now
  | .reply now _ _ _ _ => s.clock ≤ now
  | .elsewhere _ => True

/-- A first reply that comes in time finds its probe among the last sixteen started, and
room in the sum of squares; one that comes too late finds no row still waiting for it. -/
def FairReply (session : PingSession) (started : List Probe) (now : Duration) (p : Probe) : Prop :=
  if now.asMicros - p.sentUs.getD 0 < session.timeout.asMicros then
    p.seqno ∈ (started.drop (started.length - maxPingProbes)).map Probe.seqno ∧
      sumOfSquares (roundTrips session.timeout started) +
        (now.asMicros - p.sentUs.getD 0) * (now.asMicros - p.sentUs.getD 0) < 2 ^ 64
  else ∀ row ∈ session.probes.toList, row.seqno = p.seqno → row.isPending = false

def Fair (s : PingRun e a) : PingOp e a → Prop
  | .reply now peer seqno _ _ =>
    ∀ session ∈ s.router.ping.toList, session.target = peer →
      ∀ p ∈ s.started, p.awaits seqno = true → FairReply session s.started now p
  | _ => True

instance (s : PingRun e a) (op : PingOp e a) : Decidable (Ordered s op) := by
  unfold Ordered
  split <;> infer_instance

instance (session : PingSession) (started : List Probe) (now : Duration) (p : Probe) :
    Decidable (FairReply session started now p) := by
  unfold FairReply
  infer_instance

instance (s : PingRun e a) (op : PingOp e a) : Decidable (Fair s op) := by
  unfold Fair
  split <;> infer_instance

end PingRun

/-! ### One row and its probe -/

theorem saturate_of_lt {w n : Nat} (h : n < 2 ^ w) : saturate w n = n := by
  unfold saturate
  omega

theorem wrappingSub_us {now : Duration} {sent : Nat} (h : sent ≤ now.asMicros) :
    wrappingSub (us now) (sent % 2 ^ 32) = (now.asMicros - sent) % 2 ^ 32 := by
  unfold wrappingSub us
  omega

theorem Duration.asMicros_mono {a b : Duration} (h : a ≤ b) : a.asMicros ≤ b.asMicros :=
  Nat.div_le_div_right h

namespace Probe

theorem roundTrip_of_no_reply {timeoutUs : Nat} {p : Probe} (h : p.replyUs = none) :
    p.roundTrip timeoutUs = none := by
  unfold roundTrip
  rw [h]
  cases p.sentUs <;> rfl

theorem awaits_iff {seqno : Nat} {p : Probe} :
    p.awaits seqno = true ↔ p.seqno = seqno ∧ (∃ sent, p.sentUs = some sent) ∧ p.replyUs = none := by
  unfold awaits
  rw [Bool.and_eq_true, Bool.and_eq_true, decide_eq_true_iff, Option.isSome_iff_exists,
    Option.isNone_iff_eq_none, and_assoc]

@[simp] theorem answer_seqno (seqno nowUs : Nat) (p : Probe) :
    (p.answer seqno nowUs).seqno = p.seqno := by
  unfold answer
  split <;> rfl

@[simp] theorem answer_sentUs (seqno nowUs : Nat) (p : Probe) :
    (p.answer seqno nowUs).sentUs = p.sentUs := by
  unfold answer
  split <;> rfl

theorem answer_of_not_awaits {seqno nowUs : Nat} {p : Probe} (h : p.awaits seqno = false) :
    p.answer seqno nowUs = p := by
  rw [answer, h]
  rfl

theorem roundTrip_answer {seqno nowUs timeoutUs sent : Nat} {p : Probe}
    (h : p.awaits seqno = true) (hsent : p.sentUs = some sent) :
    (p.answer seqno nowUs).roundTrip timeoutUs =
      if nowUs - sent < timeoutUs then some (nowUs - sent) else none := by
  rw [answer, if_pos h, roundTrip]
  dsimp only
  rw [hsent]

end Probe

/-- How a row stands for its probe. -/
def RowOf (timeoutUs clockUs : Nat) (row : ProbeRecord) (p : Probe) : Prop :=
  row.seqno = p.seqno ∧
    match row.state with
    | .pending =>
      p.replyUs = none ∧ ∃ sent, p.sentUs = some sent ∧ sent ≤ clockUs ∧
        row.sentAtUs = sent % 2 ^ 32
    | .replied => p.replyUs ≠ none
    | .timedOut => ∃ sent, p.sentUs = some sent ∧ timeoutUs ≤ clockUs - sent
    | .noRoute => p.sentUs = none

namespace RowOf

variable {timeoutUs clockUs : Nat} {row : ProbeRecord} {p : Probe}

theorem pending (h : RowOf timeoutUs clockUs row p) (hrow : row.isPending = true) :
    p.replyUs = none ∧ ∃ sent, p.sentUs = some sent ∧ sent ≤ clockUs ∧
      row.sentAtUs = sent % 2 ^ 32 := by
  have hstate : row.state = .pending := of_decide_eq_true hrow
  have hmatch := h.2
  rw [hstate] at hmatch
  exact hmatch

theorem of_awaits {seqno : Nat} (h : RowOf timeoutUs clockUs row p)
    (hp : p.awaits seqno = true) :
    row.isPending = true ∨ ∃ sent, p.sentUs = some sent ∧ timeoutUs ≤ clockUs - sent := by
  obtain ⟨-, ⟨sent, hsent⟩, hreply⟩ := Probe.awaits_iff.mp hp
  have hmatch := h.2
  unfold ProbeRecord.isPending
  cases hstate : row.state with
  | pending => exact .inl rfl
  | replied =>
    rw [hstate] at hmatch
    exact absurd hreply hmatch
  | timedOut =>
    rw [hstate] at hmatch
    exact .inr hmatch
  | noRoute =>
    rw [hstate] at hmatch
    dsimp only at hmatch
    rw [hsent] at hmatch
    cases hmatch

theorem later {clockUs' : Nat} (hclock : clockUs ≤ clockUs') (h : RowOf timeoutUs clockUs row p) :
    RowOf timeoutUs clockUs' row p := by
  obtain ⟨hseqno, hmatch⟩ := h
  refine ⟨hseqno, ?_⟩
  cases hstate : row.state with
  | pending =>
    rw [hstate] at hmatch
    obtain ⟨hreply, sent, hsent, hle, hat⟩ := hmatch
    exact ⟨hreply, sent, hsent, hle.trans hclock, hat⟩
  | replied =>
    rw [hstate] at hmatch
    exact hmatch
  | timedOut =>
    rw [hstate] at hmatch
    obtain ⟨sent, hsent, hover⟩ := hmatch
    refine ⟨sent, hsent, hover.trans ?_⟩
    omega
  | noRoute =>
    rw [hstate] at hmatch
    exact hmatch

theorem expire {s : PingSession} {now : Duration} (hshort : s.timeout.asMicros < 2 ^ 32)
    (hclock : clockUs ≤ now.asMicros) (h : RowOf s.timeout.asMicros clockUs row p) :
    RowOf s.timeout.asMicros now.asMicros
      (if s.overdue now row then { row with state := .timedOut } else row) p := by
  cases hover : s.overdue now row with
  | false => exact h.later hclock
  | true =>
    obtain ⟨hpending, hage⟩ := Bool.and_eq_true_iff.mp hover
    obtain ⟨hreply, sent, hsent, hle, hat⟩ := h.pending hpending
    refine ⟨h.1, sent, hsent, ?_⟩
    have hage := of_decide_eq_true hage
    rw [Nat.mod_eq_of_lt hshort, hat, wrappingSub_us (hle.trans hclock)] at hage
    exact hage.trans (Nat.mod_le _ _)

/-- A reply that is credited to the pending row of its number is the first reply to the
probe of that number. -/
theorem answer {seqno nowUs : Nat} {f : ProbeRecord → ProbeRecord}
    (hf : ∀ row, (f row).seqno = row.seqno ∧ (f row).state = .replied) (hclock : clockUs ≤ nowUs)
    (h : RowOf timeoutUs clockUs row p) :
    RowOf timeoutUs nowUs
      (if decide (row.seqno = seqno) && row.isPending then f row else row)
      (p.answer seqno nowUs) := by
  cases htest : decide (row.seqno = seqno) && row.isPending with
  | true =>
    obtain ⟨hseqno, hpending⟩ := Bool.and_eq_true_iff.mp htest
    obtain ⟨hreply, sent, hsent, -⟩ := h.pending hpending
    have hp : p.awaits seqno = true :=
      Probe.awaits_iff.mpr ⟨h.1.symm.trans (of_decide_eq_true hseqno), ⟨sent, hsent⟩, hreply⟩
    refine ⟨?_, ?_⟩
    · rw [if_pos rfl, (hf row).1, Probe.answer_seqno]
      exact h.1
    · rw [if_pos rfl, (hf row).2, Probe.answer, if_pos hp]
      exact Option.some_ne_none _
  | false =>
    rw [if_neg (by decide)]
    cases hp : p.awaits seqno with
    | false =>
      rw [Probe.answer_of_not_awaits hp]
      exact h.later hclock
    | true =>
      have hnumber : row.seqno = seqno := h.1.trans (Probe.awaits_iff.mp hp).1
      have hgiven : row.isPending = false := by
        rw [decide_eq_true hnumber, Bool.true_and] at htest
        exact htest
      have hmatch := h.2
      refine ⟨h.1.trans (Probe.answer_seqno ..).symm, ?_⟩
      cases hstate : row.state with
      | pending => simp [ProbeRecord.isPending, hstate] at hgiven
      | replied =>
        rw [hstate] at hmatch
        exact absurd (Probe.awaits_iff.mp hp).2.2 hmatch
      | timedOut =>
        rw [hstate] at hmatch
        obtain ⟨sent, hsent, hover⟩ := hmatch
        refine ⟨sent, (Probe.answer_sentUs ..).trans hsent, hover.trans ?_⟩
        omega
      | noRoute =>
        rw [hstate] at hmatch
        exact (Probe.answer_sentUs ..).trans hmatch

end RowOf

/-! ### The folded measures -/

def maxTimeoutUs : Nat := maxPingInterval.asMicros

theorem min?_of_mem {vs ws : List Nat} {v : Nat} (hmem : ∀ w, w ∈ ws ↔ w = v ∨ w ∈ vs) :
    ws.min? = some (vs.min?.elim v (min v)) := by
  rw [List.min?_eq_some_iff]
  cases hleast : vs.min? with
  | none =>
    rw [List.min?_eq_none_iff] at hleast
    subst hleast
    simp [hmem]
  | some least =>
    obtain ⟨hin, hbelow⟩ := List.min?_eq_some_iff.mp hleast
    refine ⟨(hmem _).mpr ?_, ?_⟩
    · dsimp only [Option.elim]
      rcases Nat.le_total v least with hle | hle
      · exact .inl (Nat.min_eq_left hle)
      · rw [Nat.min_eq_right hle]
        exact .inr hin
    · intro w hw
      dsimp only [Option.elim]
      cases (hmem w).mp hw with
      | inl heq => omega
      | inr hold =>
        have := hbelow w hold
        omega

theorem max?_of_mem {vs ws : List Nat} {v : Nat} (hmem : ∀ w, w ∈ ws ↔ w = v ∨ w ∈ vs) :
    ws.max? = some (vs.max?.elim v (max v)) := by
  rw [List.max?_eq_some_iff]
  cases hgreatest : vs.max? with
  | none =>
    rw [List.max?_eq_none_iff] at hgreatest
    subst hgreatest
    simp [hmem]
  | some greatest =>
    obtain ⟨hin, habove⟩ := List.max?_eq_some_iff.mp hgreatest
    refine ⟨(hmem _).mpr ?_, ?_⟩
    · dsimp only [Option.elim]
      rcases Nat.le_total v greatest with hle | hle
      · rw [Nat.max_eq_right hle]
        exact .inr hin
      · exact .inl (Nat.max_eq_left hle)
    · intro w hw
      dsimp only [Option.elim]
      cases (hmem w).mp hw with
      | inl heq => omega
      | inr hold =>
        have := habove w hold
        omega

/-- The session has folded these round trips, none of them lost to a word too short. -/
structure Folded (s : PingSession) (vs : List Nat) : Prop where
  received : s.received = vs.length
  rttMinUs : s.rttMinUs = vs.min?.getD (2 ^ 32 - 1)
  rttMaxUs : s.rttMaxUs = vs.max?.getD 0
  rttSumUs : s.rttSumUs = vs.sum
  rttSumSqUs : s.rttSumSqUs = sumOfSquares vs
  bounded : ∀ v ∈ vs, v < maxTimeoutUs

namespace Folded

theorem sum_le {vs : List Nat} (h : ∀ v ∈ vs, v < maxTimeoutUs) :
    vs.sum ≤ vs.length * maxTimeoutUs :=
  List.sum_le_card_nsmul vs maxTimeoutUs fun v hv => (h v hv).le

theorem fold {s s' : PingSession} {vs ws : List Nat} {v : Nat} (h : Folded s vs)
    (hperm : ws.Perm (v :: vs)) (hv : v < maxTimeoutUs) (hcount : vs.length < maxPingCount)
    (hroom : sumOfSquares vs + v * v < 2 ^ 64)
    (hreceived : s'.received = saturate 32 (s.received + 1))
    (hmin : s'.rttMinUs = min s.rttMinUs v) (hmax : s'.rttMaxUs = max s.rttMaxUs v)
    (hsum : s'.rttSumUs = saturate 64 (s.rttSumUs + v))
    (hsumSq : s'.rttSumSqUs = saturate 64 (s.rttSumSqUs + v * v)) : Folded s' ws := by
  have hmem : ∀ w, w ∈ ws ↔ w = v ∨ w ∈ vs := by
    intro w
    rw [hperm.mem_iff, List.mem_cons]
  have hle := sum_le h.bounded
  have hlimit : maxTimeoutUs = 600000000 := by decide
  have hmost : maxPingCount = 1000 := rfl
  have hsmall : vs.length * maxTimeoutUs ≤ 1000 * 600000000 := by
    rw [hlimit]
    omega
  refine ⟨?_, ?_, ?_, ?_, ?_, ?_⟩
  · rw [hreceived, h.received, saturate_of_lt (by omega), hperm.length_eq, List.length_cons]
  · rw [hmin, h.rttMinUs, min?_of_mem hmem]
    cases vs.min? with
    | none =>
      dsimp only [Option.getD, Option.elim]
      omega
    | some least => exact Nat.min_comm _ _
  · rw [hmax, h.rttMaxUs, max?_of_mem hmem]
    cases vs.max? with
    | none => exact Nat.zero_max _
    | some greatest => exact Nat.max_comm _ _
  · rw [hsum, h.rttSumUs, saturate_of_lt (by omega), hperm.sum_nat, List.sum_cons, Nat.add_comm]
  · rw [hsumSq, h.rttSumSqUs, saturate_of_lt hroom]
    unfold sumOfSquares
    rw [(hperm.map _).sum_nat, List.map_cons, List.sum_cons, Nat.add_comm]
  · intro w hw
    cases (hmem w).mp hw with
    | inl heq => rw [heq]; exact hv
    | inr hold => exact h.bounded w hold

theorem same {s s' : PingSession} {vs : List Nat} (h : Folded s vs)
    (hreceived : s'.received = s.received) (hmin : s'.rttMinUs = s.rttMinUs)
    (hmax : s'.rttMaxUs = s.rttMaxUs) (hsum : s'.rttSumUs = s.rttSumUs)
    (hsumSq : s'.rttSumSqUs = s.rttSumSqUs) : Folded s' vs :=
  ⟨hreceived.trans h.received, hmin.trans h.rttMinUs, hmax.trans h.rttMaxUs,
    hsum.trans h.rttSumUs, hsumSq.trans h.rttSumSqUs, h.bounded⟩

variable {s : PingSession} {vs : List Nat}

theorem received_pos (h : Folded s vs) : 0 < s.received ↔ vs ≠ [] := by
  rw [h.received, List.length_pos_iff]

theorem rttMin_eq (h : Folded s vs) : s.rttMin = vs.min? := by
  unfold PingSession.rttMin
  rw [h.rttMinUs]
  cases hleast : vs.min? with
  | none =>
    rw [if_neg]
    rw [h.received_pos, not_not]
    exact List.min?_eq_none_iff.mp hleast
  | some least =>
    rw [if_pos]
    · rfl
    · rw [h.received_pos]
      intro hnil
      rw [hnil] at hleast
      cases hleast

theorem rttMax_eq (h : Folded s vs) : s.rttMax = vs.max? := by
  unfold PingSession.rttMax
  rw [h.rttMaxUs]
  cases hgreatest : vs.max? with
  | none =>
    rw [if_neg]
    rw [h.received_pos, not_not]
    exact List.max?_eq_none_iff.mp hgreatest
  | some greatest =>
    rw [if_pos]
    · rfl
    · rw [h.received_pos]
      intro hnil
      rw [hnil] at hgreatest
      cases hgreatest

theorem mean_le (hbounded : ∀ v ∈ vs, v < maxTimeoutUs) :
    meanOf vs ≤ maxTimeoutUs := by
  unfold meanOf
  exact Nat.div_le_of_le_mul (sum_le hbounded)

theorem rttAvg_eq (h : Folded s vs) : s.rttAvg = if vs = [] then none else some (meanOf vs) := by
  unfold PingSession.rttAvg
  by_cases hnil : vs = []
  · rw [if_pos hnil, if_neg]
    rw [h.received_pos, not_not]
    exact hnil
  · have hmean := mean_le h.bounded
    have hlimit : maxTimeoutUs = 600000000 := by decide
    rw [if_neg hnil, if_pos (h.received_pos.mpr hnil), h.rttSumUs, h.received]
    unfold meanOf at hmean ⊢
    rw [Nat.mod_eq_of_lt (by omega)]

theorem rttMdev_eq (h : Folded s vs) (hroom : sumOfSquares vs < 2 ^ 64) :
    s.rttMdev = if vs = [] then none else some (deviationOf vs) := by
  unfold PingSession.rttMdev
  by_cases hnil : vs = []
  · rw [if_pos hnil, if_pos]
    rw [h.received, hnil]
    rfl
  · have hpos := h.received_pos.mpr hnil
    rw [if_neg hnil, if_neg (by omega)]
    dsimp only
    rw [h.rttSumUs, h.rttSumSqUs, h.received]
    congr 1
    apply Nat.mod_eq_of_lt
    -- A square root of 64 bits has 32.
    rw [Nat.sqrt_lt]
    have hdiv := Nat.div_le_self (sumOfSquares vs) vs.length
    omega

end Folded

/-! ### The invariant -/

/-- The session accounts for every probe it started: those answered in time are folded,
and every other is lost or still pending. -/
structure AccountsFor (s : PingSession) (started : List Probe) (clockUs : Nat) : Prop where
  timeout_le : s.timeout.asMicros ≤ maxTimeoutUs
  requested_le : s.requested ≤ maxPingCount
  emitted_eq : s.emitted = started.length
  emitted_le : started.length ≤ s.requested
  numbered : started.map Probe.seqno =
    (List.range started.length).map fun i => (s.firstSeqno + i) % 2 ^ 16
  rows : s.probes.Mirrors (RowOf s.timeout.asMicros clockUs) started
  folded : Folded s (roundTrips s.timeout started)
  room : sumOfSquares (roundTrips s.timeout started) < 2 ^ 64
  balance : s.received + s.lost + s.probes.toList.countP ProbeRecord.isPending = started.length

theorem clamped_timeout_le (count : Nat) (interval timeout : Duration) (payloadLen : Nat) :
    (PingRouter.clamped count interval timeout payloadLen).timeout.asMicros ≤ maxTimeoutUs := by
  apply Duration.asMicros_mono
  unfold PingRouter.clamped defaultPingTimeout maxPingInterval minPingInterval Duration.ofSecs
    Duration.ofMillis
  dsimp only
  split
  · decide
  · exact Nat.max_le.mpr ⟨by decide, Nat.min_le_right ..⟩

theorem clamped_count_le (count : Nat) (interval timeout : Duration) (payloadLen : Nat) :
    (PingRouter.clamped count interval timeout payloadLen).count ≤ maxPingCount := by
  unfold PingRouter.clamped
  dsimp only
  split
  · decide
  · exact Nat.min_le_right ..

namespace AccountsFor

theorem fresh {sessionSeq : Nat} {target : Mac} {config : PingConfig} {firstSeqno : Nat}
    {now : Duration} {clockUs : Nat} (htimeout : config.timeout.asMicros ≤ maxTimeoutUs)
    (hcount : config.count ≤ maxPingCount) :
    AccountsFor (.new sessionSeq target config firstSeqno now) [] clockUs where
  timeout_le := htimeout
  requested_le := hcount
  emitted_eq := rfl
  emitted_le := Nat.zero_le _
  numbered := rfl
  rows := Mirrors.start
  folded := ⟨rfl, rfl, rfl, rfl, rfl, by simp [roundTrips]⟩
  room := Nat.two_pow_pos 64
  balance := rfl

variable {s : PingSession} {started : List Probe} {clockUs : Nat}

theorem timeout_lt (h : AccountsFor s started clockUs) : s.timeout.asMicros < 2 ^ 32 := by
  have hlimit : maxTimeoutUs = 600000000 := by decide
  have hle := h.timeout_le
  omega

theorem nodup (h : AccountsFor s started clockUs) : (started.map Probe.seqno).Nodup := by
  have hmost : maxPingCount = 1000 := rfl
  have hle := h.emitted_le.trans h.requested_le
  rw [h.numbered]
  apply List.Nodup.map_on _ List.nodup_range
  intro i hi j hj heq
  rw [List.mem_range] at hi hj
  omega

theorem later {clockUs' : Nat} (h : AccountsFor s started clockUs) (hclock : clockUs ≤ clockUs') :
    AccountsFor s started clockUs' := by
  have hrows := h.rows.change (f := id) (g := id) (w := s.probes)
    (S := RowOf s.timeout.asMicros clockUs') (List.map_id _).symm
    fun x _ y _ hxy => hxy.later hclock
  rw [List.map_id] at hrows
  exact { h with rows := hrows }

theorem expire {now : Duration} (h : AccountsFor s started clockUs) (hclock : clockUs ≤ now.asMicros) :
    AccountsFor (s.expire now) started now.asMicros := by
  have hcountP := List.countP_map_ite (q := ProbeRecord.isPending)
    (f := fun p => { p with state := .timedOut })
    (fun row hrow => (Bool.and_eq_true_iff.mp (show s.overdue now row = true from hrow)).1)
    (fun _ => rfl) s.probes.toList
  have hrows := h.rows.change (g := id)
    (w := s.probes.map fun p => if s.overdue now p then { p with state := .timedOut } else p)
    (S := RowOf s.timeout.asMicros now.asMicros) rfl
    fun x _ y _ hxy => hxy.expire h.timeout_lt hclock
  rw [List.map_id] at hrows
  have hbalance := h.balance
  have hle := h.emitted_le.trans h.requested_le
  have hmost : maxPingCount = 1000 := rfl
  refine { h with rows := hrows, folded := ?_, balance := ?_ }
  · exact h.folded.same rfl rfl rfl rfl rfl
  · change s.received + saturate 32 (s.lost + s.probes.toList.countP (s.overdue now)) +
      List.countP _ (s.probes.toList.map _) = started.length
    rw [saturate_of_lt (by omega), Nat.add_assoc, Nat.add_assoc]
    omega

theorem record {now : Duration} {lost : Nat} {row : ProbeRecord} {p : Probe}
    (h : AccountsFor s started clockUs) (hdue : s.emitted < s.requested)
    (hseqno : p.seqno = s.nextSeqno) (hreply : p.replyUs = none)
    (hrow : RowOf s.timeout.asMicros clockUs row p)
    (hlost : lost + [row].countP ProbeRecord.isPending = s.lost + 1) :
    AccountsFor ({ s.advance now with lost := lost }.push row) (started ++ [p]) clockUs := by
  have hmost : maxPingCount = 1000 := rfl
  have hle := h.requested_le
  have hemitted := h.emitted_eq
  have hbalance := h.balance
  have htrips : roundTrips s.timeout (started ++ [p]) = roundTrips s.timeout started := by
    unfold roundTrips
    rw [List.filterMap_append, List.filterMap_cons_none (Probe.roundTrip_of_no_reply hreply),
      List.filterMap_nil, List.append_nil]
  have hcounted := countP_pushOut (by decide) s.probes row ProbeRecord.isPending
  have hevicted : (if (s.probes.pushOut row).1.any ProbeRecord.isPending then saturate 32 (lost + 1)
      else lost) = lost + (s.probes.pushOut row).1.toList.countP ProbeRecord.isPending := by
    rw [saturate_of_lt (by omega)]
    cases (s.probes.pushOut row).1 with
    | none => rfl
    | some evicted =>
      rw [Option.any_some, Option.toList_some, List.countP_singleton]
      split <;> rfl
  constructor
  · exact h.timeout_le
  · exact h.requested_le
  · change saturate 16 (s.emitted + 1) = _
    rw [saturate_of_lt (by omega), hemitted, List.length_append, List.length_singleton]
  · rw [List.length_append, List.length_singleton]
    change started.length + 1 ≤ s.requested
    omega
  · rw [List.map_append, List.length_append, List.length_singleton, List.range_succ,
      List.map_append, h.numbered, List.map_singleton, List.map_singleton, hseqno]
    unfold PingSession.nextSeqno
    rw [hemitted]
    rfl
  · exact h.rows.push (by decide) hrow
  · change Folded _ (roundTrips s.timeout (started ++ [p]))
    rw [htrips]
    exact h.folded.same rfl rfl rfl rfl rfl
  · change sumOfSquares (roundTrips s.timeout (started ++ [p])) < 2 ^ 64
    rw [htrips]
    exact h.room
  · change s.received + (if (s.probes.pushOut row).1.any ProbeRecord.isPending then
        saturate 32 (lost + 1) else lost) +
      (s.probes.pushOut row).2.toList.countP ProbeRecord.isPending = (started ++ [p]).length
    rw [hevicted, List.length_append, List.length_singleton]
    omega

theorem recordNoRoute {now : Duration} (h : AccountsFor s started clockUs)
    (hdue : s.emitted < s.requested) :
    AccountsFor (s.recordNoRoute now) (started ++ [⟨s.nextSeqno, none, none⟩]) clockUs := by
  have hmost : maxPingCount = 1000 := rfl
  have hle := h.emitted_le.trans h.requested_le
  have hbalance := h.balance
  refine h.record hdue rfl rfl ⟨rfl, rfl⟩ ?_
  rw [saturate_of_lt (by omega)]
  rfl

theorem recordSent {now : Duration} (h : AccountsFor s started now.asMicros)
    (hdue : s.emitted < s.requested) :
    AccountsFor (s.recordSent now).1 (started ++ [⟨s.nextSeqno, some now.asMicros, none⟩])
      now.asMicros :=
  h.record hdue rfl rfl ⟨rfl, rfl, now.asMicros, rfl, Nat.le_refl _, rfl⟩ rfl

variable {now : Duration} {seqno : Nat}

theorem numbered_answer (h : AccountsFor s started clockUs) :
    (started.map (Probe.answer seqno now.asMicros)).map Probe.seqno =
      (List.range (started.map (Probe.answer seqno now.asMicros)).length).map fun i =>
        (s.firstSeqno + i) % 2 ^ 16 := by
  rw [List.length_map, ← h.numbered, List.map_map]
  apply List.map_congr_left
  intro p _
  exact Probe.answer_seqno ..

/-- A probe still waited for, whose number is among the last sixteen, has a row pending as
long as its timeout has not passed. -/
theorem pending_of_timely {p : Probe} {sent : Nat} (h : AccountsFor s started clockUs)
    (hclock : clockUs ≤ now.asMicros) (hp : p ∈ started) (hawaits : p.awaits seqno = true)
    (hsent : p.sentUs = some sent) (htimely : now.asMicros - sent < s.timeout.asMicros)
    (hrecent : p.seqno ∈ (started.drop (started.length - maxPingProbes)).map Probe.seqno) :
    ∃ row ∈ s.probes.toList, row.seqno = seqno ∧ row.isPending = true := by
  obtain ⟨p', hp', hsame⟩ := List.mem_map.mp hrecent
  obtain rfl : p' = p := List.inj_on_of_nodup_map h.nodup (List.mem_of_mem_drop hp') hp hsame
  obtain ⟨row, hrow, hrowOf⟩ := h.rows.exists_row hp'
  refine ⟨row, hrow, hrowOf.1.trans (Probe.awaits_iff.mp hawaits).1, ?_⟩
  cases hrowOf.of_awaits hawaits with
  | inl hpending => exact hpending
  | inr hover =>
    obtain ⟨sent', hsent', hover⟩ := hover
    obtain rfl : sent' = sent := Option.some.inj (hsent'.symm.trans hsent)
    omega

theorem reply_unmatched (h : AccountsFor s started clockUs) (hclock : clockUs ≤ now.asMicros)
    (hfair : ∀ p ∈ started, p.awaits seqno = true → PingRun.FairReply s started now p)
    (hnone : ∀ row ∈ s.probes.toList,
      (decide (row.seqno = seqno) && row.isPending) = false) :
    AccountsFor s (started.map (Probe.answer seqno now.asMicros)) now.asMicros := by
  have htrips : roundTrips s.timeout (started.map (Probe.answer seqno now.asMicros)) =
      roundTrips s.timeout started := by
    unfold roundTrips
    rw [List.filterMap_map]
    apply List.filterMap_congr
    intro p hp
    rw [Function.comp_apply]
    cases hawaits : p.awaits seqno with
    | false => rw [Probe.answer_of_not_awaits hawaits]
    | true =>
      obtain ⟨-, ⟨sent, hsent⟩, hreply⟩ := Probe.awaits_iff.mp hawaits
      rw [Probe.roundTrip_answer hawaits hsent, Probe.roundTrip_of_no_reply hreply, if_neg]
      intro htimely
      have hrecent := hfair p hp hawaits
      unfold PingRun.FairReply at hrecent
      rw [hsent, Option.getD_some, if_pos htimely] at hrecent
      obtain ⟨row, hrow, hnumber, hpending⟩ :=
        h.pending_of_timely hclock hp hawaits hsent htimely hrecent.1
      have hunmatched := hnone row hrow
      rw [hpending, decide_eq_true hnumber] at hunmatched
      cases hunmatched
  have hrows := h.rows.change (g := Probe.answer seqno now.asMicros) (w := s.probes)
    (S := RowOf s.timeout.asMicros now.asMicros)
    (List.map_ite_of_none (f := fun row => { row with state := .replied }) hnone).symm
    fun x _ y _ hxy =>
      hxy.answer (f := fun row => { row with state := .replied }) (fun _ => ⟨rfl, rfl⟩) hclock
  refine ⟨h.timeout_le, h.requested_le, ?_, ?_, h.numbered_answer, hrows, ?_, ?_, ?_⟩
  · rw [List.length_map]
    exact h.emitted_eq
  · rw [List.length_map]
    exact h.emitted_le
  · rw [htrips]
    exact h.folded
  · rw [htrips]
    exact h.room
  · rw [List.length_map]
    exact h.balance

theorem reply_credited {row : ProbeRecord} {probes : Bounded ProbeRecord maxPingProbes}
    {s' : PingSession} {f : ProbeRecord → ProbeRecord} (h : AccountsFor s started clockUs)
    (hclock : clockUs ≤ now.asMicros)
    (hfair : ∀ p ∈ started, p.awaits seqno = true → PingRun.FairReply s started now p)
    (hf : ∀ row, (f row).seqno = row.seqno ∧ (f row).state = .replied)
    (hfound : s.probes.changeFirst (fun p => decide (p.seqno = seqno) && p.isPending) f =
      some (row, probes))
    (hs' : s' = { s with
      received := saturate 32 (s.received + 1)
      rttMinUs := min s.rttMinUs (wrappingSub (us now) row.sentAtUs)
      rttMaxUs := max s.rttMaxUs (wrappingSub (us now) row.sentAtUs)
      rttSumUs := saturate 64 (s.rttSumUs + wrappingSub (us now) row.sentAtUs)
      rttSumSqUs := saturate 64 (s.rttSumSqUs +
        wrappingSub (us now) row.sentAtUs * wrappingSub (us now) row.sentAtUs)
      probes := probes }) :
    AccountsFor s' (started.map (Probe.answer seqno now.asMicros)) now.asMicros := by
  have hfirst := toList_changeFirst hfound
  obtain ⟨before, after, hrows, -, htest, -⟩ := List.changeFirst_split hfirst
  obtain ⟨hnumber, hpending⟩ := Bool.and_eq_true_iff.mp htest
  have hnumber := of_decide_eq_true hnumber
  have hrow : row ∈ s.probes.toList := by
    rw [hrows]
    exact List.mem_append_right _ (List.mem_cons_self ..)
  obtain ⟨p, hp, hrowOf⟩ := h.rows.exists_element hrow
  obtain ⟨hreply, sent, hsent, hle, hat⟩ := hrowOf.pending hpending
  have hawaits : p.awaits seqno = true :=
    Probe.awaits_iff.mpr ⟨hrowOf.1.symm.trans hnumber, ⟨sent, hsent⟩, hreply⟩
  -- The row is pending, so that the reply cannot be one too late.
  have hfairp := hfair p hp hawaits
  unfold PingRun.FairReply at hfairp
  rw [hsent, Option.getD_some] at hfairp
  have htimely : now.asMicros - sent < s.timeout.asMicros := by
    by_contra hlate
    rw [if_neg hlate] at hfairp
    rw [hfairp row hrow hrowOf.1] at hpending
    cases hpending
  rw [if_pos htimely] at hfairp
  have hshort := h.timeout_lt
  have hrtt : wrappingSub (us now) row.sentAtUs = now.asMicros - sent := by
    rw [hat, wrappingSub_us (hle.trans hclock), Nat.mod_eq_of_lt (htimely.trans hshort)]
  rw [hrtt] at hs'
  have hperm : (roundTrips s.timeout (started.map (Probe.answer seqno now.asMicros))).Perm
      ((now.asMicros - sent) :: roundTrips s.timeout started) := by
    apply List.perm_filterMap_map hp h.nodup (Probe.roundTrip_of_no_reply hreply)
    · rw [Probe.roundTrip_answer hawaits hsent, if_pos htimely]
    · intro q _ hother
      rw [Probe.answer_of_not_awaits]
      rw [Bool.eq_false_iff]
      intro hq
      exact hother ((Probe.awaits_iff.mp hq).1.trans (Probe.awaits_iff.mp hawaits).1.symm)
  have hdistinct : (s.probes.toList.map ProbeRecord.seqno).Nodup :=
    h.rows.nodup (fun _ _ hxy => hxy.1) h.nodup
  have hchanged := List.changeFirst_eq_map hdistinct (fun y hy => by
      rw [hnumber]
      exact of_decide_eq_true (Bool.and_eq_true_iff.mp hy).1) hfirst
  have hcounted := List.countP_changeFirst (q := ProbeRecord.isPending) hfirst hpending
    (by simp [ProbeRecord.isPending, (hf row).2])
  have hbalance := h.balance
  have hmost : maxPingCount = 1000 := rfl
  have hcount := h.emitted_le.trans h.requested_le
  have hreceived := h.folded.received
  subst hs'
  constructor
  · exact h.timeout_le
  · exact h.requested_le
  · rw [List.length_map]
    exact h.emitted_eq
  · rw [List.length_map]
    exact h.emitted_le
  · exact h.numbered_answer
  · exact h.rows.change hchanged fun x _ y _ hxy => hxy.answer hf hclock
  · exact h.folded.fold hperm (htimely.trans_le h.timeout_le) (by omega) hfairp.2 rfl rfl rfl rfl
      rfl
  · change sumOfSquares (roundTrips s.timeout _) < 2 ^ 64
    unfold sumOfSquares
    rw [(hperm.map _).sum_nat, List.map_cons, List.sum_cons, Nat.add_comm]
    exact hfairp.2
  · change saturate 32 (s.received + 1) + s.lost + probes.toList.countP ProbeRecord.isPending = _
    rw [saturate_of_lt (by omega), List.length_map]
    omega

theorem reply {peer : Mac} {fwdHops revHops : U8} (h : AccountsFor s started clockUs)
    (hclock : clockUs ≤ now.asMicros)
    (hfair : s.target = peer → ∀ p ∈ started, p.awaits seqno = true →
      PingRun.FairReply s started now p) :
    AccountsFor (s.recordReply now peer seqno fwdHops revHops).1
      (if s.target = peer then started.map (Probe.answer seqno now.asMicros) else started)
      now.asMicros := by
  unfold PingSession.recordReply
  by_cases hpeer : s.target = peer
  · rw [if_neg (by simp [hpeer]), if_pos hpeer]
    split
    · rename_i hnone
      exact h.reply_unmatched hclock (hfair hpeer) (changeFirst_eq_none.mp hnone)
    · rename_i hfound
      refine h.reply_credited hclock (hfair hpeer) ?_ hfound rfl
      exact fun _ => ⟨rfl, rfl⟩
  · rw [if_pos (fun heq => hpeer heq.symm), if_neg hpeer]
    exact h.later hclock

end AccountsFor

/-! ### Polls -/

namespace PingSession

theorem due_expire (s : PingSession) (t now : Duration) : (s.expire t).due now = s.due now := rfl

theorem lt_of_due {s : PingSession} {now : Duration} (h : s.due now = true) :
    s.emitted < s.requested :=
  (of_decide_eq_true h).1

end PingSession

namespace PingRouter

variable {e : Capacities} {a : AuthCapacities}

/-- What a poll comes to: nothing due, a probe that cannot go out, or one that does. -/
theorem pollPing_cases (r : PingRouter e a) {session : PingSession} (now : Duration) (txLen : Nat)
    (h : r.ping = some session) :
    (session.due now = false ∧
      r.pollPing now txLen = ({ r with ping := some (session.expire now) }, none)) ∨
    (session.due now = true ∧ r.pollPing now txLen =
      ({ r with ping := some ((session.expire now).recordNoRoute now) }, none)) ∨
    (session.due now = true ∧ ∃ payloadLen frame,
      let noted := (session.expire now).notePayloadEmitted payloadLen
      r.pollPing now txLen = ({ r with ping := some (noted.recordSent now).1 }, some frame)) := by
  unfold pollPing
  rw [h]
  dsimp only
  rw [session.due_expire]
  cases hdue : session.due now with
  | false => exact .inl ⟨rfl, rfl⟩
  | true =>
    rw [if_neg (by decide)]
    right
    cases r.core.authLocked with
    | true => exact .inl ⟨rfl, rfl⟩
    | false =>
      rw [if_neg (by decide)]
      cases r.core.resolveNextHop now (session.expire now).target with
      | none => exact .inl ⟨rfl, rfl⟩
      | some nextHop =>
        dsimp only
        split
        · exact .inl ⟨rfl, rfl⟩
        · exact .inr ⟨rfl, _, _, rfl⟩

end PingRouter

/-! ### Whole runs -/

namespace PingRun

variable {e : Capacities} {a : AuthCapacities}

/-- The session the run is about is there, and accounts for its probes. -/
def Tracked (s : PingRun e a) : Prop :=
  ∃ session, s.router.ping = some session ∧ AccountsFor session s.started s.clock.asMicros

theorem tracked_start (r : PingRouter e a) (now : Duration) (target : Mac) (count : Nat)
    (interval timeout : Duration) (payloadLen : Nat) :
    Tracked (start r now target count interval timeout payloadLen) :=
  ⟨_, rfl, AccountsFor.fresh (clamped_timeout_le ..) (clamped_count_le ..)⟩

theorem tracked_step {s : PingRun e a} {op : PingOp e a} (h : Tracked s) (hordered : Ordered s op)
    (hfair : Fair s op) : Tracked (s.step op) := by
  obtain ⟨session, hping, htracks⟩ := h
  cases op with
  | elsewhere core => exact ⟨session, hping, htracks⟩
  | poll now txLen =>
    have hexpired := htracks.expire (Duration.asMicros_mono hordered)
    obtain ⟨hdue, hpoll⟩ | ⟨hdue, hpoll⟩ | ⟨hdue, payloadLen, frame, hpoll⟩ :=
      s.router.pollPing_cases now txLen hping
    · refine ⟨session.expire now, by simp only [step, hpoll], ?_⟩
      simpa only [step, hping, Option.elim, hdue, Bool.false_eq_true, if_false, List.append_nil]
        using hexpired
    · have hrecorded : AccountsFor ((session.expire now).recordNoRoute now)
          (s.started ++ [⟨session.nextSeqno, none, none⟩]) now.asMicros :=
        hexpired.recordNoRoute (PingSession.lt_of_due hdue)
      refine ⟨_, by rw [step, hpoll], ?_⟩
      simpa only [step, hpoll, hping, Option.elim, hdue, if_true, Option.map_none] using hrecorded
    · dsimp only at hpoll
      have hnoted : AccountsFor ((session.expire now).notePayloadEmitted payloadLen) s.started
          now.asMicros :=
        { hexpired with folded := hexpired.folded.same rfl rfl rfl rfl rfl }
      have hrecorded : AccountsFor (((session.expire now).notePayloadEmitted payloadLen).recordSent
          now).1 (s.started ++ [⟨session.nextSeqno, some now.asMicros, none⟩]) now.asMicros :=
        hnoted.recordSent (PingSession.lt_of_due hdue)
      refine ⟨_, by rw [step, hpoll], ?_⟩
      simpa only [step, hpoll, hping, Option.elim, hdue, if_true, Option.map_some] using hrecorded
  | reply now peer seqno fwdHops revHops =>
    have hreplied : AccountsFor (session.recordReply now peer seqno fwdHops revHops).1
        (if session.target = peer then s.started.map (Probe.answer seqno now.asMicros)
          else s.started) now.asMicros := by
      apply htracks.reply (Duration.asMicros_mono hordered)
      intro hpeer p hp hawaits
      exact hfair session (by rw [hping]; exact List.mem_singleton.mpr rfl) hpeer p hp hawaits
    refine ⟨_, by rw [step, PingRouter.creditReply, hping]; rfl, ?_⟩
    simpa only [step, hping, Option.any_some, decide_eq_true_eq] using hreplied

theorem exact_of_accountsFor {session : PingSession} {started : List Probe} {clockUs : Nat}
    (h : AccountsFor session started clockUs) (hinactive : session.active = false) :
    session.Exact started := by
  have hpending : session.probes.toList.countP ProbeRecord.isPending = 0 := by
    rw [List.countP_eq_zero]
    intro row hrow
    unfold PingSession.active at hinactive
    rw [Bool.or_eq_false_iff, List.any_eq_false] at hinactive
    exact hinactive.2 row hrow
  have hbalance := h.balance
  have hreceived := h.folded.received
  have hsplit : (roundTrips session.timeout started).length +
      (started.countP fun p => (p.roundTrip session.timeout.asMicros).isNone) =
        started.length := by
    have hboth := List.length_eq_countP_add_countP (l := started)
      fun p => (p.roundTrip session.timeout.asMicros).isSome
    unfold roundTrips
    rw [List.length_filterMap_eq_countP, hboth]
    congr 2
    funext p
    cases p.roundTrip session.timeout.asMicros <;> rfl
  refine ⟨hreceived, by omega, h.folded.rttMin_eq, h.folded.rttMax_eq, h.folded.rttAvg_eq,
    h.folded.rttMdev_eq h.room⟩

/-- Of a session that is asked for in any way and driven in any order, with any replies
lost, repeated or late, the statistics are exact once it is inactive, as long as no reply
in time comes after sixteen more probes or overflows the sum of squares, and none too late
comes before a poll has aged its row out. -/
theorem statistics_exact (r : PingRouter e a) (now : Duration) (target : Mac) (count : Nat)
    (interval timeout : Duration) (payloadLen : Nat) (ops : List (PingOp e a))
    (hordered : AllSafe step Ordered (start r now target count interval timeout payloadLen) ops)
    (hfair : AllSafe step Fair (start r now target count interval timeout payloadLen) ops) :
    ∃ session, (run step (start r now target count interval timeout payloadLen) ops).router.ping =
        some session ∧
      (session.active = false → session.Exact
        (run step (start r now target count interval timeout payloadLen) ops).started) := by
  have hsafe : AllSafe step (fun s op => Ordered s op ∧ Fair s op)
      (start r now target count interval timeout payloadLen) ops :=
    fun pre op hpre => ⟨hordered pre op hpre, hfair pre op hpre⟩
  have hall : AllGood step Tracked (start r now target count interval timeout payloadLen) ops :=
    allGood_of_allSafe (tracked_start r now target count interval timeout payloadLen)
      (fun pre op hgood hsafe => tracked_step hgood hsafe.1 hsafe.2) hsafe
  obtain ⟨session, hping, htracks⟩ := hall ops (List.prefix_refl ops)
  exact ⟨session, hping, exact_of_accountsFor htracks⟩

/-! ### Where they drift -/

instance (session : PingSession) (started : List Probe) : Decidable (session.Exact started) :=
  decidable_of_iff
    (session.received = (roundTrips session.timeout started).length ∧
      (session.lost = started.countP fun p => (p.roundTrip session.timeout.asMicros).isNone) ∧
      session.rttMin = (roundTrips session.timeout started).min? ∧
      session.rttMax = (roundTrips session.timeout started).max? ∧
      (session.rttAvg = if roundTrips session.timeout started = [] then none
        else some (meanOf (roundTrips session.timeout started))) ∧
      session.rttMdev = if roundTrips session.timeout started = [] then none
        else some (deviationOf (roundTrips session.timeout started))) <| by
    constructor
    · intro ⟨received, lost, least, greatest, mean, deviation⟩
      exact ⟨received, lost, least, greatest, mean, deviation⟩
    · intro h
      exact ⟨h.received, h.lost, h.rttMin, h.rttMax, h.rttAvg, h.rttMdev⟩

/-- A run in order that leaves a session inactive, its statistics not those of its probes. -/
def Drifts (s : PingRun e a) (ops : List (PingOp e a)) : Prop :=
  AllSafe step Ordered s ops ∧ ∃ session ∈ (run step s ops).router.ping.toList,
    session.active = false ∧ ¬ session.Exact (run step s ops).started

instance (s : PingRun e a) (ops : List (PingOp e a)) : Decidable (Drifts s ops) := by
  unfold Drifts
  infer_instance

end PingRun

namespace SmallMesh

open BatmanEngine (smallCapacities)

/-- A node without a certificate and without routes, which takes any address for a device
on its own link. -/
def pinger : PingRouter smallCapacities capacities :=
  .ofCore (.withCapacities smallCapacities capacities (Mac.low 1))

def pinging (count : Nat) (interval timeout : Duration) : PingRun smallCapacities capacities :=
  .start pinger 0 (Mac.low 9) count interval timeout 0

def probeAt (now : Duration) : PingOp smallCapacities capacities := .poll now 200

def replyAt (now : Duration) (seqno : Nat) : PingOp smallCapacities capacities :=
  .reply now (Mac.low 9) seqno 1 1

/-- Three probes: the replies to the first two come out of order, one of them twice, and the
one to the third after it was aged out. -/
def shuffled : List (PingOp smallCapacities capacities) :=
  [probeAt 0, probeAt (Duration.ofMillis 50), replyAt (Duration.ofMillis 60) 1,
    replyAt (Duration.ofMillis 70) 0, replyAt (Duration.ofMillis 80) 1,
    probeAt (Duration.ofMillis 100), probeAt (Duration.ofMillis 400),
    replyAt (Duration.ofMillis 500) 2]

theorem statistics_exact_shuffled :
    ∃ session, (run PingRun.step (pinging 3 (Duration.ofMillis 50) (Duration.ofMillis 200))
        shuffled).router.ping = some session ∧ session.received = 2 ∧ session.lost = 1 ∧
      session.Exact (run PingRun.step
        (pinging 3 (Duration.ofMillis 50) (Duration.ofMillis 200)) shuffled).started := by
  obtain ⟨session, hping, hexact⟩ := PingRun.statistics_exact pinger 0 (Mac.low 9) 3
    (Duration.ofMillis 50) (Duration.ofMillis 200) 0 shuffled (by decide +kernel)
    (by decide +kernel)
  have hended : (run PingRun.step (pinging 3 (Duration.ofMillis 50) (Duration.ofMillis 200))
      shuffled).router.ping.any (fun session => !session.active &&
        decide (session.received = 2 ∧ session.lost = 1)) = true := by decide +kernel
  have hping' : (run PingRun.step (pinging 3 (Duration.ofMillis 50) (Duration.ofMillis 200))
      shuffled).router.ping = some session := hping
  rw [hping', Option.any_some, Bool.and_eq_true, Bool.not_eq_true', decide_eq_true_iff] at hended
  obtain ⟨hinactive, hreceived, hlost⟩ := hended
  exact ⟨session, hping, hreceived, hlost, hexact hinactive⟩

/-- Seventeen probes in flight, all answered long before their timeout. -/
def evicted : List (PingOp smallCapacities capacities) :=
  (List.range 17).map (fun i => probeAt (Duration.ofMillis (50 * i))) ++
    (List.range 17).map fun i => replyAt (Duration.ofMillis (2000 + i)) i

/-- One probe, answered a second after a timeout of 50 ms that no poll looked at. -/
def straggler : List (PingOp smallCapacities capacities) :=
  [probeAt 0, replyAt (Duration.ofSecs 1) 0]

/-- Round trips of a second and of almost ten minutes by turns. -/
def saturated : List (PingOp smallCapacities capacities) :=
  (List.range 120).flatMap fun i =>
    [probeAt (Duration.ofSecs (600 * i)),
      replyAt (Duration.ofSecs (600 * i + if i % 2 = 0 then 1 else 599)) i]

/-- The ring drops a row still waiting, a row not yet aged out takes a reply too late, and
the sum of squares is full after some fifty round trips of ten minutes. -/
theorem statistics_drift :
    PingRun.Drifts (pinging 17 (Duration.ofMillis 50) (Duration.ofSecs 600)) evicted ∧
    PingRun.Drifts (pinging 1 (Duration.ofMillis 50) (Duration.ofMillis 50)) straggler ∧
    PingRun.Drifts (pinging 120 (Duration.ofSecs 600) (Duration.ofSecs 600)) saturated := by
  refine ⟨?_, ?_, ?_⟩
  · decide +kernel
  · decide +kernel
  · decide +kernel

end SmallMesh

end Wayfinder
