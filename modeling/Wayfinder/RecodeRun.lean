import Wayfinder.RecodeRx

/-!
# Whole histories under other numbers

Two runs of an engine over the same frames, the numbers of one originator or the clock
of the driver shifted in one of them. Nothing of a run depends on where the clock
started. It does depend on where the counter of an originator started: the newer of two
numbers of a path is told by a plain comparison, which a counter that wraps turns round.
-/

namespace Wayfinder

set_option autoImplicit false

open Table

/-- What an operation of the engine puts out. -/
inductive EngineOut where
  | received (action : RoutingAction) (reply : Option LinkFrameData) (out : FrameSink)
  | ogm (bytes : Bytes)
  | seqno (n : U32)

namespace BatmanEngine

variable {c : Capacities}

def output (e : BatmanEngine c) : EngineOp → Option EngineOut
  | .handleRx now frame localQuality replyLen out =>
    let r := e.handleRx now frame localQuality replyLen out
    some (.received r.action r.reply r.out)
  | .producePeriodicBroadcast now => some (.ogm (e.producePeriodicBroadcast now).2)
  | .nextBroadcastSeqno => some (.seqno e.nextBroadcastSeqno.2)
  | _ => none

end BatmanEngine

namespace Recoding

variable (s : Recoding) {c : Capacities}

def op : EngineOp → EngineOp
  | .handleRx now frame localQuality replyLen out =>
    .handleRx (s.instant now) (s.frame frame) localQuality replyLen out
  | .noteProven now neighbor iface => .noteProven (s.instant now) neighbor iface
  | .noteChallenged now neighbor => .noteChallenged (s.instant now) neighbor
  | .setRequireProof require => .setRequireProof require
  | .purgeStale now => .purgeStale (s.instant now)
  | .reset => .reset
  | .retainProven now usable => .retainProven (s.instant now) usable
  | .revokeOriginators revoked => .revokeOriginators revoked
  | .resetOgmTimers now => .resetOgmTimers (s.instant now)
  | .setLocalMcastGroups now groups => .setLocalMcastGroups (s.instant now) groups
  | .configureInterfaceOgm idx iMin iMax now =>
    .configureInterfaceOgm idx iMin iMax (s.instant now)
  | .configureInterfaceKeepalive idx interval now =>
    .configureInterfaceKeepalive idx interval (s.instant now)
  | .onInterfaceEmitted idx now => .onInterfaceEmitted idx (s.instant now)
  | .onKeepaliveEmitted idx now => .onKeepaliveEmitted idx (s.instant now)
  | .producePeriodicBroadcast now => .producePeriodicBroadcast (s.instant now)
  | .nextBroadcastSeqno => .nextBroadcastSeqno

def output : EngineOut → EngineOut
  | .received action reply out => .received action (reply.map s.sent) out
  | o => o

/-- The one plain comparison of two sequence numbers comes out the same. -/
def SafeOp (e : BatmanEngine c) : EngineOp → Prop
  | .handleRx now frame _ _ _ => s.ComparableOgm e now frame
  | _ => True

theorem step_engine (e : BatmanEngine c) (o : EngineOp) (h : s.SafeOp e o) :
    (s.engine e).step (s.op o) = s.engine (e.step o) := by
  cases o with
  | handleRx now frame localQuality replyLen out =>
    exact congrArg RxResult.engine (s.handleRx_engine e now frame h)
  | noteProven now neighbor iface => exact s.noteProven_engine e now neighbor iface
  | noteChallenged now neighbor => exact s.noteChallenged_engine e now neighbor
  | setRequireProof require => rfl
  | purgeStale now => exact s.purgeStale_engine e now
  | reset => rfl
  | retainProven now usable => exact s.retainProven_engine e now usable
  | revokeOriginators revoked => exact s.revokeOriginators_engine e revoked
  | resetOgmTimers now => exact s.resetOgmTimers_engine e now
  | setLocalMcastGroups now groups => exact s.setLocalMcastGroups_engine e now groups
  | configureInterfaceOgm idx iMin iMax now =>
    exact s.configureInterfaceOgm_engine e now idx iMin iMax
  | configureInterfaceKeepalive idx interval now =>
    exact s.configureInterfaceKeepalive_engine e now idx interval
  | onInterfaceEmitted idx now => exact s.onInterfaceEmitted_engine e now idx
  | onKeepaliveEmitted idx now => exact s.onKeepaliveEmitted_engine e now idx
  | producePeriodicBroadcast now =>
    exact fst_of_eq_mk (s.producePeriodicBroadcast_engine e now)
  | nextBroadcastSeqno => rfl

theorem output_engine (e : BatmanEngine c) (o : EngineOp) (h : s.SafeOp e o) :
    (s.engine e).output (s.op o) = (e.output o).map s.output := by
  cases o with
  | handleRx now frame localQuality replyLen out =>
    have hrx := @handleRx_engine s c e now frame localQuality replyLen out h
    unfold BatmanEngine.output op
    dsimp only
    rw [hrx]
    rfl
  | producePeriodicBroadcast now =>
    exact congrArg (fun bytes => some (EngineOut.ogm bytes))
      (snd_of_eq_mk (s.producePeriodicBroadcast_engine e now))
  | _ => rfl

/-- Every query, asked at the recoded instant, has the answer it had. -/
structure SameAnswers (e e' : BatmanEngine c) : Prop where
  nextHop : ∀ now dest, e'.nextHop (s.instant now) dest = e.nextHop now dest
  nextHopUnprovenOk : ∀ now dest,
    e'.nextHopUnprovenOk (s.instant now) dest = e.nextHopUnprovenOk now dest
  proofCurrent : ∀ now mac, e'.proofCurrent (s.instant now) mac = e.proofCurrent now mac
  keepaliveMissed : ∀ now mac, e'.keepaliveMissed (s.instant now) mac = e.keepaliveMissed now mac
  challengeCandidate : ∀ now, e'.challengeCandidate (s.instant now) = e.challengeCandidate now
  nextChallengeAfter : ∀ now, e'.nextChallengeAfter (s.instant now) = e.nextChallengeAfter now
  nextBroadcastAfter : ∀ now, e'.nextBroadcastAfter (s.instant now) = e.nextBroadcastAfter now
  dueInterface : ∀ now, e'.dueInterface (s.instant now) = e.dueInterface now
  nextKeepaliveAfter : ∀ now, e'.nextKeepaliveAfter (s.instant now) = e.nextKeepaliveAfter now
  dueKeepaliveInterface : ∀ now,
    e'.dueKeepaliveInterface (s.instant now) = e.dueKeepaliveInterface now

theorem sameAnswers_engine (e : BatmanEngine c) : s.SameAnswers e (s.engine e) where
  nextHop := s.nextHop_engine e
  nextHopUnprovenOk := s.nextHopUnprovenOk_engine e
  proofCurrent := s.proofCurrent_engine e
  keepaliveMissed := s.keepaliveMissed_engine e
  challengeCandidate := s.challengeCandidate_engine e
  nextChallengeAfter := s.nextChallengeAfter_engine e
  nextBroadcastAfter := s.nextBroadcastAfter_engine e
  dueInterface := s.dueInterface_engine e
  nextKeepaliveAfter := s.nextKeepaliveAfter_engine e
  dueKeepaliveInterface := s.dueKeepaliveInterface_engine e

/-- The recoded run of a recoded engine. -/
structure RunRecoded (e : BatmanEngine c) (ops : List EngineOp) : Prop where
  state : (s.engine e).run (ops.map s.op) = s.engine (e.run ops)
  outputs : Run.trace BatmanEngine.step BatmanEngine.output (s.engine e) (ops.map s.op) =
    (Run.trace BatmanEngine.step BatmanEngine.output e ops).map s.output
  answers : s.SameAnswers (e.run ops) ((s.engine e).run (ops.map s.op))

theorem runRecoded {e : BatmanEngine c} {ops : List EngineOp}
    (h : Run.AllSafe BatmanEngine.step s.SafeOp e ops) : s.RunRecoded e ops := by
  obtain ⟨hrun, htrace⟩ := Run.run_rewritten s.step_engine s.output_engine h
  refine ⟨hrun, htrace, ?_⟩
  unfold BatmanEngine.run
  rw [hrun]
  exact s.sameAnswers_engine _

/-! ### The counter of one originator -/

instance (d : U32) (r : OriginatorRecord) (src : Mac) (seqno : U32) :
    Decidable (Comparable d r src seqno) :=
  inferInstanceAs (Decidable (∀ p ∈ r.paths.toList, _ → (_ ↔ _)))

instance (e : BatmanEngine c) (now : Duration) (f : LinkFrame) :
    Decidable (s.ComparableOgm e now f) :=
  decidable_of_iff (∀ a ∈ (e.acceptedOgm? f).toList,
      ∀ r ∈ (e.originatorTable.get? a.1.orig).toList,
        (BatmanEngine.admitOgm r false a.1.seqno.get now).2.isStaleCopy = false →
          Comparable (s.seqno a.1.orig) r f.src a.1.seqno.get) <| by
    unfold ComparableOgm
    simp only [Option.mem_toList, Prod.forall]
    exact ⟨fun h p tail r hp hr => h p tail hp r hr, fun h p tail hp r hr => h p tail r hp hr⟩

instance (e : BatmanEngine c) (o : EngineOp) : Decidable (s.SafeOp e o) :=
  match o with
  | .handleRx now frame _ _ _ => inferInstanceAs (Decidable (s.ComparableOgm e now frame))
  | .noteProven .. | .noteChallenged .. | .setRequireProof .. | .purgeStale .. | .reset
  | .retainProven .. | .revokeOriginators .. | .resetOgmTimers .. | .setLocalMcastGroups ..
  | .configureInterfaceOgm .. | .configureInterfaceKeepalive .. | .onInterfaceEmitted ..
  | .onKeepaliveEmitted .. | .producePeriodicBroadcast .. | .nextBroadcastSeqno => .isTrue trivial

/-- Every OGM number of one originator moved by the same amount. -/
def seqnoShift (orig : Mac) (d : U32) : Recoding where
  seqno := fun m => if m = orig then d else 0
  clock := 0
  stamp := 0
  whole := rfl

/-- Moving an originator's counter moves its numbers in the tables and in what is passed
on, and nothing else, in every run that keeps clear of the plain comparison. -/
theorem seqnoShift_run (orig : Mac) (d : U32) (e : BatmanEngine c) (ops : List EngineOp)
    (h : Run.AllSafe BatmanEngine.step (seqnoShift orig d).SafeOp e ops) :
    (seqnoShift orig d).RunRecoded e ops :=
  runRecoded _ h

section Wrap

def originA : Mac := ⟨2, 0, 0, 0, 0, 1⟩

def neighborB : Mac := ⟨2, 0, 0, 0, 0, 2⟩

def listener : BatmanEngine BatmanEngine.smallCapacities :=
  BatmanEngine.new BatmanEngine.smallCapacities ⟨2, 0, 0, 0, 0, 9⟩

/-- Two OGMs of one originator, five seconds apart, from one neighbor. -/
def twoOgms : List EngineOp :=
  [.handleRx 0 (BatmanEngine.ogmFrom neighborB originA 5 200) none 200 .unbounded,
    .handleRx 5000000000 (BatmanEngine.ogmFrom neighborB originA 6 200) none 200 .unbounded]

theorem seqnoShift_run_forward :
    (seqnoShift originA 1000).RunRecoded listener twoOgms ∧
      (listener.run twoOgms).nextHop 15000000000 originA = some neighborB :=
  ⟨seqnoShift_run originA 1000 listener twoOgms (by decide +kernel), by decide +kernel⟩

/-- The counter wraps between the two: the second number is the smaller, no interval is
measured, and the route is given up while the other history still has it. -/
theorem seqnoShift_wraps :
    ¬ (seqnoShift originA 0xFFFFFFFA).RunRecoded listener twoOgms ∧
      (listener.run twoOgms).nextHop 15000000000 originA = some neighborB ∧
      (listener.run (twoOgms.map (seqnoShift originA 0xFFFFFFFA).op)).nextHop 15000000000
        originA = none := by
  have hroute : (listener.run twoOgms).nextHop 15000000000 originA = some neighborB := by
    decide +kernel
  have hgone : (listener.run (twoOgms.map (seqnoShift originA 0xFFFFFFFA).op)).nextHop 15000000000
      originA = none := by
    decide +kernel
  refine ⟨?_, hroute, hgone⟩
  intro h
  have hsame := h.answers.nextHop 15000000000 originA
  have hfresh : (seqnoShift originA 0xFFFFFFFA).engine listener = listener := rfl
  have hinstant : (seqnoShift originA 0xFFFFFFFA).instant 15000000000 = 15000000000 := rfl
  rw [hfresh, hinstant, hroute, hgone] at hsame
  cases hsame

end Wrap

/-! ### The clock of the driver -/

/-- Every instant moved by the same number of milliseconds. -/
def later (ms : Nat) : Recoding where
  seqno := fun _ => 0
  clock := Duration.ofMillis ms
  stamp := ms
  whole := rfl

theorem payload_of_zero (h : ∀ m, s.seqno m = 0) (bytes : Bytes) : s.payload bytes = bytes := by
  unfold payload
  cases hread : BatmanOgmPacket.readFromPrefix bytes with
  | none => rfl
  | some r =>
    dsimp only
    rw [h, add_zero, Be32.ofU32_get, BatmanOgmPacket.asBytes_of_readFromPrefix hread]
    exact ite_self _

theorem comparable_of_zero {d : U32} (h : d = 0) (r : OriginatorRecord) (src : Mac) (seqno : U32) :
    Comparable d r src seqno := by
  intro p _ _
  rw [h, add_zero, add_zero]

theorem safeOp_of_zero (h : ∀ m, s.seqno m = 0) (e : BatmanEngine c) (o : EngineOp) :
    s.SafeOp e o := by
  cases o with
  | handleRx now frame localQuality replyLen out =>
    intro p tail r _ _ _
    exact comparable_of_zero (h p.orig) r frame.src p.seqno.get
  | _ => exact trivial

/-- Nothing depends on where the clock started: the same frames at instants all moved by
the same whole number of milliseconds give the same outputs and the same answers, and the
same tables with every stamp moved. -/
theorem later_run (ms : Nat) (e : BatmanEngine c) (ops : List EngineOp) :
    (later ms).RunRecoded e ops ∧ (∀ f, (later ms).frame f = f) ∧
      ∀ out, (later ms).output out = out := by
  have hpayload := (later ms).payload_of_zero fun _ => rfl
  refine ⟨?_, ?_, ?_⟩
  · apply runRecoded
    intro pre o _
    exact (later ms).safeOp_of_zero (fun _ => rfl) _ o
  · intro f
    unfold frame
    rw [hpayload]
  · intro out
    have hsent : (later ms).sent = id := by
      funext f
      unfold sent
      rw [hpayload]
      rfl
    cases out with
    | received action reply sink =>
      unfold output
      rw [hsent, Option.map_id]
      rfl
    | ogm bytes => rfl
    | seqno n => rfl

end Recoding

end Wayfinder
