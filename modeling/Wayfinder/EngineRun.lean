import Wayfinder.Lib.Run
import Wayfinder.EngineRx

/-!
# Runs of the engine

Every public operation of an engine as one step, and the runs they make. Most
operations leave most tables alone; what each of them leaves alone is stated once
here, so that an invariant about one table only has to look at the operations
that write it.
-/

namespace Wayfinder

set_option autoImplicit false

open Table

inductive EngineOp where
  | handleRx (now : Duration) (frame : LinkFrame) (localQuality : Option U8) (replyLen : Nat)
      (out : FrameSink)
  | noteProven (now : Duration) (neighbor : Mac) (iface : Nat)
  | noteChallenged (now : Duration) (neighbor : Mac)
  | setRequireProof (require : Bool)
  | purgeStale (now : Duration)
  | reset
  | retainProven (now : Duration) (usable : Mac → Bool)
  | revokeOriginators (revoked : List Mac)
  | resetOgmTimers (now : Duration)
  | setLocalMcastGroups (now : Duration) (groups : List Mac)
  | configureInterfaceOgm (idx : Nat) (iMin iMax now : Duration)
  | configureInterfaceKeepalive (idx : Nat) (interval : Option Duration) (now : Duration)
  | onInterfaceEmitted (idx : Nat) (now : Duration)
  | onKeepaliveEmitted (idx : Nat) (now : Duration)
  | producePeriodicBroadcast (now : Duration)
  | nextBroadcastSeqno

namespace BatmanEngine

variable {c : Capacities}

def step (e : BatmanEngine c) : EngineOp → BatmanEngine c
  | .handleRx now frame localQuality replyLen out =>
    (e.handleRx now frame localQuality replyLen out).engine
  | .noteProven now neighbor iface => e.noteProven now neighbor iface
  | .noteChallenged now neighbor => e.noteChallenged now neighbor
  | .setRequireProof require => e.setRequireProof require
  | .purgeStale now => e.purgeStale now
  | .reset => e.reset
  | .retainProven now usable => e.retainProven now usable
  | .revokeOriginators revoked => e.revokeOriginators revoked
  | .resetOgmTimers now => e.resetOgmTimers now
  | .setLocalMcastGroups now groups => e.setLocalMcastGroups now groups
  | .configureInterfaceOgm idx iMin iMax now => e.configureInterfaceOgm idx iMin iMax now
  | .configureInterfaceKeepalive idx interval now => e.configureInterfaceKeepalive idx interval now
  | .onInterfaceEmitted idx now => e.onInterfaceEmitted idx now
  | .onKeepaliveEmitted idx now => e.onKeepaliveEmitted idx now
  | .producePeriodicBroadcast now => (e.producePeriodicBroadcast now).1
  | .nextBroadcastSeqno => e.nextBroadcastSeqno.1

def run (e : BatmanEngine c) (ops : List EngineOp) : BatmanEngine c := Run.run step e ops

/-- The proof gate stands: who is proven, whether it matters, and for how long. -/
structure GateKept (e e' : BatmanEngine c) : Prop where
  proven : e'.proven = e.proven
  requireProof : e'.requireProof = e.requireProof
  selfIdent : e'.selfIdent = e.selfIdent
  seed : e'.ogmTimers.toList.map TrickleTimer.iMax = e.ogmTimers.toList.map TrickleTimer.iMax

/-- The gate stands and the originator table with it. -/
structure TableKept (e e' : BatmanEngine c) : Prop extends GateKept e e' where
  table : e'.originatorTable = e.originatorTable

/-- The gate stands, no route changes and no membership: the frame of all operations
but the few that write those tables. -/
structure RoutesKept (e e' : BatmanEngine c) : Prop extends TableKept e e' where
  members : e'.mcastMembers = e.mcastMembers

theorem GateKept.trans {e e' e'' : BatmanEngine c} (h : GateKept e e') (h' : GateKept e' e'') :
    GateKept e e'' :=
  ⟨h'.proven.trans h.proven, h'.requireProof.trans h.requireProof,
    h'.selfIdent.trans h.selfIdent, h'.seed.trans h.seed⟩

theorem TableKept.trans {e e' e'' : BatmanEngine c} (h : TableKept e e')
    (h' : TableKept e' e'') : TableKept e e'' :=
  ⟨h.toGateKept.trans h'.toGateKept, h'.table.trans h.table⟩

theorem RoutesKept.refl (e : BatmanEngine c) : RoutesKept e e :=
  ⟨⟨⟨rfl, rfl, rfl, rfl⟩, rfl⟩, rfl⟩

theorem RoutesKept.trans {e e' e'' : BatmanEngine c} (h : RoutesKept e e')
    (h' : RoutesKept e' e'') : RoutesKept e e'' :=
  ⟨h.toTableKept.trans h'.toTableKept, h'.members.trans h.members⟩

section Kept
variable (e : BatmanEngine c) (now : Duration)

theorem resetOgmTimers_kept : RoutesKept e (e.resetOgmTimers now) := by
  refine ⟨⟨⟨rfl, rfl, rfl, ?_⟩, rfl⟩, rfl⟩
  simp [resetOgmTimers, Function.comp_def]

theorem applyTopologyChange_kept : RoutesKept e (e.applyTopologyChange now) := by
  unfold applyTopologyChange
  split
  · refine .trans ?_ (resetOgmTimers_kept _ now)
    exact ⟨⟨⟨rfl, rfl, rfl, rfl⟩, rfl⟩, rfl⟩
  · exact .refl e

theorem noteRelayOversizeDrop_kept : RoutesKept e e.noteRelayOversizeDrop :=
  ⟨⟨⟨rfl, rfl, rfl, rfl⟩, rfl⟩, rfl⟩

theorem updateMcastMembership_kept (orig : Mac) (frame : LinkFrame) :
    TableKept e (e.updateMcastMembership orig frame) := ⟨⟨rfl, rfl, rfl, rfl⟩, rfl⟩

theorem countOgmAdmission_kept (admission : SeqnoAdmission) (ttl : U8) :
    RoutesKept e (e.countOgmAdmission admission ttl) := by
  unfold countOgmAdmission
  dsimp only
  refine ⟨⟨⟨?_, ?_, ?_, ?_⟩, ?_⟩, ?_⟩ <;> (repeat' split) <;> rfl

theorem refloodOgm_kept (ogm : BatmanOgmPacket) (tail : Bytes) (tq : U8) (src : Mac)
    (replyLen : Nat) : RoutesKept e (e.refloodOgm ogm tail tq src replyLen).1 := by
  unfold refloodOgm
  split
  · exact ⟨⟨⟨rfl, rfl, rfl, rfl⟩, rfl⟩, rfl⟩
  · dsimp only
    split
    · exact .refl e
    · exact e.noteRelayOversizeDrop_kept

theorem noteKeepalive_kept (neighbor : Mac) : RoutesKept e (e.noteKeepalive now neighbor) := by
  unfold noteKeepalive
  dsimp only
  split <;> exact ⟨⟨⟨rfl, rfl, rfl, rfl⟩, rfl⟩, rfl⟩

theorem handleKeepalive_kept (frame : LinkFrame) :
    RoutesKept e (e.handleKeepalive now frame) := by
  unfold handleKeepalive
  split
  · exact .refl e
  · split
    · exact e.noteKeepalive_kept now frame.src
    · exact .refl e

theorem admitBroadcast_kept (orig : Mac) (seqno : U32) :
    RoutesKept e (e.admitBroadcast now orig seqno).1 := by
  unfold admitBroadcast
  split
  · dsimp only
    split
    · exact ⟨⟨⟨rfl, rfl, rfl, rfl⟩, rfl⟩, rfl⟩
    · split <;> exact ⟨⟨⟨rfl, rfl, rfl, rfl⟩, rfl⟩, rfl⟩
  · dsimp only
    refine ⟨⟨⟨?_, ?_, ?_, ?_⟩, ?_⟩, ?_⟩ <;> (repeat' split) <;> rfl

theorem handleBroadcast_kept (frame : LinkFrame) (replyLen : Nat) :
    RoutesKept e (e.handleBroadcast now frame replyLen).1 := by
  unfold handleBroadcast
  split
  · exact .refl e
  · rename_i bcast inner _
    split
    · exact .refl e
    · have hadmit := e.admitBroadcast_kept now bcast.orig bcast.seqno.get
      dsimp only
      split
      · exact hadmit
      · split
        · exact hadmit
        · split
          · exact hadmit
          · exact hadmit.trans (noteRelayOversizeDrop_kept _)

theorem relayToward_kept (replyLen : Nat) (dest : Mac) (ttl : U8) (header inner : Bytes) :
    RoutesKept e (e.relayToward now replyLen dest ttl header inner).1 := by
  unfold relayToward
  split
  · exact .refl e
  · split
    · exact .refl e
    · split
      · exact .refl e
      · unfold stageRelay
        dsimp only
        split
        · exact .refl e
        · exact e.noteRelayOversizeDrop_kept

theorem handleUnicast_kept (frame : LinkFrame) (replyLen : Nat) :
    RoutesKept e (e.handleUnicast now frame replyLen).1 := by
  unfold handleUnicast
  split
  · exact .refl e
  · exact e.relayToward_kept now replyLen _ _ _ _

theorem handleCredentialControl_kept (frame : LinkFrame) (replyLen : Nat) :
    RoutesKept e (e.handleCredentialControl now frame replyLen).1 := by
  unfold handleCredentialControl
  split
  · exact .refl e
  · exact e.relayToward_kept now replyLen _ _ _ _

theorem handleEcho_kept (frame : LinkFrame) (replyLen : Nat) :
    RoutesKept e (e.handleEcho now frame replyLen).1 := by
  unfold handleEcho
  split
  · exact .refl e
  · exact e.relayToward_kept now replyLen _ _ _ _

theorem routeDests_kept (dests : List Mac) : RoutesKept e (e.routeDests now dests).1 := by
  induction dests generalizing e with
  | nil => exact .refl e
  | cons d ds ih =>
    rw [routeDests]
    split
    · exact ih e
    · split
      · refine .trans ?_ (ih _)
        exact ⟨⟨⟨rfl, rfl, rfl, rfl⟩, rfl⟩, rfl⟩
      · exact ih e

theorem emitGroups_kept (ttl : U8) (inner : Bytes) (scratchLen : Nat)
    (routed rest : List (Mac × Mac)) (done : List Mac) (out : FrameSink) :
    RoutesKept e (emitGroups ttl inner scratchLen routed rest done e out).1 := by
  induction rest generalizing e done out with
  | nil => exact .refl e
  | cons p rest ih =>
    obtain ⟨next, d⟩ := p
    rw [emitGroups]
    split
    · exact ih e done out
    · dsimp only
      split
      · exact e.noteRelayOversizeDrop_kept.trans (ih _ _ _)
      · split
        · exact ih e _ _
        · refine .trans ?_ (ih _ _ _)
          exact ⟨⟨⟨rfl, rfl, rfl, rfl⟩, rfl⟩, rfl⟩

theorem handleMcast_kept (frame : LinkFrame) (out : FrameSink) (scratchLen : Nat) :
    RoutesKept e (e.handleMcast now frame out scratchLen).1 := by
  unfold handleMcast
  split
  · exact .refl e
  · rename_i view _
    split
    · exact ⟨⟨⟨rfl, rfl, rfl, rfl⟩, rfl⟩, rfl⟩
    · dsimp only
      split
      · exact .refl e
      · split
        · exact (e.routeDests_kept now view.dests).trans (emitGroups_kept _ _ _ _ _ _ _ _)
        · exact .refl e

end Kept

/-! ### Originator messages -/

/-- The OGM in a frame and its TVLV region, when the frame gets past every guard
of the dispatcher and of `handle_ogm`. -/
def acceptedOgm? (e : BatmanEngine c) (frame : LinkFrame) : Option (BatmanOgmPacket × Bytes) :=
  if rxSubtype frame = some (some .ogm) then
    match BatmanOgmPacket.readFromPrefix frame.payload with
    | none => none
    | some (ogm, rest) =>
      if ogm.orig = e.selfIdent then none
      else
        match ogmTail? ogm rest with
        | none => none
        | some tail => if prevSender tail = some e.selfIdent then none else some (ogm, tail)
  else none

section Ogm
variable (e : BatmanEngine c) (now : Duration) (frame : LinkFrame) (localQuality : Option U8)
  (replyLen : Nat)

theorem handleOgm_cases (hsub : rxSubtype frame = some (some .ogm)) :
    (e.acceptedOgm? frame = none ∧
        RoutesKept e (e.handleOgm now frame localQuality replyLen).1) ∨
      ∃ ogm tail, e.acceptedOgm? frame = some (ogm, tail) ∧
        e.handleOgm now frame localQuality replyLen =
          e.acceptOgm now frame localQuality replyLen ogm tail := by
  unfold handleOgm acceptedOgm?
  rw [if_pos hsub]
  cases hread : BatmanOgmPacket.readFromPrefix frame.payload with
  | none => exact Or.inl ⟨rfl, .refl e⟩
  | some r =>
    obtain ⟨ogm, rest⟩ := r
    dsimp only
    by_cases hself : ogm.orig = e.selfIdent
    · rw [if_pos hself, if_pos hself]
      exact Or.inl ⟨rfl, .refl e⟩
    · rw [if_neg hself, if_neg hself]
      cases htail : ogmTail? ogm rest with
      | none => exact Or.inl ⟨rfl, ⟨⟨rfl, rfl, rfl, rfl⟩, rfl⟩, rfl⟩
      | some tail =>
        dsimp only
        by_cases hprev : prevSender tail = some e.selfIdent
        · rw [if_pos hprev, if_pos hprev]
          exact Or.inl ⟨rfl, ⟨⟨rfl, rfl, rfl, rfl⟩, rfl⟩, rfl⟩
        · rw [if_neg hprev, if_neg hprev]
          exact Or.inr ⟨ogm, tail, rfl, rfl⟩

/-- Receiving a frame either leaves every route alone or accepts an OGM. -/
theorem handleRx_cases (out : FrameSink) :
    (e.acceptedOgm? frame = none ∧
        RoutesKept e (e.handleRx now frame localQuality replyLen out).engine) ∨
      ∃ ogm tail, e.acceptedOgm? frame = some (ogm, tail) ∧
        (e.handleRx now frame localQuality replyLen out).engine =
          (e.acceptOgm now frame localQuality replyLen ogm tail).1 := by
  by_cases hsub : rxSubtype frame = some (some .ogm)
  · simp only [handleRx, hsub]
    rcases e.handleOgm_cases now frame localQuality replyLen hsub with h | ⟨ogm, tail, hacc, heq⟩
    · exact Or.inl h
    · exact Or.inr ⟨ogm, tail, hacc, by rw [heq]⟩
  · refine Or.inl ⟨by rw [acceptedOgm?, if_neg hsub], ?_⟩
    unfold handleRx
    split
    · exact .refl e
    · exact absurd (by assumption) hsub
    · exact e.handleBroadcast_kept now frame replyLen
    · exact e.handleUnicast_kept now frame replyLen
    · exact e.handleMcast_kept now frame out replyLen
    · exact e.handleCredentialControl_kept now frame replyLen
    · exact e.handleCredentialControl_kept now frame replyLen
    · exact e.handleCredentialControl_kept now frame replyLen
    · exact e.handleCredentialControl_kept now frame replyLen
    · exact e.handleKeepalive_kept now frame
    · exact e.handleEcho_kept now frame replyLen
    · exact e.handleEcho_kept now frame replyLen
    · exact .refl e
    · exact .refl e
    · exact .refl e

theorem ensureOriginator_gate (orig : Mac) : GateKept e (e.ensureOriginator now orig) := by
  unfold ensureOriginator
  split <;> exact ⟨rfl, rfl, rfl, rfl⟩

theorem latchTopology_kept (isNew : Bool) : RoutesKept e (e.latchTopology isNew) := by
  unfold latchTopology
  split
  · exact ⟨⟨⟨rfl, rfl, rfl, rfl⟩, rfl⟩, rfl⟩
  · exact .refl e

theorem finishOgm_kept (ogm : BatmanOgmPacket) (tail : Bytes) (tq : U8) (isNew : Bool)
    (admission : SeqnoAdmission) :
    TableKept e (e.finishOgm now frame replyLen ogm tail tq isNew admission).1 := by
  unfold finishOgm
  dsimp only
  refine (e.countOgmAdmission_kept admission ogm.ttl).toTableKept.trans ?_
  generalize e.countOgmAdmission admission ogm.ttl = e₁
  split
  · exact (e₁.applyTopologyChange_kept now).toTableKept
  · have hmembers : TableKept e₁
        (if admission.contentsAreCurrent then e₁.updateMcastMembership ogm.orig frame else e₁) := by
      split
      · exact e₁.updateMcastMembership_kept ogm.orig frame
      · exact (RoutesKept.refl e₁).toTableKept
    refine (hmembers.trans (latchTopology_kept _ isNew).toTableKept).trans ?_
    generalize latchTopology _ isNew = e₂
    split
    · exact ((refloodOgm_kept _ ogm tail tq frame.src replyLen).trans
        (applyTopologyChange_kept _ now)).toTableKept
    · exact (applyTopologyChange_kept _ now).toTableKept

/-- The record an accepted OGM leaves for its originator. -/
def ogmUpdate (e : BatmanEngine c) (now : Duration) (frame : LinkFrame)
    (localQuality : Option U8) (ogm : BatmanOgmPacket) (record : OriginatorRecord) :
    OriginatorRecord :=
  (ogmRecord record (!e.originatorTable.contains ogm.orig) (e.proofCurrent now frame.src) now
    frame.src (computedTq ogm.tq localQuality) ogm.seqno.get).1

/-- Behind the guards, an OGM writes the one record it names and nothing else of
the routes or the gate. -/
theorem acceptOgm_spec (ogm : BatmanOgmPacket) (tail : Bytes) :
    GateKept e (e.acceptOgm now frame localQuality replyLen ogm tail).1 ∧
      (e.acceptOgm now frame localQuality replyLen ogm tail).1.originatorTable =
        match (e.ensureOriginator now ogm.orig).originatorTable.get? ogm.orig with
        | none => (e.ensureOriginator now ogm.orig).originatorTable
        | some record => (e.ensureOriginator now ogm.orig).originatorTable.modify ogm.orig
            fun _ => e.ogmUpdate now frame localQuality ogm record := by
  have hgate := e.ensureOriginator_gate now ogm.orig
  unfold acceptOgm
  dsimp only
  cases hget : (e.ensureOriginator now ogm.orig).originatorTable.get? ogm.orig with
  | none => exact ⟨hgate, rfl⟩
  | some record =>
    have hwrite : GateKept e ((e.ensureOriginator now ogm.orig).withTable
        ((e.ensureOriginator now ogm.orig).originatorTable.modify ogm.orig
          fun _ => e.ogmUpdate now frame localQuality ogm record)) :=
      ⟨hgate.proven, hgate.requireProof, hgate.selfIdent, hgate.seed⟩
    dsimp only
    exact ⟨hwrite.trans (finishOgm_kept _ _ _ _ _ _ _ _ _).toGateKept,
      (finishOgm_kept _ _ _ _ _ _ _ _ _).table⟩

end Ogm

/-! ### A small node, and the OGMs it hears -/

def smallCapacities : Capacities := ⟨4, 2, 4, 4, isPowerOfTwo_four⟩

theorem one_le_maxInterfaces : 1 ≤ smallCapacities.maxInterfaces := by decide

def ogmFrom (src orig : Mac) (seqno : Nat) (tq : U8) : LinkFrame where
  dst := Mac.broadcast
  src := src
  protocol := ethPBatman
  payload := BatmanOgmPacket.asBytes
    { packetType := BatmanPacketType.ogm.asU8
      version := batmanVersion
      ttl := 5
      flags := 0
      seqno := Be32.ofU32 (BitVec.ofNat 32 seqno)
      orig := orig
      reserved := 0
      tq := tq
      tvlvLen := Be16.ofNat 0 }

end BatmanEngine

end Wayfinder
