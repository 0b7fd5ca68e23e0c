import Wayfinder.EngineRx
import Wayfinder.Lib.Flood
import Wayfinder.Lib.Run
import Mathlib.Algebra.BigOperators.Group.Finset.Basic
import Mathlib.Data.Fintype.BigOperators

/-!
# Broadcasts across a mesh

A mesh of engines: every node runs its own, a broadcast is put on the air once for
each link of its sender, and any copy in flight may be the next to arrive. A node
keeps only a high-water for each originator, so a broadcast that another of the same
originator has overtaken is refused as a copy of it. Where each arrives after its
predecessor was taken, the flood reaches every node exactly once.
-/

namespace Wayfinder

set_option autoImplicit false

open Table

namespace RoutingAction

def delivers : RoutingAction → Bool
  | .deliverLocal | .deliverLocalAndForward _ => true
  | .consumed | .forwardTo _ => false

end RoutingAction

namespace BatmanEngine

variable {c : Capacities}

/-- The broadcast branch of `handle_local`. A frame that does not fit has used up its
number. -/
def handleLocalBroadcast (e : BatmanEngine c) (payload : Bytes) (txLen : Nat) :
    BatmanEngine c × Option LinkFrameData :=
  let (e, seqno) := e.nextBroadcastSeqno
  let header : BatmanBroadcastPacket :=
    ⟨BatmanPacketType.bcast.asU8, batmanVersion, 50, Be32.ofU32 seqno, e.selfIdent⟩
  if txLen < BatmanBroadcastPacket.size + payload.length then (e, none)
  else (e, some ⟨Mac.broadcast, ethPBatman, header.asBytes ++ payload⟩)

section Spec
variable (e : BatmanEngine c) (now : Duration)

/-- The dedup state one originator has after a broadcast that needs no room made, and
whether the broadcast is taken. -/
def dedup (e : BatmanEngine c) (now : Duration) (orig : Mac) (seqno : U32) :
    BroadcastSeqnoEntry × Bool :=
  match e.broadcastSeqno.get? orig with
  | none => (.seeded seqno now, true)
  | some entry => ((entry.admitEntry seqno now).1, (entry.admitEntry seqno now).2.isAdvanced)

/-- Nobody has to make room for this originator. -/
def HasRoomFor (e : BatmanEngine c) (orig : Mac) : Prop :=
  (e.broadcastSeqno.get? orig).isSome ∨ e.broadcastSeqno.len < c.maxOriginators

theorem admitBroadcast_spec {orig : Mac} (seqno : U32) (hroom : e.HasRoomFor orig) :
    let r := e.admitBroadcast now orig seqno
    r.1.selfIdent = e.selfIdent ∧ r.1.broadcastSequenceNumber = e.broadcastSequenceNumber ∧
      (∀ mac, r.1.broadcastSeqno.get? mac = if mac = orig then some (e.dedup now orig seqno).1
        else e.broadcastSeqno.get? mac) ∧ r.2 = (e.dedup now orig seqno).2 := by
  unfold admitBroadcast dedup
  cases hget : e.broadcastSeqno.get? orig with
  | some entry =>
    have hwritten : ∀ mac, (e.broadcastSeqno.modify orig
        fun _ => (entry.admitEntry seqno now).1).get? mac =
          if mac = orig then some (entry.admitEntry seqno now).1
          else e.broadcastSeqno.get? mac := by
      intro mac
      rw [IndexMap.get?_modify, hget, Option.map_some]
    dsimp only
    split
    · rename_i hadvanced
      exact ⟨rfl, rfl, hwritten, hadvanced.symm⟩
    · rename_i hrefused
      have hfalse := Bool.eq_false_iff.mpr hrefused
      split
      · exact ⟨rfl, rfl, hwritten, hfalse.symm⟩
      · exact ⟨rfl, rfl, hwritten, hfalse.symm⟩
  | none =>
    have hlen : e.broadcastSeqno.len < c.maxOriginators := by
      rcases hroom with hsome | hlen
      · rw [hget] at hsome
        cases hsome
      · exact hlen
    dsimp only
    rw [if_neg (Nat.not_le.mpr hlen)]
    obtain ⟨table, htable⟩ := IndexMap.insert_isSome (v := BroadcastSeqnoEntry.seeded seqno now)
      (Or.inr hlen : e.broadcastSeqno.contains orig = true ∨ _)
    rw [htable]
    exact ⟨rfl, rfl, IndexMap.get?_insert htable, rfl⟩

/-- Against the high-water of the `next`-th number, the numbers up to the one after it:
only that one is taken, and the high-water moves to it. -/
theorem dedup_spec {orig : Mac} {base : U32} {next i : Nat}
    (hmark : (e.broadcastSeqno.get? orig).map (fun entry => entry.lastSeqno) =
      if next = 0 then none else some (base + BitVec.ofNat 32 next))
    (hle : i ≤ next) (hlate : next < i + 1 + 2 ^ 31)
    (hsteady : ∀ entry, e.broadcastSeqno.get? orig = some entry →
      (entry.admitEntry (base + BitVec.ofNat 32 (i + 1)) now).2.isResynchronised = false) :
    let d := e.dedup now orig (base + BitVec.ofNat 32 (i + 1))
    d.2 = decide (i = next) ∧
      d.1.lastSeqno = base + BitVec.ofNat 32 (if i = next then next + 1 else next) := by
  unfold dedup
  cases hget : e.broadcastSeqno.get? orig with
  | none =>
    rw [hget] at hmark
    have hzero : next = 0 := by
      by_contra hne
      rw [if_neg hne] at hmark
      cases hmark
    subst hzero
    obtain rfl : i = 0 := Nat.le_zero.mp hle
    exact ⟨rfl, rfl⟩
  | some entry =>
    rw [hget] at hmark
    have hne : next ≠ 0 := by
      rintro rfl
      cases hmark
    rw [if_neg hne] at hmark
    have hlast : entry.lastSeqno = base + BitVec.ofNat 32 next := Option.some.inj hmark
    have hquiet := hsteady entry hget
    by_cases heq : i = next
    · subst heq
      have hdist : Serial.dist entry.lastSeqno (base + BitVec.ofNat 32 (i + 1)) = 1 := by
        rw [hlast, BitVec.ofNat_add, ← BitVec.add_assoc]
        exact Serial.dist_add_self _ 1 (by decide)
      have hclass : SeqnoBands.broadcast.classify entry.toHighWater.lastSeqno
          (base + BitVec.ofNat 32 (i + 1)) = .advance := by
        rw [SeqnoBands.classify_eq_advance_iff, hdist]
        decide
      simp [BroadcastSeqnoEntry.admitEntry, admitSeqno_of_advance hclass,
        SeqnoAdmission.isAdvanced]
    · have hmark' : entry.lastSeqno =
          base + BitVec.ofNat 32 (i + 1) + BitVec.ofNat 32 (next - (i + 1)) := by
        rw [hlast, BitVec.add_assoc, ← BitVec.ofNat_add]
        congr 2
        omega
      have hdist : Serial.dist entry.lastSeqno (base + BitVec.ofNat 32 (i + 1)) ≤ 0 := by
        rw [hmark', Serial.dist_add_left_self _ _ (by omega)]
        omega
      have hclass : SeqnoBands.broadcast.classify entry.toHighWater.lastSeqno
          (base + BitVec.ofNat 32 (i + 1)) ≠ .advance := by
        rw [Ne, SeqnoBands.classify_eq_advance_iff]
        omega
      -- An old number is refused, as a duplicate or by the watch.
      have hrefused := admitSeqno_refused rfl hclass hquiet
      rw [if_neg heq, decide_eq_false heq, ← hlast]
      exact ⟨hrefused.2, hrefused.1⟩

/-- A broadcast that needs no room made, fits the buffer and has hops left: taken, it
is delivered and put on the air again; refused, nothing else happens. -/
theorem handleBroadcast_spec {frame : LinkFrame} {replyLen : Nat}
    {bcast : BatmanBroadcastPacket} {inner : Bytes}
    (hread : BatmanBroadcastPacket.readFromPrefix frame.payload = some (bcast, inner))
    (hother : bcast.orig ≠ e.selfIdent) (hroom : e.HasRoomFor bcast.orig)
    (hhops : 1 < bcast.ttl.toNat)
    (hfits : BatmanBroadcastPacket.size + inner.length ≤ replyLen) :
    let r := e.handleBroadcast now frame replyLen
    let d := e.dedup now bcast.orig bcast.seqno.get
    r.1.selfIdent = e.selfIdent ∧ r.1.broadcastSequenceNumber = e.broadcastSequenceNumber ∧
      (∀ mac, r.1.broadcastSeqno.get? mac = if mac = bcast.orig then some d.1
        else e.broadcastSeqno.get? mac) ∧
      r.2 = if d.2 then (.deliverLocalAndForward Mac.broadcast, some ⟨Mac.broadcast, ethPBatman,
          BatmanBroadcastPacket.asBytes { bcast with ttl := bcast.ttl - 1 } ++ inner⟩)
        else (.consumed, none) := by
  have hadmit := e.admitBroadcast_spec now bcast.seqno.get hroom
  unfold handleBroadcast
  rw [hread]
  dsimp only
  rw [if_neg hother]
  generalize e.admitBroadcast now bcast.orig bcast.seqno.get = admitted at hadmit ⊢
  obtain ⟨e₁, fresh⟩ := admitted
  obtain ⟨hself, hcounter, htable, hfresh⟩ := hadmit
  dsimp only at hself hcounter htable hfresh ⊢
  rw [← hfresh]
  cases fresh with
  | false => exact ⟨hself, hcounter, htable, rfl⟩
  | true =>
    have hmore : ¬ bcast.ttl.toNat ≤ 1 := Nat.not_le.mpr hhops
    simp only [Bool.not_true, Bool.false_eq_true, if_false, hmore, if_pos hfits, if_true]
    exact ⟨hself, hcounter, htable, trivial⟩

theorem handleBroadcast_own {frame : LinkFrame} (replyLen : Nat)
    {bcast : BatmanBroadcastPacket} {inner : Bytes}
    (hread : BatmanBroadcastPacket.readFromPrefix frame.payload = some (bcast, inner))
    (hown : bcast.orig = e.selfIdent) :
    e.handleBroadcast now frame replyLen = (e, .consumed, none) := by
  unfold handleBroadcast
  rw [hread]
  exact if_pos hown

end Spec

end BatmanEngine

/-! ### The mesh -/

structure Topology (N : Type) where
  links : N → List N
  ident : N → Mac
  ident_injective : Function.Injective ident

/-- A copy on its way to one receiver: the `index`-th broadcast of its originator. -/
structure Copy (N : Type) where
  receiver : N
  orig : N
  index : Nat
  frame : LinkFrame

structure Mesh (N : Type) (c : N → Capacities) where
  engine : (n : N) → BatmanEngine (c n)
  inFlight : List (Copy N)
  sent : N → Nat
  delivered : List (N × N × Nat)

inductive MeshOp (N : Type) where
  | originate (n : N) (payload : Bytes) (txLen : Nat)
  | deliver (i : Nat) (now : Duration) (replyLen : Nat)

variable {N : Type} [DecidableEq N] {c : N → Capacities}

def Topology.transmit (t : Topology N) (sender orig : N) (index : Nat) (data : LinkFrameData) :
    List (Copy N) :=
  (t.links sender).map fun n =>
    ⟨n, orig, index, ⟨data.dst, t.ident sender, data.protocol, data.payload⟩⟩

namespace Mesh

def start (engines : (n : N) → BatmanEngine (c n)) : Mesh N c := ⟨engines, [], fun _ => 0, []⟩

def originate (t : Topology N) (s : Mesh N c) (n : N) (payload : Bytes) (txLen : Nat) :
    Mesh N c :=
  let r := (s.engine n).handleLocalBroadcast payload txLen
  let s := { s with engine := Function.update s.engine n r.1 }
  match r.2 with
  | none => s
  | some data =>
    { s with
      inFlight := s.inFlight ++ t.transmit n n (s.sent n) data
      sent := Function.update s.sent n (s.sent n + 1) }

def deliver (t : Topology N) (s : Mesh N c) (i : Nat) (now : Duration) (replyLen : Nat) :
    Mesh N c :=
  match s.inFlight[i]? with
  | none => s
  | some cp =>
    let r := (s.engine cp.receiver).handleBroadcast now cp.frame replyLen
    { s with
      engine := Function.update s.engine cp.receiver r.1
      inFlight := s.inFlight.eraseIdx i ++
        (r.2.2.map (t.transmit cp.receiver cp.orig cp.index)).getD []
      delivered := if r.2.1.delivers then s.delivered ++ [(cp.receiver, cp.orig, cp.index)]
        else s.delivered }

def step (t : Topology N) (s : Mesh N c) : MeshOp N → Mesh N c
  | .originate n payload txLen => s.originate t n payload txLen
  | .deliver i now replyLen => s.deliver t i now replyLen

/-- Every broadcast has been delivered at most once at each node, and, with no copy on
its way any more, once at each node but its originator's that the links lead to. -/
def ExactlyOnce (t : Topology N) (s : Mesh N c) : Prop :=
  (∀ n o i, s.delivered.count (n, o, i) ≤ 1) ∧
    (s.inFlight = [] → ∀ o i, i < s.sent o → ∀ n, n ≠ o → Flood.Reaches t.links o n →
      s.delivered.count (n, o, i) = 1)

/-- Buffers are large enough, no hop limit runs out, no dedup entry is evicted and none
resynchronises. -/
def Undisturbed (s : Mesh N c) : MeshOp N → Prop
  | .originate _ payload txLen => BatmanBroadcastPacket.size + payload.length ≤ txLen
  | .deliver i now replyLen => ∀ cp ∈ s.inFlight[i]?, cp.receiver ≠ cp.orig →
      ∀ p ∈ BatmanBroadcastPacket.readFromPrefix cp.frame.payload,
        1 < p.1.ttl.toNat ∧ BatmanBroadcastPacket.size + p.2.length ≤ replyLen ∧
        (s.engine cp.receiver).HasRoomFor p.1.orig ∧
        ∀ entry ∈ (s.engine cp.receiver).broadcastSeqno.get? p.1.orig,
          (entry.admitEntry p.1.seqno.get now).2.isResynchronised = false

/-- A copy arrives at a node that has taken the broadcast before it, and not half the
circle of numbers late. -/
def InOrder (s : Mesh N c) : MeshOp N → Prop
  | .originate .. => True
  | .deliver i _ _ => ∀ cp ∈ s.inFlight[i]?, cp.receiver ≠ cp.orig →
      (cp.index = 0 ∨ (cp.receiver, cp.orig, cp.index - 1) ∈ s.delivered) ∧
        ∀ d ∈ s.delivered, d.1 = cp.receiver → d.2.1 = cp.orig → d.2.2 < cp.index + 2 ^ 31

instance (s : Mesh N c) (op : MeshOp N) : Decidable (s.Undisturbed op) := by
  cases op <;> unfold Undisturbed BatmanEngine.HasRoomFor <;> infer_instance

instance (s : Mesh N c) (op : MeshOp N) : Decidable (s.InOrder op) := by
  cases op <;> unfold InOrder <;> infer_instance

/-! ### In order -/

/-- The nodes know themselves, and nobody has heard a broadcast of any of them. -/
structure Fresh (t : Topology N) (engines : (n : N) → BatmanEngine (c n)) : Prop where
  selfIdent : ∀ n, (engines n).selfIdent = t.ident n
  unheard : ∀ n o, (engines n).broadcastSeqno.get? (t.ident o) = none

/-- The number `o` gives the last of its first `i` broadcasts. -/
def number (engines : (n : N) → BatmanEngine (c n)) (o : N) (i : Nat) : U32 :=
  (engines o).broadcastSequenceNumber + BitVec.ofNat 32 i

def Holds (s : Mesh N c) (n : N) (m : N × Nat) : Prop :=
  n = m.1 ∧ m.2 < s.sent m.1 ∨ (n, m) ∈ s.delivered

/-- The high-water `n` keeps for `o`. -/
def mark (t : Topology N) (s : Mesh N c) (n o : N) : Option U32 :=
  ((s.engine n).broadcastSeqno.get? (t.ident o)).map fun entry => entry.lastSeqno

def message (cp : Copy N) : N × (N × Nat) := (cp.receiver, (cp.orig, cp.index))

/-- The data are those of the `index`-th broadcast of `o`. -/
def Carries (t : Topology N) (engines : (n : N) → BatmanEngine (c n)) (o : N) (index : Nat)
    (payload : Bytes) : Prop :=
  ∃ bcast inner, BatmanBroadcastPacket.readFromPrefix payload = some (bcast, inner) ∧
    bcast.orig = t.ident o ∧ bcast.seqno.get = number engines o (index + 1)

structure Sound (t : Topology N) (engines : (n : N) → BatmanEngine (c n)) (s : Mesh N c) :
    Prop where
  selfIdent : ∀ n, (s.engine n).selfIdent = t.ident n
  counter : ∀ n, (s.engine n).broadcastSequenceNumber = number engines n (s.sent n)
  frames : ∀ cp ∈ s.inFlight, cp.index < s.sent cp.orig ∧
    Carries t engines cp.orig cp.index cp.frame.payload
  nodup : s.delivered.Nodup
  own : ∀ n i, (n, n, i) ∉ s.delivered
  tracks : ∀ n o, n ≠ o → ∃ next, (∀ i, (n, o, i) ∈ s.delivered ↔ i < next) ∧
    s.mark t n o = if next = 0 then none else some (number engines o next)
  covered : Flood.Covered t.links s.Holds (s.inFlight.map message)

variable {t : Topology N} {engines : (n : N) → BatmanEngine (c n)} {s : Mesh N c}

omit [DecidableEq N] in
theorem number_succ (o : N) (i : Nat) :
    number engines o (i + 1) = number engines o i + 1 := by
  rw [number, number, BitVec.ofNat_add, ← BitVec.add_assoc]
  rfl

omit [DecidableEq N] in
theorem start_sound (hfresh : Fresh t engines) : Sound t engines (start engines) where
  selfIdent := hfresh.selfIdent
  counter n := by simp [start, number]
  frames cp hcp := by cases hcp
  nodup := List.nodup_nil
  own n i := List.not_mem_nil
  tracks n o _ := ⟨0, by simp [start], by simp [mark, start, hfresh.unheard n o]⟩
  covered := by
    rintro n m (⟨_, hsent⟩ | hdelivered)
    · exact absurd hsent (Nat.not_lt_zero _)
    · cases hdelivered

theorem handleLocalBroadcast_spec {c : Capacities} (e : BatmanEngine c) {payload : Bytes}
    {txLen : Nat} (hfits : BatmanBroadcastPacket.size + payload.length ≤ txLen) :
    ∃ data, e.handleLocalBroadcast payload txLen = ({ e with
        broadcastSequenceNumber := e.broadcastSequenceNumber + 1 }, some data) ∧
      ∃ bcast, BatmanBroadcastPacket.readFromPrefix data.payload = some (bcast, payload) ∧
        bcast.orig = e.selfIdent ∧ bcast.seqno.get = e.broadcastSequenceNumber + 1 := by
  unfold BatmanEngine.handleLocalBroadcast
  dsimp only [BatmanEngine.nextBroadcastSeqno]
  rw [if_neg (Nat.not_lt.mpr hfits)]
  exact ⟨_, rfl, _, rfl, rfl, Be32.get_ofU32 _⟩

omit [DecidableEq N] in
theorem mem_transmit {sender orig : N} {index : Nat} {data : LinkFrameData} {cp : Copy N}
    (h : cp ∈ t.transmit sender orig index data) :
    cp.orig = orig ∧ cp.index = index ∧ cp.frame.payload = data.payload := by
  obtain ⟨n, _, rfl⟩ := List.mem_map.mp h
  exact ⟨rfl, rfl, rfl⟩

omit [DecidableEq N] in
theorem message_mem_transmit {sender b : N} (orig : N) (index : Nat) (data : LinkFrameData)
    (hb : b ∈ t.links sender) :
    (b, (orig, index)) ∈ (t.transmit sender orig index data).map message :=
  List.mem_map.mpr ⟨_, List.mem_map.mpr ⟨b, hb, rfl⟩, rfl⟩

/-- What a broadcast put on the air by its originator leaves. -/
theorem originate_spec (h : Sound t engines s) (n : N) {payload : Bytes} {txLen : Nat}
    (hfits : BatmanBroadcastPacket.size + payload.length ≤ txLen) :
    ∃ data, Carries t engines n (s.sent n) data.payload ∧
      s.originate t n payload txLen =
        { engine := Function.update s.engine n { s.engine n with
            broadcastSequenceNumber := (s.engine n).broadcastSequenceNumber + 1 }
          inFlight := s.inFlight ++ t.transmit n n (s.sent n) data
          sent := Function.update s.sent n (s.sent n + 1)
          delivered := s.delivered } := by
  obtain ⟨data, heq, bcast, hread, horig, hseqno⟩ :=
    handleLocalBroadcast_spec (s.engine n) hfits
  refine ⟨data, ⟨bcast, payload, hread, horig.trans (h.selfIdent n), ?_⟩, ?_⟩
  · rw [hseqno, h.counter, number_succ]
  · unfold originate
    rw [heq]

theorem Sound.originate (h : Sound t engines s) (n : N) {payload : Bytes} {txLen : Nat}
    (hfits : BatmanBroadcastPacket.size + payload.length ≤ txLen) :
    Sound t engines (s.originate t n payload txLen) := by
  obtain ⟨data, hcarries, heq⟩ := originate_spec h n hfits
  have hsent : ∀ o, s.sent o ≤ (Function.update s.sent n (s.sent n + 1)) o := by
    intro o
    by_cases ho : o = n
    · subst ho
      simp
    · simp [ho]
  rw [heq]
  refine ⟨?_, ?_, ?_, h.nodup, h.own, ?_, ?_⟩
  · intro m
    by_cases hm : m = n
    · subst hm
      simpa using h.selfIdent m
    · simpa [hm] using h.selfIdent m
  · intro m
    by_cases hm : m = n
    · subst hm
      simp [number_succ, h.counter]
    · simpa [hm] using h.counter m
  · intro cp hcp
    rcases List.mem_append.mp hcp with hcp | hcp
    · exact ⟨(h.frames cp hcp).1.trans_le (hsent cp.orig), (h.frames cp hcp).2⟩
    · obtain ⟨horig, hindex, hpayload⟩ := mem_transmit hcp
      rw [horig, hindex, hpayload]
      exact ⟨by simp, hcarries⟩
  · intro m o hm
    obtain ⟨next, hnext, hmark⟩ := h.tracks m o hm
    refine ⟨next, hnext, ?_⟩
    rw [← hmark]
    by_cases hmn : m = n
    · subst hmn
      simp [mark]
    · simp [mark, hmn]
  · rw [List.map_append]
    refine h.covered.step ?_ ?_ ?_
    · rintro m ⟨o, i⟩ (⟨rfl, hi⟩ | hmem)
      · exact Or.inl ⟨rfl, hi.trans_le (hsent m)⟩
      · exact Or.inr hmem
    · intro b m hb
      exact Or.inr (List.mem_append_left _ hb)
    · rintro m ⟨o, i⟩ (⟨rfl, hi⟩ | hmem)
      · by_cases hold : i < s.sent m
        · exact Or.inl (Or.inl ⟨rfl, hold⟩)
        · -- The broadcast just made: it is on its way to every neighbor.
          right
          have hm : m = n := by
            by_contra hne
            simp [hne] at hi
            exact hold hi
          subst hm
          have hi' : i = s.sent m := by
            simp at hi
            omega
          subst hi'
          intro b hb
          exact List.mem_append_right _ (message_mem_transmit m _ data hb)
      · exact Or.inl (Or.inr hmem)

/-- What the arrival of a copy does: its receiver holds the broadcast already and drops
the copy, or it delivers the broadcast and sends it on. -/
structure Dropped (t : Topology N) (s s' : Mesh N c) (i : Nat) (cp : Copy N) : Prop where
  holds : s.Holds cp.receiver (cp.orig, cp.index)
  inFlight : s'.inFlight = s.inFlight.eraseIdx i
  delivered : s'.delivered = s.delivered
  mark : ∀ n o, n ≠ o → s'.mark t n o = s.mark t n o

structure Taken (t : Topology N) (engines : (n : N) → BatmanEngine (c n)) (s s' : Mesh N c)
    (i : Nat) (cp : Copy N) (data : LinkFrameData) : Prop where
  other : cp.receiver ≠ cp.orig
  next : ∀ j, (cp.receiver, cp.orig, j) ∈ s.delivered ↔ j < cp.index
  carries : Carries t engines cp.orig cp.index data.payload
  inFlight : s'.inFlight =
    s.inFlight.eraseIdx i ++ t.transmit cp.receiver cp.orig cp.index data
  delivered : s'.delivered = s.delivered ++ [(cp.receiver, cp.orig, cp.index)]
  mark : ∀ n o, n ≠ o → s'.mark t n o =
    if n = cp.receiver ∧ o = cp.orig then some (number engines o (cp.index + 1))
    else s.mark t n o

/-- The high-waters after a receiver's engine has been replaced by one that differs in
the entry of one originator. -/
theorem mark_update {s' : Mesh N c} {r o' : N} {e : BatmanEngine (c r)}
    {entry : BroadcastSeqnoEntry} (hengine : s'.engine = Function.update s.engine r e)
    (htable : ∀ mac, e.broadcastSeqno.get? mac = if mac = t.ident o' then some entry
      else (s.engine r).broadcastSeqno.get? mac) (n o : N) :
    s'.mark t n o = if n = r ∧ o = o' then some entry.lastSeqno else s.mark t n o := by
  unfold mark
  rw [hengine]
  by_cases hn : n = r
  · subst hn
    rw [Function.update_self, htable]
    by_cases ho : o = o'
    · subst ho
      simp
    · simp [ho, t.ident_injective.eq_iff]
  · simp [hn]

theorem deliver_own (h : Sound t engines s) {i : Nat} {now : Duration} {replyLen : Nat}
    {cp : Copy N} (hcp : s.inFlight[i]? = some cp) (hown : cp.receiver = cp.orig) :
    s.deliver t i now replyLen = { s with inFlight := s.inFlight.eraseIdx i } := by
  obtain ⟨_, bcast, inner, hread, horig, _⟩ := h.frames cp (List.mem_of_getElem? hcp)
  have hself : bcast.orig = (s.engine cp.receiver).selfIdent := by
    rw [horig, h.selfIdent, hown]
  unfold deliver
  rw [hcp]
  dsimp only
  rw [BatmanEngine.handleBroadcast_own _ now replyLen hread hself]
  simp [RoutingAction.delivers]

theorem deliver_spec (h : Sound t engines s) {i : Nat} {now : Duration} {replyLen : Nat}
    {cp : Copy N} (hcp : s.inFlight[i]? = some cp)
    (hquiet : s.Undisturbed (.deliver i now replyLen))
    (horder : s.InOrder (.deliver i now replyLen)) :
    let s' := s.deliver t i now replyLen
    s'.sent = s.sent ∧ (∀ n, (s'.engine n).selfIdent = t.ident n) ∧
      (∀ n, (s'.engine n).broadcastSequenceNumber = (s.engine n).broadcastSequenceNumber) ∧
      (Dropped t s s' i cp ∨ ∃ data, Taken t engines s s' i cp data) := by
  obtain ⟨hindex, bcast, inner, hread, horig, hseqno⟩ := h.frames cp (List.mem_of_getElem? hcp)
  by_cases hown : cp.receiver = cp.orig
  · rw [deliver_own h hcp hown]
    exact ⟨rfl, h.selfIdent, fun n => rfl,
      Or.inl ⟨Or.inl ⟨hown, hindex⟩, rfl, rfl, fun n o _ => rfl⟩⟩
  have hother : bcast.orig ≠ (s.engine cp.receiver).selfIdent := by
    rw [horig, h.selfIdent]
    exact fun hsame => hown (t.ident_injective hsame.symm)
  obtain ⟨hhops, hfits, hroom, hsteady⟩ := hquiet cp hcp hown (bcast, inner) hread
  obtain ⟨hbefore, hlate⟩ := horder cp hcp hown
  obtain ⟨next, hnext, hmark⟩ := h.tracks cp.receiver cp.orig hown
  have hle : cp.index ≤ next := by
    rcases hbefore with hzero | hmem
    · omega
    · have hold := (hnext _).mp hmem
      omega
  have hwindow : next < cp.index + 1 + 2 ^ 31 := by
    by_contra hfar
    have hold : next - 1 < cp.index + 2 ^ 31 :=
      hlate (_, _, next - 1) ((hnext _).mpr (by omega)) rfl rfl
    omega
  have hspec := BatmanEngine.handleBroadcast_spec (s.engine cp.receiver) now hread hother hroom
    hhops hfits
  have hdedup := BatmanEngine.dedup_spec (s.engine cp.receiver) now hmark hle hwindow
    (by rw [← horig]; rw [hseqno] at hsteady; exact hsteady)
  have hstep : s.deliver t i now replyLen =
      let r := (s.engine cp.receiver).handleBroadcast now cp.frame replyLen
      { s with
        engine := Function.update s.engine cp.receiver r.1
        inFlight := s.inFlight.eraseIdx i ++
          (r.2.2.map (t.transmit cp.receiver cp.orig cp.index)).getD []
        delivered := if r.2.1.delivers then s.delivered ++ [(cp.receiver, cp.orig, cp.index)]
          else s.delivered } := by
    unfold deliver
    rw [hcp]
  rw [hstep]
  clear hstep
  generalize (s.engine cp.receiver).handleBroadcast now cp.frame replyLen = r at hspec ⊢
  obtain ⟨e₁, action, out⟩ := r
  obtain ⟨hself, hcounter, htable, hout⟩ := hspec
  rw [horig, hseqno] at hout htable
  unfold number at hout htable
  generalize (s.engine cp.receiver).dedup now (t.ident cp.orig) _ = d at hout htable hdedup
  obtain ⟨entry, fresh⟩ := d
  obtain ⟨hfresh, hlast⟩ := hdedup
  dsimp only at hself hcounter htable hout hfresh hlast ⊢
  refine ⟨rfl, ?_, ?_, ?_⟩
  · intro n
    by_cases hn : n = cp.receiver
    · subst hn
      rw [Function.update_self, hself, h.selfIdent]
    · rw [Function.update_of_ne hn, h.selfIdent]
  · intro n
    by_cases hn : n = cp.receiver
    · subst hn
      rw [Function.update_self, hcounter]
    · rw [Function.update_of_ne hn]
  · by_cases heq : cp.index = next
    · right
      subst heq
      rw [if_pos rfl] at hlast
      rw [hfresh, decide_eq_true rfl, if_pos rfl] at hout
      obtain ⟨rfl, rfl⟩ := Prod.mk.inj hout
      refine ⟨_, hown, hnext, ⟨{ bcast with ttl := bcast.ttl - 1, orig := t.ident cp.orig },
        inner, rfl, rfl, hseqno⟩, rfl, rfl, ?_⟩
      intro n o _
      refine (mark_update rfl htable n o).trans ?_
      rw [hlast]
      split
      · rename_i hpair
        rw [hpair.2]
        rfl
      · rfl
    · left
      rw [if_neg heq] at hlast
      rw [hfresh, decide_eq_false heq] at hout
      obtain ⟨rfl, rfl⟩ := Prod.mk.inj hout
      refine ⟨Or.inr ((hnext _).mpr (by omega)), by simp, rfl, ?_⟩
      intro n o _
      refine (mark_update rfl htable n o).trans ?_
      split
      · rename_i hpair
        rw [hpair.1, hpair.2, hmark, hlast, if_neg (by omega)]
        rfl
      · rfl

omit [DecidableEq N] in
theorem eq_or_mem_eraseIdx {i : Nat} {cp cp' : Copy N} (hcp : s.inFlight[i]? = some cp)
    (h : cp' ∈ s.inFlight) : cp' = cp ∨ cp' ∈ s.inFlight.eraseIdx i := by
  obtain ⟨j, hj⟩ := List.mem_iff_getElem?.mp h
  by_cases hij : j = i
  · subst hij
    exact Or.inl (Option.some.inj (hj.symm.trans hcp))
  · exact Or.inr (List.mem_eraseIdx_iff_getElem?.mpr ⟨j, hij, hj⟩)

section Arrival
variable {s' : Mesh N c} {i : Nat} {cp : Copy N}

omit [DecidableEq N] in
theorem Dropped.sound (hdropped : Dropped t s s' i cp) (h : Sound t engines s)
    (hcp : s.inFlight[i]? = some cp) (hsent : s'.sent = s.sent)
    (hself : ∀ n, (s'.engine n).selfIdent = t.ident n)
    (hcounter : ∀ n, (s'.engine n).broadcastSequenceNumber =
      (s.engine n).broadcastSequenceNumber) : Sound t engines s' := by
  have hheld : s'.Holds = s.Holds := by
    funext n m
    rw [Holds, hsent, hdropped.delivered]
    rfl
  refine ⟨hself, ?_, ?_, ?_, ?_, ?_, ?_⟩
  · intro n
    rw [hcounter, hsent]
    exact h.counter n
  · intro cp' hcp'
    rw [hdropped.inFlight] at hcp'
    rw [hsent]
    exact h.frames cp' (List.mem_of_mem_eraseIdx hcp')
  · rw [hdropped.delivered]
    exact h.nodup
  · rw [hdropped.delivered]
    exact h.own
  · intro n o hn
    rw [hdropped.delivered, hdropped.mark n o hn]
    exact h.tracks n o hn
  · rw [hheld, hdropped.inFlight]
    refine h.covered.step (fun n m hn => hn) ?_ (fun n m hn => Or.inl hn)
    intro b m hb
    obtain ⟨cp', hcp', hmsg⟩ := List.mem_map.mp hb
    rcases eq_or_mem_eraseIdx hcp hcp' with rfl | hstill
    · -- The copy that is gone was addressed to a holder.
      rw [← (Prod.mk.inj hmsg).1, ← (Prod.mk.inj hmsg).2]
      exact Or.inl hdropped.holds
    · exact Or.inr (List.mem_map.mpr ⟨cp', hstill, hmsg⟩)

theorem Taken.sound {data : LinkFrameData} (htaken : Taken t engines s s' i cp data)
    (h : Sound t engines s) (hcp : s.inFlight[i]? = some cp) (hsent : s'.sent = s.sent)
    (hself : ∀ n, (s'.engine n).selfIdent = t.ident n)
    (hcounter : ∀ n, (s'.engine n).broadcastSequenceNumber =
      (s.engine n).broadcastSequenceNumber) : Sound t engines s' := by
  have hheld : ∀ n m, s'.Holds n m ↔ s.Holds n m ∨ n = cp.receiver ∧ m = (cp.orig, cp.index) := by
    intro n m
    simp [Holds, hsent, htaken.delivered, or_assoc]
  refine ⟨hself, ?_, ?_, ?_, ?_, ?_, ?_⟩
  · intro n
    rw [hcounter, hsent]
    exact h.counter n
  · intro cp' hcp'
    rw [htaken.inFlight] at hcp'
    rw [hsent]
    rcases List.mem_append.mp hcp' with hold | hnew
    · exact h.frames cp' (List.mem_of_mem_eraseIdx hold)
    · obtain ⟨horig, hindex, hpayload⟩ := mem_transmit hnew
      rw [horig, hindex, hpayload]
      exact ⟨(h.frames cp (List.mem_of_getElem? hcp)).1, htaken.carries⟩
  · have hunseen : (cp.receiver, cp.orig, cp.index) ∉ s.delivered := by
      rw [htaken.next]
      exact Nat.lt_irrefl _
    rw [htaken.delivered]
    exact h.nodup.append (List.nodup_singleton _) (by simpa using hunseen)
  · intro n j hmem
    rw [htaken.delivered, List.mem_append, List.mem_singleton] at hmem
    rcases hmem with hold | hnew
    · exact h.own n j hold
    · simp only [Prod.mk.injEq] at hnew
      exact htaken.other (hnew.1.symm.trans hnew.2.1)
  · intro n o hn
    obtain ⟨next, hnext, hmark⟩ := h.tracks n o hn
    rw [htaken.mark n o hn, htaken.delivered]
    by_cases hpair : n = cp.receiver ∧ o = cp.orig
    · obtain ⟨rfl, rfl⟩ := hpair
      refine ⟨cp.index + 1, ?_, by simp⟩
      intro j
      simp only [List.mem_append, htaken.next, List.mem_singleton, Prod.mk.injEq, true_and]
      omega
    · refine ⟨next, ?_, by rw [if_neg hpair, hmark]⟩
      intro j
      rw [← hnext, List.mem_append, List.mem_singleton]
      constructor
      · rintro (hold | hnew)
        · exact hold
        · simp only [Prod.mk.injEq] at hnew
          exact absurd ⟨hnew.1, hnew.2.1⟩ hpair
      · exact Or.inl
  · rw [htaken.inFlight, List.map_append]
    refine h.covered.step (fun n m hn => (hheld n m).mpr (Or.inl hn)) ?_ ?_
    · intro b m hb
      obtain ⟨cp', hcp', hmsg⟩ := List.mem_map.mp hb
      rcases eq_or_mem_eraseIdx hcp hcp' with rfl | hstill
      · rw [← (Prod.mk.inj hmsg).1, ← (Prod.mk.inj hmsg).2]
        exact Or.inl ((hheld _ _).mpr (Or.inr ⟨rfl, rfl⟩))
      · exact Or.inr (List.mem_append_left _ (List.mem_map.mpr ⟨cp', hstill, hmsg⟩))
    · intro n m hn
      rcases (hheld n m).mp hn with hold | ⟨rfl, rfl⟩
      · exact Or.inl hold
      · right
        intro b hb
        exact List.mem_append_right _ (message_mem_transmit _ _ data hb)

end Arrival

theorem Sound.deliver (h : Sound t engines s) {i : Nat} {now : Duration} {replyLen : Nat}
    (hquiet : s.Undisturbed (.deliver i now replyLen))
    (horder : s.InOrder (.deliver i now replyLen)) :
    Sound t engines (s.deliver t i now replyLen) := by
  cases hcp : s.inFlight[i]? with
  | none =>
    have hsame : s.deliver t i now replyLen = s := by
      unfold Mesh.deliver
      rw [hcp]
    rw [hsame]
    exact h
  | some cp =>
    obtain ⟨hsent, hself, hcounter, hdropped | ⟨data, htaken⟩⟩ := deliver_spec h hcp hquiet horder
    · exact hdropped.sound h hcp hsent hself hcounter
    · exact htaken.sound h hcp hsent hself hcounter

theorem Sound.step (h : Sound t engines s) {op : MeshOp N} (hquiet : s.Undisturbed op)
    (horder : s.InOrder op) : Sound t engines (s.step t op) := by
  cases op with
  | originate n payload txLen => exact h.originate n hquiet
  | deliver i now replyLen => exact h.deliver hquiet horder

/-- A sound mesh that has come to rest has delivered everything once. -/
theorem Sound.exactlyOnce (h : Sound t engines s) : s.ExactlyOnce t := by
  refine ⟨fun n o i => List.nodup_iff_count_le_one.mp h.nodup _, ?_⟩
  intro hrest o i hi n hn hreach
  have hcovered := h.covered
  rw [hrest] at hcovered
  rcases hcovered.held_of_reaches (m := (o, i)) (Or.inl ⟨rfl, hi⟩) hreach with ⟨hself, _⟩ | hmem
  · exact absurd hself hn
  · exact List.count_eq_one_of_mem h.nodup hmem

/-! ### The flood comes to rest -/

section Work
variable [Fintype N]

instance (s : Mesh N c) (n : N) (m : N × Nat) : Decidable (s.Holds n m) :=
  inferInstanceAs (Decidable (_ ∨ _))

/-- The copies on the air, and those the nodes that have yet to take a broadcast will
add. -/
def work (t : Topology N) (s : Mesh N c) : Nat :=
  s.inFlight.length + ∑ o, ∑ i ∈ Finset.range (s.sent o), ∑ n,
    if s.Holds n (o, i) then 0 else (t.links n).length

theorem Dropped.work {s' : Mesh N c} {i : Nat} {cp : Copy N} (hdropped : Dropped t s s' i cp)
    (hcp : s.inFlight[i]? = some cp) (hsent : s'.sent = s.sent) : s'.work t + 1 = s.work t := by
  have hlt : i < s.inFlight.length := (List.getElem?_eq_some_iff.mp hcp).1
  have hlen : s'.inFlight.length + 1 = s.inFlight.length := by
    rw [hdropped.inFlight, List.length_eraseIdx_of_lt hlt]
    omega
  have hheld : ∀ n m, s'.Holds n m ↔ s.Holds n m := by
    intro n m
    rw [Holds, hsent, hdropped.delivered]
    rfl
  simp only [Mesh.work, hheld, hsent]
  omega

theorem Taken.work {s' : Mesh N c} {i : Nat} {cp : Copy N} {data : LinkFrameData}
    (htaken : Taken t engines s s' i cp data) (h : Sound t engines s)
    (hcp : s.inFlight[i]? = some cp) (hsent : s'.sent = s.sent) : s'.work t + 1 = s.work t := by
  have hlt : i < s.inFlight.length := (List.getElem?_eq_some_iff.mp hcp).1
  have hlen : s'.inFlight.length + 1 = s.inFlight.length + (t.links cp.receiver).length := by
    rw [htaken.inFlight, List.length_append, List.length_eraseIdx_of_lt hlt, Topology.transmit,
      List.length_map]
    omega
  have hunheld : ¬ s.Holds cp.receiver (cp.orig, cp.index) := by
    rintro (⟨hown, _⟩ | hmem)
    · exact htaken.other hown
    · exact Nat.lt_irrefl _ ((htaken.next _).mp hmem)
  let added (n o : N) (j : Nat) : Nat :=
    if o = cp.orig then if j = cp.index then if n = cp.receiver then
      (t.links cp.receiver).length else 0 else 0 else 0
  have hheld : ∀ n o j, (if s.Holds n (o, j) then 0 else (t.links n).length) =
      (if s'.Holds n (o, j) then 0 else (t.links n).length) + added n o j := by
    intro n o j
    have hiff : s'.Holds n (o, j) ↔
        s.Holds n (o, j) ∨ n = cp.receiver ∧ (o, j) = (cp.orig, cp.index) := by
      simp [Holds, hsent, htaken.delivered, or_assoc]
    by_cases hnow : n = cp.receiver ∧ (o, j) = (cp.orig, cp.index)
    · obtain ⟨rfl, hmsg⟩ := hnow
      obtain ⟨rfl, rfl⟩ := Prod.mk.inj hmsg
      simp [added, hunheld, hiff]
    · have hnone : added n o j = 0 := by
        simp only [added]
        split_ifs with ho hj hn
        · exact absurd ⟨hn, by rw [ho, hj]⟩ hnow
        · rfl
        · rfl
        · rfl
      have hsame : s'.Holds n (o, j) ↔ s.Holds n (o, j) := by
        rw [hiff, or_iff_left hnow]
      simp only [hsame, hnone, Nat.add_zero]
  have hadded : ∑ o, ∑ j ∈ Finset.range (s.sent o), ∑ n, added n o j =
      (t.links cp.receiver).length := by
    have hindex := (h.frames cp (List.mem_of_getElem? hcp)).1
    rw [Finset.sum_eq_single cp.orig, Finset.sum_eq_single cp.index,
      Finset.sum_eq_single cp.receiver]
    all_goals simp +contextual [added, hindex]
  simp only [Mesh.work, hsent, hheld, Finset.sum_add_distrib]
  omega

/-- An arrival uses up one copy for good. -/
theorem deliver_work (h : Sound t engines s) {i : Nat} {now : Duration} {replyLen : Nat}
    {cp : Copy N} (hcp : s.inFlight[i]? = some cp)
    (hquiet : s.Undisturbed (.deliver i now replyLen))
    (horder : s.InOrder (.deliver i now replyLen)) :
    (s.deliver t i now replyLen).work t + 1 = s.work t := by
  obtain ⟨hsent, _, _, hdropped | ⟨data, htaken⟩⟩ := deliver_spec h hcp hquiet horder
  · exact hdropped.work hcp hsent
  · exact htaken.work h hcp hsent

/-- The step is the arrival of a copy that is on the air. -/
def Arrives (s : Mesh N c) : MeshOp N → Prop
  | .originate .. => False
  | .deliver i _ _ => i < s.inFlight.length

/-- However the copies arrive, the flood is over after as many arrivals as there was
work. -/
theorem run_work (h : Sound t engines s) (ops : List (MeshOp N))
    (hquiet : Run.AllSafe (step t) Undisturbed s ops)
    (horder : Run.AllSafe (step t) InOrder s ops)
    (harrive : Run.AllSafe (step t) Arrives s ops) :
    (Run.run (step t) s ops).work t + ops.length = s.work t := by
  induction ops generalizing s with
  | nil => rfl
  | cons op ops ih =>
    obtain ⟨hop, hquiet⟩ := Run.allSafe_cons.mp hquiet
    obtain ⟨hord, horder⟩ := Run.allSafe_cons.mp horder
    obtain ⟨hair, harrive⟩ := Run.allSafe_cons.mp harrive
    have hrest := ih (h.step hop hord) hquiet horder harrive
    cases op with
    | originate n payload txLen => exact hair.elim
    | deliver i now replyLen =>
      have hstep := deliver_work h (List.getElem?_eq_getElem hair) hop hord
      have hrun : Run.run (step t) s (.deliver i now replyLen :: ops) =
          Run.run (step t) (s.deliver t i now replyLen) ops := rfl
      rw [hrun, List.length_cons]
      have hrest' : (Run.run (step t) (s.deliver t i now replyLen) ops).work t + ops.length =
          (s.deliver t i now replyLen).work t := hrest
      omega

/-- With the work done, nothing is on the air. -/
theorem inFlight_eq_nil_of_work (h : s.work t = 0) : s.inFlight = [] := by
  unfold work at h
  exact List.eq_nil_of_length_eq_zero (by omega)

/-- In a run without loss, eviction or resynchronisation whose copies arrive in order,
the flood reaches every node exactly once, and it comes to rest: from any point of the
run on, as many arrivals as there is work leave nothing on the air. -/
theorem run_exactlyOnce (t : Topology N) (engines : (n : N) → BatmanEngine (c n))
    (hfresh : Fresh t engines) (ops : List (MeshOp N))
    (hquiet : Run.AllSafe (step t) Undisturbed (start engines) ops)
    (horder : Run.AllSafe (step t) InOrder (start engines) ops) :
    Run.AllGood (step t) (ExactlyOnce t) (start engines) ops ∧
      ∀ pre more, pre ++ more = ops →
        Run.AllSafe (step t) Arrives (Run.run (step t) (start engines) pre) more →
        more.length ≤ (Run.run (step t) (start engines) pre).work t ∧
          (more.length = (Run.run (step t) (start engines) pre).work t →
            (Run.run (step t) (start engines) ops).inFlight = []) := by
  have hsafe : Run.AllSafe (step t) (fun s op => Undisturbed s op ∧ InOrder s op)
      (start engines) ops :=
    fun pre op hpre => ⟨hquiet pre op hpre, horder pre op hpre⟩
  have hsound : Run.AllGood (step t) (Sound t engines) (start engines) ops :=
    Run.allGood_of_allSafe (start_sound hfresh) (fun _ _ hs hop => hs.step hop.1 hop.2) hsafe
  refine ⟨fun pre hpre => (hsound pre hpre).exactlyOnce, ?_⟩
  rintro pre more rfl harrive
  have hwork := run_work (hsound pre (List.prefix_append pre more)) more hquiet.after horder.after
    harrive
  rw [← Run.run_append] at hwork
  refine ⟨by omega, ?_⟩
  intro hdone
  apply inFlight_eq_nil_of_work (t := t)
  omega

end Work

/-! ### Three nodes in sight of each other -/

def triangle : Topology (Fin 3) where
  links n := (List.finRange 3).filter (· ≠ n)
  ident n := ⟨2, 0, 0, 0, 0, BitVec.ofNat 8 n.val⟩
  ident_injective := by decide

def triangleEngines (n : Fin 3) : BatmanEngine ⟨4, 2, 4, 4, isPowerOfTwo_four⟩ := .new _ (triangle.ident n)

/-- The first node broadcasts twice, and the copies arrive one by one, each time the
one at the given place in flight. -/
def twoBroadcasts (order : List Nat) : List (MeshOp (Fin 3)) :=
  [.originate 0 [1] 1500, .originate 0 [2] 1500] ++
    order.map fun i => .deliver i (Duration.ofSecs 1) 1500

theorem triangle_fresh : Fresh triangle triangleEngines := ⟨fun _ => rfl, fun _ _ => rfl⟩

theorem run_exactlyOnce_first_come :
    Run.AllGood (step triangle) (ExactlyOnce triangle) (start triangleEngines)
        (twoBroadcasts (List.replicate 12 0)) ∧
      (Run.run (step triangle) (start triangleEngines)
        (twoBroadcasts (List.replicate 12 0))).inFlight.length = 0 :=
  ⟨(run_exactlyOnce triangle triangleEngines triangle_fresh _ (by decide +kernel)
    (by decide +kernel)).1, by decide +kernel⟩

/-- The second broadcast reaches the second node before the first does, and the first is
lost there. -/
theorem overtaken_broadcast_lost :
    Fresh triangle triangleEngines ∧
      Run.AllSafe (step triangle) Undisturbed (start triangleEngines)
        (twoBroadcasts (2 :: List.replicate 12 0)) ∧
      ¬ Run.AllGood (step triangle) (ExactlyOnce triangle) (start triangleEngines)
        (twoBroadcasts (2 :: List.replicate 12 0)) := by
  refine ⟨triangle_fresh, by decide +kernel, ?_⟩
  intro hgood
  obtain ⟨_, hrest⟩ := hgood _ (List.prefix_refl _)
  have hquiet : (Run.run (step triangle) (start triangleEngines)
      (twoBroadcasts (2 :: List.replicate 12 0))).inFlight.length = 0 := by
    decide +kernel
  have honce := hrest (List.eq_nil_of_length_eq_zero hquiet) 0 0 (by decide +kernel) 1 (by decide)
    (.single (by decide))
  exact absurd honce (by decide +kernel)

end Mesh

end Wayfinder
