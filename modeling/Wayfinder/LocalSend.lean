import Wayfinder.Lib.Grouping
import Wayfinder.Node

/-!
# What a local send reports

A host's payload leaves as one frame, or, for a list of listeners, as one frame for each of
their next hops. An error should mean that nothing left and nothing but a drop counter moved;
a success, that every listener is in a frame or counted as lost.
-/

namespace Wayfinder

set_option autoImplicit false

open Table Grouping

abbrev ListenerGroup := Mac × List Mac

namespace ListenerGroup

def header (g : ListenerGroup) : BatmanMcastPacket :=
  ⟨BatmanPacketType.mcast.asU8, batmanVersion, 50, BitVec.ofNat 8 g.2.length,
    McastAuthForm.tag.asU8⟩

def frame (payload : Bytes) (g : ListenerGroup) : LinkFrameData :=
  ⟨g.1, ethPBatman, g.header.asBytes ++ macsAsBytes g.2 ++ payload⟩

def Fits (payload : Bytes) (txLen : Nat) (g : ListenerGroup) : Prop :=
  mcastHeaderLen + g.2.length * 6 + payload.length ≤ txLen

instance (payload : Bytes) (txLen : Nat) (g : ListenerGroup) : Decidable (g.Fits payload txLen) :=
  inferInstanceAs (Decidable (_ ≤ _))

end ListenerGroup

def LinkFrameData.listed (f : LinkFrameData) : List Mac :=
  ((McastPacketView.parse f.payload).map McastPacketView.dests).getD []

/-- A counter that stops at its ceiling. -/
def CountsUp (before after : U32) (k : Nat) : Prop :=
  after.toNat = min (before.toNat + k) (2 ^ 32 - 1)

namespace NodeRouter

variable {e : Capacities} {a : AuthCapacities} {t : TableCapacities}

/-! ### What is promised -/

def SameButDrops (n n' : NodeRouter e a t) : Prop :=
  { n' with
    oversizeDrops := n.oversizeDrops
    mcastGroupDrops := n.mcastGroupDrops
    mcastUnroutableLocal := n.mcastUnroutableLocal } = n

def listenerRoute (n : NodeRouter e a t) (now : Duration) (dest : Mac) : Option (Mac × Mac) :=
  if dest = n.core.batman.selfIdent then none
  else (n.core.resolveNextHop now dest).map fun next => (next, dest)

/-- The listeners a send has room for, with their next hops. -/
def listeners (n : NodeRouter e a t) (now : Duration) (dests : List Mac) : List (Mac × Mac) :=
  (dests.filterMap (n.listenerRoute now)).take maxMcastDests

def listenerGroups (n : NodeRouter e a t) (now : Duration) (dests : List Mac) :
    List ListenerGroup :=
  (freshKeys Prod.fst (n.listeners now dests) []).map fun hop =>
    (hop, (group Prod.fst (n.listeners now dests) hop).map Prod.snd)

/-- The occurrences of others in the list that were not taken in for sending. -/
def leftOut (n : NodeRouter e a t) (now : Duration) (dests : List Mac) : Nat :=
  dests.countP (· ≠ n.core.batman.selfIdent) - (n.listeners now dests).length

/-- Every listed occurrence of another node is in exactly one of the frames the sink took,
addressed to its next hop, or among those counted as refused by the sink, or counted as
unroutable. -/
def Accounted (n n' : NodeRouter e a t) (now : Duration) (dests : List Mac)
    (out out' : FrameSink) : Prop :=
  ∃ frames refused, out' = { out with frames := out.frames ++ frames } ∧
    (∀ f ∈ frames, ∀ d ∈ f.listed, n.core.resolveNextHop now d = some f.dst) ∧
    (frames.flatMap LinkFrameData.listed ++ refused).Perm
      ((n.listeners now dests).map Prod.snd) ∧
    CountsUp n.mcastGroupDrops n'.mcastGroupDrops refused.length ∧
    CountsUp n.mcastUnroutableLocal n'.mcastUnroutableLocal (n.leftOut now dests)

structure HonestMcast (n : NodeRouter e a t) (now : Duration) (dests : List Mac)
    (payload : Bytes) (txLen : Nat) (out : FrameSink) : Prop where
  failed : ∀ err, (n.handleLocalMcast now dests payload txLen out).2.1 = .error err →
    (n.handleLocalMcast now dests payload txLen out).2.2 = out ∧
    n.SameButDrops (n.handleLocalMcast now dests payload txLen out).1
  sent : (n.handleLocalMcast now dests payload txLen out).2.1 = .ok () →
    n.Accounted (n.handleLocalMcast now dests payload txLen out).1 now dests out
      (n.handleLocalMcast now dests payload txLen out).2.2

def HonestSend (n : NodeRouter e a t) (now : Duration) (dest : Mac) (payload : Bytes)
    (txLen : Nat) : Prop :=
  ∀ err, (n.handleLocal now dest payload txLen).2 = .error err →
    n.SameButDrops (n.handleLocal now dest payload txLen).1

/-! ### When it is kept -/

def Unrouted (n : NodeRouter e a t) (now : Duration) (d : Mac) : Prop :=
  d ≠ n.core.batman.selfIdent ∧ n.core.resolveNextHop now d = none

instance {n : NodeRouter e a t} {now : Duration} : DecidablePred (n.Unrouted now) :=
  fun _ => inferInstanceAs (Decidable (_ ∧ _))

/-- What is counted where the list overflows behind `pre`: whoever had no next hop until then,
and as many as the list is longer than what there is room for. -/
def counted (n : NodeRouter e a t) (now : Duration) (dests pre : List Mac) : Nat :=
  pre.countP (n.Unrouted now) + (dests.length - maxMcastDests) % 2 ^ 32

/-- Where more listeners have a next hop than there is room for, as many are counted as were
left out, or the counter stops at its ceiling either way. -/
def OverflowCounted (n : NodeRouter e a t) (now : Duration) (dests : List Mac) : Prop :=
  ∀ pre dest post, dests = pre ++ dest :: post →
    (pre.filterMap (n.listenerRoute now)).length = maxMcastDests →
    (n.listenerRoute now dest).isSome →
    n.counted now dests pre = n.leftOut now dests ∨ 2 ^ 32 - 1 ≤
      n.mcastUnroutableLocal.toNat + min (n.counted now dests pre) (n.leftOut now dests)

/-- The node is locked; or no group that the sink takes comes before one that does not fit
the buffer, and a list that leaves as a whole overflows only where that is counted right. -/
def CleanSplit (n : NodeRouter e a t) (now : Duration) (dests : List Mac) (payload : Bytes)
    (txLen : Nat) (out : FrameSink) : Prop :=
  n.core.authLocked = true ∨
  (∀ pre g post, n.listenerGroups now dests = pre ++ g :: post →
    ¬ g.Fits payload txLen → (∀ h ∈ pre, h.Fits payload txLen) →
    ∀ h ∈ pre, out.accepts out.frames (h.frame payload) = false) ∧
  ((∀ g ∈ n.listenerGroups now dests, g.Fits payload txLen) →
    (∃ g ∈ n.listenerGroups now dests, out.accepts out.frames (g.frame payload) = true) →
    n.OverflowCounted now dests)

def CleanSend (n : NodeRouter e a t) (dest : Mac) (payload : Bytes) (txLen : Nat) : Prop :=
  n.core.authLocked = true ∨ dest ≠ Mac.broadcast ∨
    BatmanBroadcastPacket.size + payload.length ≤ txLen

/-! ### One frame -/

section One
variable {n n' : NodeRouter e a t} {now : Duration} {dest : Mac} {payload : Bytes} {txLen : Nat}

theorem SameButDrops.refl (n : NodeRouter e a t) : n.SameButDrops n := rfl

theorem SameButDrops.core (h : n.SameButDrops n') : n'.core = n.core := by
  have hcore := congrArg NodeRouter.core (show _ = n from h)
  exact hcore

/-- A broadcast spends its number before the length is looked at. -/
theorem handleLocalBroadcast_spends (batman : BatmanEngine e) (payload : Bytes) (txLen : Nat) :
    (batman.handleLocalBroadcast payload txLen).1 ≠ batman := by
  intro h
  have hspent : (batman.handleLocalBroadcast payload txLen).1.broadcastSequenceNumber =
      batman.broadcastSequenceNumber + 1 := by
    unfold BatmanEngine.handleLocalBroadcast
    dsimp only
    split <;> rfl
  have hnat := congrArg BitVec.toNat (hspent.symm.trans
    (congrArg BatmanEngine.broadcastSequenceNumber h))
  have hlt := batman.broadcastSequenceNumber.isLt
  have hone : (1 : U32).toNat = 1 := rfl
  rw [BitVec.toNat_add, hone] at hnat
  omega

theorem handleLocalBroadcast_isSome (batman : BatmanEngine e) (payload : Bytes) (txLen : Nat) :
    (batman.handleLocalBroadcast payload txLen).2.isSome = true ↔
      BatmanBroadcastPacket.size + payload.length ≤ txLen := by
  unfold BatmanEngine.handleLocalBroadcast
  dsimp only
  split <;> simp <;> omega

/-- A send that fails leaves the node as it was, exactly if it is not a broadcast too long
for the buffer. -/
theorem handleLocal_honest : n.HonestSend now dest payload txLen ↔
    n.CleanSend dest payload txLen := by
  unfold HonestSend CleanSend handleLocal
  by_cases hlocked : n.core.authLocked = true
  · rw [if_pos hlocked]
    exact iff_of_true (fun _ _ => .refl n) (Or.inl hlocked)
  rw [if_neg hlocked]
  by_cases hdest : dest = Mac.broadcast
  · rw [if_pos hdest]
    have hspends := handleLocalBroadcast_spends n.core.batman payload txLen
    have hsome := handleLocalBroadcast_isSome n.core.batman payload txLen
    generalize n.core.batman.handleLocalBroadcast payload txLen = sent at hspends hsome ⊢
    obtain ⟨batman, _ | frame⟩ := sent
    · refine iff_of_false ?_ ?_
      · intro h
        apply hspends
        exact congrArg CentralRouter.batman (h _ rfl).core
      · rintro (h | h | h)
        · exact hlocked h
        · exact h hdest
        · cases hsome.mpr h
    · refine iff_of_true ?_ (Or.inr (Or.inr (hsome.mp rfl)))
      intro err h
      cases h
  · rw [if_neg hdest]
    refine iff_of_true ?_ (Or.inr (Or.inl hdest))
    intro err _
    split
    · exact .refl n
    · dsimp only
      split
      · rfl
      · exact .refl n

end One

/-! ### Routing the listeners -/

section Route
variable {n : NodeRouter e a t} {now : Duration} {dest : Mac} {dests pre post : List Mac}
  {routed : List (Mac × Mac)} {lost lost' lost'' : U32} {i j : Nat}

theorem countsUp_zero : CountsUp lost lost 0 := by
  have hlt := lost.isLt
  unfold CountsUp
  omega

theorem countsUp_saturatingAdd (lost k : U32) :
    CountsUp lost (saturatingAdd lost k) k.toNat := saturatingAdd_toNat lost k

theorem CountsUp.trans (h : CountsUp lost lost' i) (h' : CountsUp lost' lost'' j) :
    CountsUp lost lost'' (i + j) := by
  unfold CountsUp at *
  omega

theorem CountsUp.right_iff (h : CountsUp lost lost' i) (j : Nat) :
    CountsUp lost lost' j ↔ i = j ∨ 2 ^ 32 - 1 ≤ lost.toNat + min i j := by
  unfold CountsUp at *
  omega

theorem routeListeners_append (n : NodeRouter e a t) (now : Duration) (total : Nat)
    (pre post : List Mac) (routed : List (Mac × Mac)) (lost : U32)
    (hroom : routed.length + (pre.filterMap (n.listenerRoute now)).length ≤ maxMcastDests) :
    ∃ lost', CountsUp lost lost' (pre.countP (n.Unrouted now)) ∧
      routeListeners n.core now total (pre ++ post) routed lost =
        routeListeners n.core now total post
          (routed ++ pre.filterMap (n.listenerRoute now)) lost' := by
  induction pre generalizing routed lost with
  | nil => exact ⟨lost, countsUp_zero, by rw [List.filterMap_nil, List.append_nil]; rfl⟩
  | cons d pre ih =>
    rw [List.cons_append, routeListeners, List.countP_cons, List.filterMap_cons]
    rw [List.filterMap_cons] at hroom
    by_cases hself : d = n.core.batman.selfIdent
    · have hroute : n.listenerRoute now d = none := by rw [listenerRoute, if_pos hself]
      have hcounted : ¬ n.Unrouted now d := fun h => h.1 hself
      rw [if_pos hself, hroute, decide_eq_false hcounted]
      rw [hroute] at hroom
      exact ih routed lost hroom
    · rw [if_neg hself]
      cases hhop : n.core.resolveNextHop now d with
      | none =>
        have hroute : n.listenerRoute now d = none := by
          rw [listenerRoute, if_neg hself, hhop]
          rfl
        have hcounted : n.Unrouted now d := ⟨hself, hhop⟩
        rw [hroute, decide_eq_true hcounted]
        rw [hroute] at hroom
        obtain ⟨lost', hcount, heq⟩ := ih routed (saturatingAdd lost 1) hroom
        refine ⟨lost', ?_, heq⟩
        have htotal := CountsUp.trans (countsUp_saturatingAdd lost 1) hcount
        rw [Nat.add_comm] at htotal
        exact htotal
      | some next =>
        have hroute : n.listenerRoute now d = some (next, d) := by
          rw [listenerRoute, if_neg hself, hhop]
          rfl
        have hcounted : ¬ n.Unrouted now d := by
          intro h
          rw [h.2] at hhop
          cases hhop
        rw [hroute] at hroom ⊢
        dsimp only at hroom ⊢
        rw [List.length_cons] at hroom
        have hfree : routed.length < maxMcastDests := by omega
        rw [if_pos hfree, decide_eq_false hcounted]
        obtain ⟨lost', hcount, heq⟩ := ih (routed ++ [(next, d)]) lost (by
          rw [List.length_append, List.length_singleton]
          omega)
        refine ⟨lost', hcount, ?_⟩
        rw [heq, List.append_assoc]
        rfl

theorem exists_overflow {k : Nat} (h : k < (dests.filterMap (n.listenerRoute now)).length) :
    ∃ pre dest post, dests = pre ++ dest :: post ∧
      (pre.filterMap (n.listenerRoute now)).length = k ∧ (n.listenerRoute now dest).isSome := by
  induction dests generalizing k with
  | nil => exact absurd h (Nat.not_lt_zero k)
  | cons d dests ih =>
    cases hroute : n.listenerRoute now d with
    | none =>
      rw [List.filterMap_cons, hroute] at h
      obtain ⟨pre, dest, post, rfl, hlen, hsome⟩ := ih h
      exact ⟨d :: pre, dest, post, rfl, by rw [List.filterMap_cons, hroute]; exact hlen, hsome⟩
    | some p =>
      cases k with
      | zero => exact ⟨[], d, dests, rfl, rfl, by rw [hroute]; rfl⟩
      | succ k =>
        rw [List.filterMap_cons, hroute] at h
        obtain ⟨pre, dest, post, rfl, hlen, hsome⟩ := ih (Nat.lt_of_succ_lt_succ h)
        refine ⟨d :: pre, dest, post, rfl, ?_, hsome⟩
        rw [List.filterMap_cons, hroute, List.length_cons, hlen]

theorem routeListeners_of_fits (lost : U32)
    (hfits : (dests.filterMap (n.listenerRoute now)).length ≤ maxMcastDests) :
    ∃ lost', CountsUp lost lost' (dests.countP (n.Unrouted now)) ∧
      routeListeners n.core now dests.length dests [] lost = (n.listeners now dests, lost') := by
  have hroute := n.routeListeners_append now dests.length dests [] [] lost (by simpa using hfits)
  obtain ⟨lost', hcount, heq⟩ := hroute
  rw [List.append_nil] at heq
  refine ⟨lost', hcount, ?_⟩
  rw [heq, listeners, List.take_of_length_le hfits]
  rfl

theorem routeListeners_of_overflow (lost : U32) (hdests : dests = pre ++ dest :: post)
    (hlen : (pre.filterMap (n.listenerRoute now)).length = maxMcastDests)
    (hsome : (n.listenerRoute now dest).isSome) :
    ∃ lost', CountsUp lost lost' (n.counted now dests pre) ∧
      routeListeners n.core now dests.length dests [] lost = (n.listeners now dests, lost') := by
  obtain ⟨lost', hcount, heq⟩ := n.routeListeners_append now dests.length pre
    (dest :: post) [] lost (by
      rw [hlen]
      exact Nat.le_refl _)
  have hother : dest ≠ n.core.batman.selfIdent := by
    intro hself
    rw [listenerRoute, if_pos hself] at hsome
    cases hsome
  have hlisteners : n.listeners now dests = pre.filterMap (n.listenerRoute now) := by
    rw [listeners, hdests, List.filterMap_append, ← hlen, List.take_left]
  rw [← hdests, List.nil_append] at heq
  rw [heq, hlisteners, routeListeners, if_neg hother]
  cases hhop : n.core.resolveNextHop now dest with
  | none =>
    rw [listenerRoute, if_neg hother, hhop] at hsome
    cases hsome
  | some next =>
    dsimp only
    have hfull : ¬ (pre.filterMap (n.listenerRoute now)).length < maxMcastDests := by omega
    rw [if_neg hfull, hlen]
    refine ⟨_, ?_, rfl⟩
    have htotal := CountsUp.trans hcount 
      (countsUp_saturatingAdd lost' (BitVec.ofNat 32 (dests.length - maxMcastDests)))
    rw [BitVec.toNat_ofNat] at htotal
    exact htotal

theorem countP_others (dests : List Mac) : dests.countP (· ≠ n.core.batman.selfIdent) =
    (dests.filterMap (n.listenerRoute now)).length + dests.countP (n.Unrouted now) := by
  induction dests with
  | nil => rfl
  | cons d dests ih =>
    rw [List.countP_cons, List.countP_cons, List.filterMap_cons, ih]
    by_cases hself : d = n.core.batman.selfIdent
    · simp [listenerRoute, hself, Unrouted]
    · cases hhop : n.core.resolveNextHop now d with
      | none => simp [listenerRoute, hself, hhop, Unrouted, Nat.add_assoc]
      | some next =>
        simp [listenerRoute, hself, hhop, Unrouted]
        omega

theorem leftOut_of_fits
    (hfits : (dests.filterMap (n.listenerRoute now)).length ≤ maxMcastDests) :
    n.leftOut now dests = dests.countP (n.Unrouted now) := by
  rw [leftOut, countP_others, listeners, List.take_of_length_le hfits, Nat.add_sub_cancel_left]

end Route

/-! ### Emitting the groups -/

/-- `emitListeners` on the groups: `none` for the count where one does not fit. -/
def offer (payload : Bytes) (txLen : Nat) :
    List ListenerGroup → Nat → U32 → FrameSink → Option Nat × U32 × FrameSink
  | [], emitted, drops, out => (some emitted, drops, out)
  | g :: gs, emitted, drops, out =>
    if g.Fits payload txLen then
      match out.push (g.frame payload) with
      | (out, true) => offer payload txLen gs (emitted + 1) drops out
      | (out, false) =>
        offer payload txLen gs emitted (saturatingAdd drops (BitVec.ofNat 32 g.2.length)) out
    else (none, drops, out)

section Emit
variable {payload : Bytes} {txLen emitted : Nat} {drops : U32} {out : FrameSink}
  {gs pre post : List ListenerGroup} {g : ListenerGroup}

theorem writeMcast_listeners (payload : Bytes) (txLen : Nat) (hne : g.2 ≠ []) (hlen : g.2.length ≤ maxMcastDests) :
    writeMcast 50 .tag g.2 payload txLen =
      if g.Fits payload txLen then some (g.frame payload).payload else none := by
  have hcount : ¬ (g.2.isEmpty = true ∨ 255 < g.2.length) := by
    rintro (hempty | hlong)
    · exact hne (List.isEmpty_iff.mp hempty)
    · unfold maxMcastDests at hlen
      omega
  unfold writeMcast
  rw [if_neg hcount]
  by_cases hfits : g.Fits payload txLen
  · rw [if_pos hfits, if_neg (Nat.not_lt.mpr hfits)]
    rfl
  · rw [if_neg hfits, if_pos (Nat.not_le.mp hfits)]

theorem listed_frame (hne : g.2 ≠ []) (hlen : g.2.length ≤ maxMcastDests) :
    (g.frame payload).listed = g.2 := by
  have hwrite := writeMcast_listeners payload (mcastHeaderLen + g.2.length * 6 + payload.length)
    hne hlen
  rw [if_pos (show g.Fits payload _ from Nat.le_refl _)] at hwrite
  rw [LinkFrameData.listed, parse_writeMcast hwrite]
  rfl

/-- The nested loop goes through the groups once. -/
theorem emitListeners_eq (payload : Bytes) (txLen : Nat) {routed rest : List (Mac × Mac)}
    (hlen : routed.length ≤ maxMcastDests) (hrest : rest ⊆ routed) (done : List Mac)
    (emitted : Nat) (drops : U32) (out : FrameSink) :
    emitListeners payload txLen routed rest done emitted drops out =
      offer payload txLen ((freshKeys Prod.fst rest done).map fun hop =>
        (hop, (group Prod.fst routed hop).map Prod.snd)) emitted drops out := by
  induction rest generalizing done emitted drops out with
  | nil => rfl
  | cons p rest ih =>
    obtain ⟨next, d⟩ := p
    have hsub : rest ⊆ routed := fun x hx => hrest (List.mem_cons_of_mem _ hx)
    rw [emitListeners, freshKeys]
    split
    · exact ih hsub _ _ _ _
    · have hmem : d ∈ (group Prod.fst routed next).map Prod.snd :=
        List.mem_map_of_mem (f := Prod.snd)
          (List.mem_filter.mpr ⟨hrest List.mem_cons_self, by simp⟩)
      have hgroup : ((group Prod.fst routed next).map Prod.snd).length ≤ maxMcastDests := by
        rw [List.length_map]
        exact (List.length_filter_le _ _).trans hlen
      have hwrite := writeMcast_listeners payload txLen
        (g := (next, (group Prod.fst routed next).map Prod.snd)) (List.ne_nil_of_mem hmem) hgroup
      rw [List.map_cons, offer]
      generalize hg : ((next, (group Prod.fst routed next).map Prod.snd) : ListenerGroup) = g
        at hwrite ⊢
      obtain rfl : g.1 = next := by rw [← hg]
      have hlist : (routed.filter fun p => p.1 = g.1).map Prod.snd = g.2 := congrArg Prod.snd hg
      dsimp only
      rw [hlist, hwrite]
      by_cases hfits : ListenerGroup.Fits payload txLen g
      · rw [if_pos hfits, if_pos hfits]
        have hframe : ListenerGroup.frame payload g =
            ⟨g.1, ethPBatman, (ListenerGroup.frame payload g).payload⟩ := rfl
        dsimp only
        rw [← hframe]
        generalize out.push (ListenerGroup.frame payload g) = pushed
        obtain ⟨out', _ | _⟩ := pushed
        · exact ih hsub _ _ _ _
        · exact ih hsub _ _ _ _
      · rw [if_neg hfits, if_neg hfits]

/-- The groups offered to a sink: those it took are in it, in their order, the others are
counted. Whether it took any shows at once. -/
structure Offered (payload : Bytes) (gs : List ListenerGroup) (drops : U32) (out : FrameSink)
    (taken refused : List ListenerGroup) (drops' : U32) (out' : FrameSink) : Prop where
  sink : out' = { out with frames := out.frames ++ taken.map (ListenerGroup.frame payload) }
  split : (taken ++ refused).Perm gs
  counts : CountsUp drops drops' (refused.flatMap Prod.snd).length
  any : taken = [] ↔ ∀ g ∈ gs, out.accepts out.frames (g.frame payload) = false

theorem push_eq (out : FrameSink) (f : LinkFrameData) : out.push f =
    if out.accepts out.frames f then ({ out with frames := out.frames ++ [f] }, true)
    else (out, false) := rfl

theorem offer_of_fits (emitted : Nat) (drops : U32) (out : FrameSink) (hlen : ∀ g ∈ gs, g.2.length < 2 ^ 32)
    (hfits : ∀ g ∈ gs, g.Fits payload txLen) :
    ∃ taken refused drops' out', Offered payload gs drops out taken refused drops' out' ∧
      ∀ later, offer payload txLen (gs ++ later) emitted drops out =
        offer payload txLen later (emitted + taken.length) drops' out' := by
  induction gs generalizing emitted drops out with
  | nil =>
    refine ⟨[], [], drops, out, ⟨?_, .refl _, countsUp_zero, ?_⟩, fun later => rfl⟩
    · rw [List.map_nil, List.append_nil]
    · exact iff_of_true rfl (fun g hg => by cases hg)
  | cons g gs ih =>
    obtain ⟨hfit, hfits⟩ := List.forall_mem_cons.mp hfits
    obtain ⟨hg, hlen⟩ := List.forall_mem_cons.mp hlen
    by_cases htake : out.accepts out.frames (g.frame payload) = true
    · obtain ⟨taken, refused, drops', out', h, hoffer⟩ := ih (emitted + 1) drops
        { out with frames := out.frames ++ [g.frame payload] } hlen hfits
      refine ⟨g :: taken, refused, drops', out', ⟨?_, h.split.cons g, h.counts, ?_⟩, ?_⟩
      · rw [h.sink, List.map_cons, List.append_assoc]
        rfl
      · refine iff_of_false (by simp) ?_
        intro hall
        rw [hall g List.mem_cons_self] at htake
        cases htake
      · intro later
        rw [List.cons_append, offer, if_pos hfit, push_eq, if_pos htake]
        dsimp only
        rw [hoffer later, List.length_cons, Nat.add_assoc, Nat.add_comm 1]
    · obtain ⟨taken, refused, drops', out', h, hoffer⟩ := ih emitted
        (saturatingAdd drops (BitVec.ofNat 32 g.2.length)) out hlen hfits
      refine ⟨taken, g :: refused, drops', out', ⟨h.sink, ?_, ?_, ?_⟩, ?_⟩
      · exact List.perm_middle.trans (h.split.cons g)
      · have hcount := CountsUp.trans
          (countsUp_saturatingAdd drops (BitVec.ofNat 32 g.2.length)) h.counts
        rw [BitVec.toNat_ofNat, Nat.mod_eq_of_lt hg] at hcount
        rw [List.flatMap_cons, List.length_append]
        exact hcount
      · rw [h.any, List.forall_mem_cons]
        exact (and_iff_right (Bool.eq_false_iff.mpr htake)).symm
      · intro later
        rw [List.cons_append, offer, if_pos hfit, push_eq, if_neg htake]
        exact hoffer later

theorem offer_of_unfit (emitted : Nat) (drops : U32) (out : FrameSink)
    (post : List ListenerGroup) (hlen : ∀ g ∈ pre, g.2.length < 2 ^ 32)
    (hfits : ∀ g ∈ pre, g.Fits payload txLen) (hunfit : ¬ g.Fits payload txLen) :
    ∃ taken refused drops' out', Offered payload pre drops out taken refused drops' out' ∧
      offer payload txLen (pre ++ g :: post) emitted drops out = (none, drops', out') := by
  obtain ⟨taken, refused, drops', out', h, hoffer⟩ := offer_of_fits emitted drops out hlen
    hfits
  refine ⟨taken, refused, drops', out', h, ?_⟩
  rw [hoffer, offer, if_neg hunfit]

theorem exists_unfit (payload : Bytes) (txLen : Nat) (gs : List ListenerGroup) : (∀ g ∈ gs, g.Fits payload txLen) ∨
    ∃ pre g post, gs = pre ++ g :: post ∧ ¬ g.Fits payload txLen ∧
      ∀ h ∈ pre, h.Fits payload txLen := by
  induction gs with
  | nil => exact Or.inl (fun g hg => by cases hg)
  | cons g gs ih =>
    by_cases hfit : g.Fits payload txLen
    · rcases ih with hall | ⟨pre, g', post, rfl, hunfit, hpre⟩
      · exact Or.inl (List.forall_mem_cons.mpr ⟨hfit, hall⟩)
      · exact Or.inr ⟨g :: pre, g', post, rfl, hunfit, List.forall_mem_cons.mpr ⟨hfit, hpre⟩⟩
    · exact Or.inr ⟨[], g, gs, rfl, hfit, fun h hh => by cases hh⟩

end Emit

/-! ### A whole send -/

section Send
variable {n : NodeRouter e a t} {now : Duration} {dests : List Mac} {payload : Bytes}
  {txLen : Nat} {out : FrameSink} {g : ListenerGroup}

theorem listeners_length_le : (n.listeners now dests).length ≤ maxMcastDests := by
  rw [listeners, List.length_take]
  exact Nat.min_le_left _ _

theorem mem_listenerGroups (hg : g ∈ n.listenerGroups now dests) : g.2 ≠ [] ∧
    g.2.length ≤ maxMcastDests ∧ ∀ d ∈ g.2, n.core.resolveNextHop now d = some g.1 := by
  obtain ⟨hop, hhop, rfl⟩ := List.mem_map.mp hg
  obtain ⟨p, hp, rfl⟩ := List.mem_map.mp (mem_freshKeys.mp hhop).1
  refine ⟨?_, ?_, ?_⟩
  · apply List.ne_nil_of_mem (a := p.2)
    exact List.mem_map_of_mem (List.mem_filter.mpr ⟨hp, by simp⟩)
  · dsimp only
    rw [List.length_map]
    exact (List.length_filter_le _ _).trans listeners_length_le
  · intro d hd
    obtain ⟨q, hq, rfl⟩ := List.mem_map.mp hd
    obtain ⟨hq, hsame⟩ := List.mem_filter.mp hq
    obtain ⟨d, _, hroute⟩ := List.mem_filterMap.mp (List.mem_of_mem_take hq)
    have hsame : q.1 = p.1 := of_decide_eq_true hsame
    unfold listenerRoute at hroute
    split at hroute
    · cases hroute
    · obtain ⟨next, hnext, rfl⟩ := Option.map_eq_some_iff.mp hroute
      rw [hnext]
      exact congrArg some hsame

theorem listenerGroups_perm : ((n.listenerGroups now dests).flatMap Prod.snd).Perm
    ((n.listeners now dests).map Prod.snd) := by
  have hgroups : ((freshKeys Prod.fst (n.listeners now dests) []).flatMap
      (group Prod.fst (n.listeners now dests))).Perm (n.listeners now dests) :=
    flatMap_group_perm _
  have hperm := hgroups.map Prod.snd
  rw [List.map_flatMap] at hperm
  rw [listenerGroups, List.flatMap_map]
  exact hperm

/-- What the first pass leaves: the listeners, and a count that is right exactly where an
overflow is counted right. -/
theorem routeListeners_counted (n : NodeRouter e a t) (now : Duration) (dests : List Mac) :
    ∃ lost, routeListeners n.core now dests.length dests [] n.mcastUnroutableLocal =
        (n.listeners now dests, lost) ∧
      (CountsUp n.mcastUnroutableLocal lost (n.leftOut now dests) ↔
        n.OverflowCounted now dests) := by
  rcases Nat.lt_or_ge maxMcastDests (dests.filterMap (n.listenerRoute now)).length with
    hover | hfits
  · obtain ⟨pre, dest, post, hdests, hlen, hsome⟩ := exists_overflow hover
    obtain ⟨lost, hcount, heq⟩ := routeListeners_of_overflow n.mcastUnroutableLocal
      hdests hlen hsome
    refine ⟨lost, heq, ?_⟩
    constructor
    · intro h pre' dest' post' hdests' hlen' hsome'
      obtain ⟨lost', hcount', heq'⟩ := routeListeners_of_overflow
        n.mcastUnroutableLocal hdests' hlen' hsome'
      obtain ⟨_, rfl⟩ := Prod.mk.inj (heq'.symm.trans heq)
      exact (CountsUp.right_iff hcount' _).mp h
    · intro h
      exact (CountsUp.right_iff hcount _).mpr (h pre dest post hdests hlen hsome)
  · obtain ⟨lost, hcount, heq⟩ := routeListeners_of_fits n.mcastUnroutableLocal hfits
    refine ⟨lost, heq, iff_of_true ?_ ?_⟩
    · rw [leftOut_of_fits hfits]
      exact hcount
    · intro pre dest post hdests hlen hsome
      exfalso
      obtain ⟨p, hp⟩ := Option.isSome_iff_exists.mp hsome
      rw [hdests, List.filterMap_append, List.length_append, hlen, List.filterMap_cons, hp,
        List.length_cons] at hfits
      omega

theorem appended_eq_iff {frames : List LinkFrameData} :
    ({ out with frames := out.frames ++ frames } : FrameSink) = out ↔ frames = [] := by
  constructor
  · intro h
    have hframes : out.frames ++ frames = out.frames := congrArg FrameSink.frames h
    exact List.append_right_eq_self.mp hframes
  · rintro rfl
    rw [List.append_nil]

theorem Offered.sink_iff {gs taken refused : List ListenerGroup} {drops drops' : U32}
    {out' : FrameSink} (h : Offered payload gs drops out taken refused drops' out') :
    out' = out ↔ ∀ g ∈ gs, out.accepts out.frames (g.frame payload) = false := by
  rw [h.sink, appended_eq_iff, List.map_eq_nil_iff, h.any]

theorem Offered.accounted {taken refused : List ListenerGroup} {drops' lost : U32}
    {out' : FrameSink}
    (h : Offered payload (n.listenerGroups now dests) n.mcastGroupDrops out taken refused drops'
      out') :
    n.Accounted { n with mcastUnroutableLocal := lost, mcastGroupDrops := drops' } now dests out
        out' ↔ CountsUp n.mcastUnroutableLocal lost (n.leftOut now dests) := by
  constructor
  · rintro ⟨_, _, _, _, _, _, hcount⟩
    exact hcount
  · intro hcount
    have htaken : ∀ g ∈ taken, g ∈ n.listenerGroups now dests := by
      intro g hg
      exact h.split.subset (List.mem_append_left _ hg)
    have hlisted : (taken.map (ListenerGroup.frame payload)).flatMap LinkFrameData.listed =
        taken.flatMap Prod.snd := by
      rw [List.flatMap_map]
      apply List.flatMap_congr
      intro g hg
      obtain ⟨hne, hlen, _⟩ := mem_listenerGroups (htaken g hg)
      exact listed_frame hne hlen
    refine ⟨taken.map (ListenerGroup.frame payload), refused.flatMap Prod.snd, h.sink, ?_, ?_,
      h.counts, hcount⟩
    · intro f hf d hd
      obtain ⟨g, hg, rfl⟩ := List.mem_map.mp hf
      obtain ⟨hne, hlen, hnext⟩ := mem_listenerGroups (htaken g hg)
      rw [listed_frame hne hlen] at hd
      exact hnext d hd
    · rw [hlisted, ← List.flatMap_append]
      exact (h.split.flatMap_right Prod.snd).trans listenerGroups_perm

def closeSend (n : NodeRouter e a t) (lost : U32) :
    Option Nat × U32 × FrameSink → NodeRouter e a t × Except LocalSendError Unit × FrameSink
  | (none, drops, out) =>
    ({ n with mcastUnroutableLocal := lost, mcastGroupDrops := drops }.noteOversizeDrop,
      .error .bufferTooSmall, out)
  | (some emitted, drops, out) =>
    ({ n with mcastUnroutableLocal := lost, mcastGroupDrops := drops },
      if emitted = 0 then .error .routeUnproven else .ok (), out)

theorem handleLocalMcast_eq (payload : Bytes) (txLen : Nat) (out : FrameSink)
    (hlocked : n.core.authLocked = false)
    (hroutable : n.listeners now dests ≠ []) {lost : U32}
    (hroute : routeListeners n.core now dests.length dests [] n.mcastUnroutableLocal =
      (n.listeners now dests, lost)) :
    n.handleLocalMcast now dests payload txLen out = n.closeSend lost
      (offer payload txLen (n.listenerGroups now dests) 0 n.mcastGroupDrops out) := by
  have hne : dests ≠ [] := by
    rintro rfl
    exact hroutable rfl
  have hlen : (n.listeners now dests).length ≤ maxMcastDests := listeners_length_le
  have hemit := emitListeners_eq payload txLen hlen (List.Subset.refl _) [] 0 n.mcastGroupDrops out
  rw [handleLocalMcast, if_neg (by rw [hlocked]; decide), if_neg (by simpa using hne), hroute]
  dsimp only
  rw [if_neg (by simpa using hroutable), hemit, listenerGroups]
  generalize offer payload txLen _ 0 n.mcastGroupDrops out = emission
  obtain ⟨_ | emitted, drops, out'⟩ := emission
  · rfl
  · rw [closeSend]
    dsimp only
    split <;> rfl

/-- A list nobody in it can be reached for is refused, and only counted. -/
theorem handleLocalMcast_unroutable (payload : Bytes) (txLen : Nat) (out : FrameSink)
    (hlocked : n.core.authLocked = false)
    (hnone : n.listeners now dests = []) :
    (n.handleLocalMcast now dests payload txLen out).2 = (.error .routeUnproven, out) ∧
      n.SameButDrops (n.handleLocalMcast now dests payload txLen out).1 := by
  obtain ⟨lost, hroute, _⟩ := n.routeListeners_counted now dests
  rw [handleLocalMcast, if_neg (by rw [hlocked]; decide), hroute, hnone]
  split
  · exact ⟨rfl, .refl n⟩
  · exact ⟨rfl, rfl⟩

theorem listenerGroups_of_nil (hnone : n.listeners now dests = []) :
    n.listenerGroups now dests = [] := by
  rw [listenerGroups, hnone]
  rfl

theorem groups_length_lt {gs : List ListenerGroup} (h : gs ⊆ n.listenerGroups now dests) :
    ∀ g ∈ gs, g.2.length < 2 ^ 32 := by
  intro g hg
  exact Nat.lt_of_le_of_lt (mem_listenerGroups (h hg)).2.1 (by decide)

/-! ### The ways a send to listeners ends -/

theorem HonestMcast.of_locked (hlocked : n.core.authLocked = true) :
    n.HonestMcast now dests payload txLen out := by
  have heq : n.handleLocalMcast now dests payload txLen out = (n, .error .authLocked, out) := by
    rw [handleLocalMcast, if_pos hlocked]
  constructor
  · intro err _
    rw [heq]
    exact ⟨rfl, .refl n⟩
  · intro hok
    rw [heq] at hok
    cases hok

theorem HonestMcast.of_unroutable (hlocked : n.core.authLocked = false)
    (hnone : n.listeners now dests = []) : n.HonestMcast now dests payload txLen out := by
  obtain ⟨hresult, hsame⟩ := handleLocalMcast_unroutable payload txLen out hlocked hnone
  constructor
  · intro err _
    exact ⟨congrArg Prod.snd hresult, hsame⟩
  · intro hok
    rw [hresult] at hok
    cases hok

theorem CleanSplit.of_unroutable (hnone : n.listeners now dests = []) :
    n.CleanSplit now dests payload txLen out := by
  have hgroups := listenerGroups_of_nil hnone
  refine Or.inr ⟨?_, ?_⟩
  · intro pre g post heq
    rw [hgroups] at heq
    simp at heq
  · rintro _ ⟨g, hg, _⟩
    rw [hgroups] at hg
    cases hg

theorem cleanSplit_iff_of_fits (hlocked : n.core.authLocked = false)
    (hfits : ∀ g ∈ n.listenerGroups now dests, g.Fits payload txLen) :
    n.CleanSplit now dests payload txLen out ↔
      ((∃ g ∈ n.listenerGroups now dests, out.accepts out.frames (g.frame payload) = true) →
        n.OverflowCounted now dests) := by
  constructor
  · intro hclean
    rcases hclean with hcontra | ⟨_, hoverflow⟩
    · rw [hlocked] at hcontra
      cases hcontra
    · exact hoverflow hfits
  · intro hoverflow
    refine Or.inr ⟨?_, fun _ => hoverflow⟩
    intro pre g post hgroups hunfit
    refine absurd (hfits g ?_) hunfit
    rw [hgroups]
    exact List.mem_append_right pre List.mem_cons_self

theorem handleLocalMcast_of_fits (hlocked : n.core.authLocked = false)
    (hroutable : n.listeners now dests ≠ [])
    (hfits : ∀ g ∈ n.listenerGroups now dests, g.Fits payload txLen) :
    n.HonestMcast now dests payload txLen out ↔ n.CleanSplit now dests payload txLen out := by
  obtain ⟨lost, hroute, hcount⟩ := n.routeListeners_counted now dests
  have hsend := handleLocalMcast_eq payload txLen out hlocked hroutable hroute
  obtain ⟨taken, refused, drops', out', h, hoffer⟩ := offer_of_fits 0 n.mcastGroupDrops out
    (groups_length_lt (List.Subset.refl _)) hfits
  have hoffer := hoffer []
  rw [List.append_nil, offer, Nat.zero_add] at hoffer
  rw [hoffer] at hsend
  rw [cleanSplit_iff_of_fits hlocked hfits]
  by_cases htaken : taken = []
  · rw [htaken] at hsend
    have hrefused := h.any.mp htaken
    refine iff_of_true ⟨?_, ?_⟩ ?_
    · intro err _
      rw [hsend]
      exact ⟨h.sink_iff.mpr hrefused, rfl⟩
    · intro hok
      rw [hsend] at hok
      cases hok
    · rintro ⟨g, hg, haccepted⟩
      rw [hrefused g hg] at haccepted
      cases haccepted
  · rw [closeSend, if_neg (fun hlen => htaken (List.length_eq_zero_iff.mp hlen))] at hsend
    constructor
    · intro hhonest _
      have haccounted := hhonest.sent (by rw [hsend])
      rw [hsend] at haccounted
      exact hcount.mp (h.accounted.mp haccounted)
    · intro hoverflow
      have haccepted : ∃ g ∈ n.listenerGroups now dests,
          out.accepts out.frames (g.frame payload) = true := by
        by_contra hall
        push Not at hall
        exact htaken (h.any.mpr fun g hg => Bool.eq_false_iff.mpr (hall g hg))
      constructor
      · intro err herr
        rw [hsend] at herr
        cases herr
      · intro _
        rw [hsend]
        exact h.accounted.mpr (hcount.mpr (hoverflow haccepted))

/-- A group too long ends the send as a failure, whatever the sink took before it. -/
theorem handleLocalMcast_unfit (out : FrameSink) (hlocked : n.core.authLocked = false)
    (hroutable : n.listeners now dests ≠ []) {pre post : List ListenerGroup}
    (hgroups : n.listenerGroups now dests = pre ++ g :: post) (hunfit : ¬ g.Fits payload txLen)
    (hpre : ∀ h ∈ pre, h.Fits payload txLen) :
    (n.handleLocalMcast now dests payload txLen out).2.1 = .error .bufferTooSmall ∧
      n.SameButDrops (n.handleLocalMcast now dests payload txLen out).1 ∧
      ((n.handleLocalMcast now dests payload txLen out).2.2 = out ↔
        ∀ h ∈ pre, out.accepts out.frames (h.frame payload) = false) := by
  obtain ⟨lost, hroute, _⟩ := n.routeListeners_counted now dests
  have hsend := handleLocalMcast_eq payload txLen out hlocked hroutable hroute
  have hsub : pre ⊆ n.listenerGroups now dests := by
    rw [hgroups]
    exact List.subset_append_left _ _
  obtain ⟨taken, refused, drops', out', h, hoffer⟩ := offer_of_unfit 0 n.mcastGroupDrops
    out post (groups_length_lt hsub) hpre hunfit
  rw [hgroups, hoffer] at hsend
  rw [hsend]
  exact ⟨rfl, rfl, h.sink_iff⟩

theorem handleLocalMcast_of_unfit (hlocked : n.core.authLocked = false)
    (hroutable : n.listeners now dests ≠ []) {pre post : List ListenerGroup}
    (hgroups : n.listenerGroups now dests = pre ++ g :: post) (hunfit : ¬ g.Fits payload txLen)
    (hpre : ∀ h ∈ pre, h.Fits payload txLen) :
    n.HonestMcast now dests payload txLen out ↔ n.CleanSplit now dests payload txLen out := by
  obtain ⟨hfailed, hsame, hsink⟩ := handleLocalMcast_unfit out hlocked hroutable hgroups hunfit
    hpre
  constructor
  · intro hhonest
    have hout := (hhonest.failed _ hfailed).1
    refine Or.inr ⟨?_, ?_⟩
    · intro pre' g' post' hgroups' hunfit' hpre'
      exact (handleLocalMcast_unfit out hlocked hroutable hgroups' hunfit' hpre').2.2.mp hout
    · intro hfits
      refine absurd (hfits g ?_) hunfit
      rw [hgroups]
      exact List.mem_append_right pre List.mem_cons_self
  · intro hclean
    obtain ⟨hsplit, _⟩ := hclean.resolve_left (Bool.eq_false_iff.mp hlocked)
    constructor
    · intro err _
      exact ⟨hsink.mpr (hsplit pre g post hgroups hunfit hpre), hsame⟩
    · intro hok
      rw [hfailed] at hok
      cases hok

/-- A list sent to several next hops is reported truly, exactly where it splits cleanly. -/
theorem handleLocalMcast_honest :
    n.HonestMcast now dests payload txLen out ↔ n.CleanSplit now dests payload txLen out := by
  cases hlocked : n.core.authLocked with
  | true => exact iff_of_true (.of_locked hlocked) (Or.inl hlocked)
  | false =>
    by_cases hnone : n.listeners now dests = []
    · exact iff_of_true (.of_unroutable hlocked hnone) (.of_unroutable hnone)
    rcases exists_unfit payload txLen (n.listenerGroups now dests) with
      hfits | ⟨pre, g, post, hgroups, hunfit, hpre⟩
    · exact handleLocalMcast_of_fits hlocked hnone hfits
    · exact handleLocalMcast_of_unfit hlocked hnone hgroups hunfit hpre

/-- A local send reports truly what became of it: one to a single destination unless it is a
broadcast too long for the buffer, one to a list exactly where the list splits cleanly. -/
theorem local_sends_honest (n : NodeRouter e a t) (now : Duration) (payload : Bytes)
    (txLen : Nat) :
    (∀ dest, n.HonestSend now dest payload txLen ↔ n.CleanSend dest payload txLen) ∧
    ∀ dests out, n.HonestMcast now dests payload txLen out ↔
      n.CleanSplit now dests payload txLen out :=
  ⟨fun _ => handleLocal_honest, fun _ _ => handleLocalMcast_honest⟩

end Send

/-- A node without authentication that has heard nobody: every listener is its own hop. -/
def freshNode : NodeRouter BatmanEngine.smallCapacities SmallMesh.capacities ⟨4, 4⟩ :=
  NodeRouter.new _ _ _ (Mac.low 1)

/-- The frame of a first listener leaves before the group of another, listed twice, is found
too long. A broadcast too long spends its number. And a node that lists itself before
seventeen others counts two listeners where one is left out. -/
theorem freshNode_dishonest :
    ¬ freshNode.HonestMcast 0 [Mac.low 2, Mac.low 3, Mac.low 3] [0xaa] 12 .unbounded ∧
    ¬ freshNode.HonestSend 0 Mac.broadcast [0xaa] 12 ∧
    ¬ freshNode.HonestMcast 0 ((List.range 18).map fun n => Mac.low (BitVec.ofNat 8 (n + 1)))
      [0xaa] 200 .unbounded := by
  refine ⟨?_, ?_, ?_⟩
  · intro h
    have hout := (h.failed .bufferTooSmall (by decide +kernel)).1
    have hempty := congrArg FrameSink.frames hout
    revert hempty
    decide +kernel
  · intro h
    have hcore := (h .bufferTooSmall (by decide +kernel)).core
    have hseqno := congrArg (fun core => core.batman.broadcastSequenceNumber) hcore
    revert hseqno
    decide +kernel
  · intro h
    obtain ⟨_, _, _, _, _, _, hcount⟩ := h.sent (by decide +kernel)
    revert hcount
    unfold CountsUp
    decide +kernel

end NodeRouter

end Wayfinder
