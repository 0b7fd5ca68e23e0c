import Wayfinder.Lib.Grouping
import Wayfinder.EngineRun

/-!
# Splitting a multi-destination multicast

`handle_mcast` resolves every destination to its next hop and emits one frame for
each distinct hop. The frames are the groups of the destination list by next hop,
so together they carry every routable destination occurrence exactly once.
-/

namespace Wayfinder

set_option autoImplicit false

open Table Grouping

def FrameSink.AcceptsInTurn (s : FrameSink) (fs : List LinkFrameData) : Prop :=
  ∀ pre f post, fs = pre ++ f :: post → s.accepts (s.frames ++ pre) f = true

theorem FrameSink.AcceptsInTurn.push {s : FrameSink} {f : LinkFrameData}
    {fs : List LinkFrameData} (h : s.AcceptsInTurn (f :: fs)) :
    s.push f = ({ s with frames := s.frames ++ [f] }, true) ∧
      ({ s with frames := s.frames ++ [f] } : FrameSink).AcceptsInTurn fs := by
  have hhead : s.accepts s.frames f = true := by
    simpa using h [] f fs rfl
  refine ⟨by simp [FrameSink.push, hhead], ?_⟩
  intro pre g post hfs
  have hnext := h (f :: pre) g post (by rw [hfs, List.cons_append])
  simpa using hnext

namespace BatmanEngine

variable {c : Capacities}

def routedPair (e : BatmanEngine c) (now : Duration) (dest : Mac) : Option (Mac × Mac) :=
  if dest = e.selfIdent then none else (e.nextHop now dest).map fun next => (next, dest)

/-- The destinations of a list that leave this node through `hop`. -/
def mcastGroup (e : BatmanEngine c) (now : Duration) (dests : List Mac) (hop : Mac) : List Mac :=
  dests.filter fun d => d ≠ e.selfIdent ∧ e.nextHop now d = some hop

def mcastFrame (e : BatmanEngine c) (now : Duration) (view : McastPacketView) (hop : Mac) :
    LinkFrameData :=
  let group := e.mcastGroup now view.dests hop
  let header : BatmanMcastPacket :=
    ⟨BatmanPacketType.mcast.asU8, batmanVersion, view.header.ttl - 1,
      BitVec.ofNat 8 group.length, McastAuthForm.tag.asU8⟩
  ⟨hop, ethPBatman, header.asBytes ++ macsAsBytes group ++ view.inner⟩

/-- The frames offered to the sink: one for each next hop, in the order first met. -/
def mcastFrames (e : BatmanEngine c) (now : Duration) (view : McastPacketView) :
    List LinkFrameData :=
  (freshKeys Prod.fst (view.dests.filterMap (e.routedPair now)) []).map (e.mcastFrame now view)

section Route
variable (e : BatmanEngine c) (now : Duration)

theorem routeDests_snd (dests : List Mac) :
    (e.routeDests now dests).2 = dests.filterMap (e.routedPair now) := by
  induction dests generalizing e with
  | nil => rfl
  | cons d ds ih =>
    rw [routeDests, List.filterMap_cons, routedPair]
    split
    · exact ih e
    · cases hn : e.nextHop now d with
      | none => exact ih _
      | some next => exact congrArg _ (ih e)

/-- The counter rises by one for each destination without a route, and stops at
its ceiling; nothing else of the engine moves. -/
theorem routeDests_fst (dests : List Mac) :
    ∃ count : U32, (e.routeDests now dests).1 = { e with mcastUnroutableDests := count } ∧
      count.toNat = min (e.mcastUnroutableDests.toNat +
        dests.countP fun d => d ≠ e.selfIdent ∧ e.nextHop now d = none) (2 ^ 32 - 1) := by
  induction dests generalizing e with
  | nil =>
    have hlt := e.mcastUnroutableDests.isLt
    exact ⟨_, rfl, by simp only [List.countP_nil]; omega⟩
  | cons d ds ih =>
    rw [routeDests, List.countP_cons]
    split
    · rename_i hself
      obtain ⟨count, heq, hcount⟩ := ih e
      exact ⟨count, heq, by simpa [hself] using hcount⟩
    · rename_i hself
      cases hn : e.nextHop now d with
      | none =>
        obtain ⟨count, heq, hcount⟩ := ih
          { e with mcastUnroutableDests := saturatingAdd e.mcastUnroutableDests 1 }
        refine ⟨count, heq, ?_⟩
        have hone : (1 : U32).toNat = 1 := rfl
        rw [saturatingAdd_toNat, hone] at hcount
        rw [hcount]
        -- The counter is no part of the selection, so `nextHop` reads the same in both states.
        change min (_ + List.countP (fun d => decide (d ≠ e.selfIdent ∧ e.nextHop now d = none)) ds)
          _ = _
        simp only [hself, ne_eq, not_false_eq_true, and_self, decide_true, if_true]
        omega
      | some next =>
        obtain ⟨count, heq, hcount⟩ := ih e
        exact ⟨count, heq, by simpa [hn] using hcount⟩

theorem group_routed (dests : List Mac) (hop : Mac) :
    ((dests.filterMap (e.routedPair now)).filter fun p => p.1 = hop).map Prod.snd =
      e.mcastGroup now dests hop := by
  induction dests with
  | nil => rfl
  | cons d ds ih =>
    rw [List.filterMap_cons, mcastGroup, List.filter_cons]
    rw [mcastGroup] at ih
    by_cases hself : d = e.selfIdent
    · simp [routedPair, hself, ih]
    · cases hn : e.nextHop now d with
      | none => simp [routedPair, hself, hn, ih]
      | some next =>
        by_cases hop' : next = hop
        · simp [routedPair, hself, hn, ih, hop']
        · simp [routedPair, hself, hn, ih, hop']

theorem routed_subset (dests : List Mac) {hop d : Mac}
    (h : (hop, d) ∈ dests.filterMap (e.routedPair now)) : d ∈ e.mcastGroup now dests hop := by
  rw [← group_routed]
  exact List.mem_map.mpr ⟨(hop, d), List.mem_filter.mpr ⟨h, by simp⟩, rfl⟩

theorem groups_perm (dests : List Mac) :
    ((freshKeys Prod.fst (dests.filterMap (e.routedPair now)) []).flatMap
      (e.mcastGroup now dests)).Perm
      (dests.filter fun d => d ≠ e.selfIdent ∧ (e.nextHop now d).isSome) := by
  have hroutes : ((freshKeys Prod.fst (dests.filterMap (e.routedPair now)) []).flatMap
      (group Prod.fst (dests.filterMap (e.routedPair now)))).Perm
        (dests.filterMap (e.routedPair now)) := flatMap_group_perm _
  have hperm := hroutes.map Prod.snd
  rw [List.map_flatMap] at hperm
  have hgroup : (fun hop => (group Prod.fst (dests.filterMap (e.routedPair now)) hop).map
      Prod.snd) = e.mcastGroup now dests := funext fun hop => e.group_routed now dests hop
  rw [hgroup] at hperm
  refine hperm.trans (List.Perm.of_eq ?_)
  rw [List.map_filterMap]
  rw [← List.filterMap_eq_filter]
  apply List.filterMap_congr
  intro d _
  by_cases hself : d = e.selfIdent
  · simp [routedPair, Option.guard, hself]
  · cases hn : e.nextHop now d <;> simp [routedPair, Option.guard, hself, hn]

end Route

section Emit
variable {e : BatmanEngine c} {now : Duration} {view : McastPacketView} {scratchLen : Nat}

/-- The scratch buffer holds the frame of every group. -/
def ScratchHolds (e : BatmanEngine c) (now : Duration) (view : McastPacketView)
    (scratchLen : Nat) : Prop :=
  ∀ hop, e.mcastGroup now view.dests hop ≠ [] →
    mcastHeaderLen + (e.mcastGroup now view.dests hop).length * 6 + view.inner.length ≤ scratchLen

theorem writeMcast_group (hlimit : view.dests.length ≤ maxMcastDests)
    (hscratch : e.ScratchHolds now view scratchLen) {hop : Mac}
    (hne : e.mcastGroup now view.dests hop ≠ []) :
    writeMcast (view.header.ttl - 1) .tag (e.mcastGroup now view.dests hop) view.inner scratchLen =
      some (e.mcastFrame now view hop).payload := by
  have hlen : (e.mcastGroup now view.dests hop).length ≤ view.dests.length :=
    List.length_filter_le _ _
  have hfit := hscratch hop hne
  have hempty : (e.mcastGroup now view.dests hop).isEmpty = false := by
    simpa [List.isEmpty_eq_false_iff] using hne
  unfold writeMcast
  rw [if_neg, if_neg (by omega)]
  · rfl
  · simp only [hempty, Bool.false_eq_true, false_or, maxMcastDests] at hlimit ⊢
    omega

theorem emitGroups_eq (hlimit : view.dests.length ≤ maxMcastDests)
    (hscratch : e.ScratchHolds now view scratchLen) {rest : List (Mac × Mac)} {done : List Mac}
    (hrest : rest ⊆ view.dests.filterMap (e.routedPair now)) (e' : BatmanEngine c)
    {out : FrameSink}
    (hsink : out.AcceptsInTurn ((freshKeys Prod.fst rest done).map (e.mcastFrame now view))) :
    emitGroups view.header.ttl view.inner scratchLen (view.dests.filterMap (e.routedPair now))
        rest done e' out =
      (e', { out with frames :=
        out.frames ++ (freshKeys Prod.fst rest done).map (e.mcastFrame now view) }) := by
  induction rest generalizing done out with
  | nil => simp [emitGroups, freshKeys]
  | cons p rest ih =>
    obtain ⟨next, d⟩ := p
    have hsub : rest ⊆ view.dests.filterMap (e.routedPair now) :=
      fun x hx => hrest (List.mem_cons_of_mem _ hx)
    by_cases hdone : next ∈ done
    · rw [freshKeys, if_pos hdone] at hsink ⊢
      rw [emitGroups, if_pos hdone]
      exact ih hsub hsink
    · have hne : e.mcastGroup now view.dests next ≠ [] :=
        List.ne_nil_of_mem (e.routed_subset now view.dests (hrest (List.mem_cons_self ..)))
      rw [freshKeys, if_neg hdone, List.map_cons] at hsink ⊢
      obtain ⟨hpush, hsink'⟩ := hsink.push
      have hframe : (⟨next, ethPBatman, (e.mcastFrame now view next).payload⟩ : LinkFrameData) =
          e.mcastFrame now view next := rfl
      simp only [emitGroups, if_neg hdone, e.group_routed now,
        writeMcast_group hlimit hscratch hne, hframe, hpush, if_true]
      rw [ih hsub hsink']
      simp

end Emit

theorem handleMcast_expired (e : BatmanEngine c) (now : Duration) (frame : LinkFrame)
    (out : FrameSink) (scratchLen : Nat) (view : McastPacketView)
    (hparse : McastPacketView.parse frame.payload = some view)
    (hlimit : view.dests.length ≤ maxMcastDests)
    (hkept : view.form = .signature ∨ view.header.ttl.toNat ≤ 1) :
    (e.handleMcast now frame out scratchLen).1 = e ∧
      (e.handleMcast now frame out scratchLen).2.2 = out := by
  simp only [handleMcast, hparse, if_neg (Nat.not_lt.mpr hlimit)]
  split
  · exact ⟨rfl, rfl⟩
  · rename_i hform
    have httl : ¬ 1 < view.header.ttl.toNat := by
      rcases hkept with hsig | hle
      · exact absurd hsig hform
      · omega
    rw [if_neg httl]
    exact ⟨rfl, rfl⟩

/-- Multi-destination multicast splits losslessly when it may be forwarded, and is
only ever delivered when it may not. -/
theorem handleMcast_splits (e : BatmanEngine c) (now : Duration) (frame : LinkFrame)
    (out : FrameSink) (scratchLen : Nat) (view : McastPacketView)
    (hparse : McastPacketView.parse frame.payload = some view)
    (hlimit : view.dests.length ≤ maxMcastDests)
    (hscratch : e.ScratchHolds now view scratchLen)
    (hsink : out.AcceptsInTurn (e.mcastFrames now view)) :
    (e.handleMcast now frame out scratchLen).2.1 =
        (if e.selfIdent ∈ view.dests then .deliverLocal else .consumed) ∧
      (view.form = .tag → 1 < view.header.ttl.toNat →
        ∃ fs : List LinkFrameData,
          (e.handleMcast now frame out scratchLen).2.2.frames = out.frames ++ fs ∧
          (fs.map LinkFrameData.dst).Nodup ∧
          (∀ f ∈ fs, f.protocol = ethPBatman ∧ ∃ v,
            McastPacketView.parse f.payload = some v ∧ v.dests ≠ [] ∧
            v.dests = e.mcastGroup now view.dests f.dst ∧
            v.header.ttl = view.header.ttl - 1 ∧ v.form = .tag ∧ v.inner = view.inner) ∧
          (fs.flatMap fun f => e.mcastGroup now view.dests f.dst).Perm
            (view.dests.filter fun d => d ≠ e.selfIdent ∧ (e.nextHop now d).isSome) ∧
          (e.handleMcast now frame out scratchLen).1.mcastUnroutableDests.toNat =
            min (e.mcastUnroutableDests.toNat + view.dests.countP fun d =>
              d ≠ e.selfIdent ∧ e.nextHop now d = none) (2 ^ 32 - 1)) ∧
      (view.form = .signature ∨ view.header.ttl.toNat ≤ 1 →
        (e.handleMcast now frame out scratchLen).1 = e ∧
          (e.handleMcast now frame out scratchLen).2.2 = out) := by
  have hsize : ¬ maxMcastDests < view.dests.length := Nat.not_lt.mpr hlimit
  refine ⟨?_, ?_, ?_⟩
  · simp only [handleMcast, hparse, if_neg hsize]
    split
    · rfl
    · split <;> rfl
  · intro hform httl
    have hsig : view.form ≠ .signature := by simp [hform]
    obtain ⟨count, hcount, htotal⟩ := e.routeDests_fst now view.dests
    have hemit := emitGroups_eq hlimit hscratch (List.Subset.refl _)
      (e.routeDests now view.dests).1 hsink
    simp only [handleMcast, hparse, if_neg hsize, if_neg hsig, if_pos httl,
      e.routeDests_snd now view.dests, hemit]
    refine ⟨e.mcastFrames now view, rfl, ?_, ?_, ?_, ?_⟩
    · rw [mcastFrames, List.map_map]
      exact (List.map_id _).symm ▸ freshKeys_nodup _ _
    · intro f hf
      obtain ⟨hop, hhop, rfl⟩ := List.mem_map.mp hf
      refine ⟨rfl, ?_⟩
      obtain ⟨⟨hop', d⟩, hmem, rfl⟩ := List.mem_map.mp (mem_freshKeys.mp hhop).1
      have hne : e.mcastGroup now view.dests hop' ≠ [] :=
        List.ne_nil_of_mem (e.routed_subset now view.dests hmem)
      have hread := parse_writeMcast (writeMcast_group hlimit hscratch hne)
      exact ⟨_, hread, hne, rfl, rfl, rfl, rfl⟩
    · rw [mcastFrames, List.flatMap_map]
      exact e.groups_perm now view.dests
    · rw [hcount]
      exact htotal
  · exact e.handleMcast_expired now frame out scratchLen view hparse hlimit

/-! ### A node that knows one route -/

def routedNode : BatmanEngine smallCapacities :=
  ((new smallCapacities (Mac.low 1)).handleOgm 0 (ogmFrom (Mac.low 2) (Mac.low 4) 1 200) none 64).1

def mcastTo (ttl : U8) : LinkFrame where
  dst := Mac.low 1
  src := Mac.low 3
  protocol := ethPBatman
  payload := [0x04, batmanVersion, ttl, 3, 1] ++
    macsAsBytes [Mac.low 4, Mac.low 1, Mac.low 5] ++ [0xaa]

def mcastView (ttl : U8) : McastPacketView where
  header := ⟨0x04, batmanVersion, ttl, 3, 1⟩
  form := .tag
  dests := [Mac.low 4, Mac.low 1, Mac.low 5]
  inner := [0xaa]

theorem routedNode_scratchHolds (ttl : U8) :
    routedNode.ScratchHolds 0 (mcastView ttl) 64 := by
  intro hop _
  have hlen : (routedNode.mcastGroup 0 (mcastView ttl).dests hop).length ≤ 3 :=
    List.length_filter_le _ _
  have hinner : (mcastView ttl).inner.length = 1 := rfl
  simp only [mcastHeaderLen, hinner]
  omega

theorem unbounded_acceptsInTurn (fs : List LinkFrameData) :
    FrameSink.unbounded.AcceptsInTurn fs := fun _ _ _ _ => rfl

theorem handleMcast_splits_routedNode :
    (routedNode.handleMcast 0 (mcastTo 5) .unbounded 64).2.1 = .deliverLocal ∧
      ∃ fs : List LinkFrameData,
        (routedNode.handleMcast 0 (mcastTo 5) .unbounded 64).2.2.frames = fs ∧
        (fs.flatMap fun f => routedNode.mcastGroup 0 (mcastView 5).dests f.dst).Perm
          [Mac.low 4] := by
  have h := handleMcast_splits routedNode 0 (mcastTo 5) .unbounded 64 (mcastView 5) (by decide)
    (by decide) (routedNode_scratchHolds 5) (unbounded_acceptsInTurn _)
  obtain ⟨fs, hfs, -, -, hperm, -⟩ := h.2.1 rfl (by decide)
  refine ⟨h.1, fs, hfs, hperm.trans (List.Perm.of_eq ?_)⟩
  decide

/-- With its TTL spent the packet is neither forwarded nor counted, although
destination 4 is routable. -/
theorem handleMcast_expired_uncounted :
    McastPacketView.parse (mcastTo 1).payload = some (mcastView 1) ∧
      routedNode.ScratchHolds 0 (mcastView 1) 64 ∧
      FrameSink.unbounded.AcceptsInTurn (routedNode.mcastFrames 0 (mcastView 1)) ∧
      routedNode.nextHop 0 (Mac.low 4) = some (Mac.low 2) ∧
      Mac.low 4 ∈ (mcastView 1).dests ∧ Mac.low 4 ≠ routedNode.selfIdent ∧
      (routedNode.handleMcast 0 (mcastTo 1) .unbounded 64).2.2.frames = [] ∧
      (routedNode.handleMcast 0 (mcastTo 1) .unbounded 64).1 = routedNode := by
  refine ⟨by decide, routedNode_scratchHolds 1, unbounded_acceptsInTurn _, by decide, by decide,
    by decide, by decide, ?_⟩
  exact (handleMcast_expired routedNode 0 (mcastTo 1) .unbounded 64 (mcastView 1) (by decide)
    (by decide) (by decide)).1

end BatmanEngine

end Wayfinder
