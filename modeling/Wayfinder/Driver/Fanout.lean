import Wayfinder.Auth.Pairwise
import Wayfinder.Driver.Outgoing

/-!
# Collapsing multicast onto a shared medium

`flush_mcast_groups` sends the destination groups of one multicast. Groups that
end on one medium may leave in a single merged frame; every merge may be
abandoned, by the gate, the threshold, the buffer, the link's cap or the sink, and
what did not merge leaves as its own directed frame.
-/

namespace Wayfinder

set_option autoImplicit false

def linkFrameHeaderLen : Nat := 2 * 6 + 2

def mergedFrameFits (payloadLen : Nat) (authenticated : Bool) (maxFrameLen : Nat) : Bool :=
  linkFrameHeaderLen + payloadLen + (if authenticated then fanoutTrailerLen else 0) ≤ maxFrameLen

abbrev McastGroup := Mac × Bounded Mac maxMcastDests

namespace McastGroup

def next (g : McastGroup) : Mac := g.1

def dests (g : McastGroup) : List Mac := g.2.toList

def terminal (g : McastGroup) : Bool := g.dests = [g.next]

end McastGroup

abbrev McastGroups := Bounded McastGroup maxMcastDests

namespace McastGroups

def destsAt (groups : McastGroups) (i : Nat) : List Mac :=
  (groups.toList[i]?.map McastGroup.dests).getD []

theorem destsAt_eq {groups : McastGroups} {i : Nat} {g : McastGroup}
    (h : groups.toList[i]? = some g) : groups.destsAt i = g.dests := by
  rw [destsAt, h]
  rfl

/-- The groups an interface carries that have not merged yet and end there. -/
def peers (groups : McastGroups) (ifaceOf : List (Option Nat)) (merged : List Nat) (idx : Nat) :
    Bounded Nat maxMcastDests :=
  (Bounded.empty.pushEach ((List.range groups.toList.length).filter fun j =>
    ifaceOf[j]? = some (some idx) ∧ groups.toList[j]?.any McastGroup.terminal ∧ j ∉ merged)).1

end McastGroups

section Flush

variable {R : Type} [RouterOps R]

def resolveGroups (now : Duration) : R → List McastGroup → R × List (Option Nat)
  | router, [] => (router, [])
  | router, g :: rest =>
    let found := RouterOps.getEgressInterface now g.next router
    let idx := match found.2 with
      | some (.interface i) => some i
      | _ => none
    let others := resolveGroups now found.1 rest
    (others.1, idx :: others.2)

/-- The merged frame the turn of group `i` would send and the groups it stands for;
`none` where the loop continues with the next group. -/
def planMerge (router : R) (groups : McastGroups) (ifaceOf : List (Option Nat)) (ttl : U8)
    (inner : Bytes) (fanOut : List (Option FanOut)) (txLen : Nat) (merged : List Nat) (i : Nat) :
    Option (OutgoingFrame × Bounded Nat maxMcastDests) := do
  guard (i ∉ merged)
  let idx ← (ifaceOf[i]?).join
  let fan ← (fanOut[idx]?).join
  guard (RouterOps.linkMayTx router idx (some .mcast))
  let peers := groups.peers ifaceOf merged idx
  guard (fan.threshold.toNat ≤ peers.toList.length)
  let union : Bounded Mac maxMcastDests × Bool :=
    Bounded.empty.pushEach (peers.toList.flatMap groups.destsAt)
  guard union.2
  let payload ← writeMcast ttl .signature union.1.toList inner txLen
  guard (mergedFrameFits payload.length (RouterOps.authenticated router) fan.maxFrameLen)
  some (⟨Mac.broadcast, ethPBatman, payload, .iface idx⟩, peers)

/-- One turn of the collapsing loop: the groups are marked merged only if the sink
took the frame. -/
def collapseAt (router : R) (groups : McastGroups) (ifaceOf : List (Option Nat)) (ttl : U8)
    (inner : Bytes) (fanOut : List (Option FanOut)) (txLen : Nat)
    (st : Bounded Nat maxMcastDests × MeshSink) (i : Nat) :
    Bounded Nat maxMcastDests × MeshSink :=
  match planMerge router groups ifaceOf ttl inner fanOut txLen st.1.toList i with
  | none => st
  | some (frame, peers) =>
    let emitted := st.2.emit frame
    (if emitted.2 then (st.1.pushEach peers.toList).1 else st.1, emitted.1)

def sendDirected (ttl : U8) (inner : Bytes) (txLen : Nat) (merged : List Nat)
    (st : R × MeshSink) (slot : McastGroup × Nat) : R × MeshSink :=
  let dests := slot.1.dests
  if slot.2 ∈ merged then st
  else match writeMcast ttl .tag dests inner txLen with
    | none => (RouterOps.recordMcastGroupDrop dests.length st.1, st.2)
    | some payload =>
      let emitted := st.2.emit ⟨slot.1.next, ethPBatman, payload, .auto⟩
      (if emitted.2 then st.1 else RouterOps.recordMcastGroupDrop dests.length st.1, emitted.1)

def flushMcastGroups (now : Duration) (router : R) (groups : McastGroups) (ttl : U8)
    (inner : Bytes) (fanOut : List (Option FanOut)) (txLen : Nat) (sink : MeshSink) :
    R × MeshSink :=
  let resolved := resolveGroups now router groups.toList
  let collapsed := (List.range groups.toList.length).foldl
    (collapseAt resolved.1 groups resolved.2 ttl inner fanOut txLen) (Bounded.empty, sink)
  groups.toList.zipIdx.foldl (sendDirected ttl inner txLen collapsed.1.toList)
    (resolved.1, collapsed.2)

end Flush

/-- A frame the sink took and the groups it stands for. -/
structure Share where
  frame : OutgoingFrame
  members : List Nat

namespace Share

def Carries (groups : McastGroups) (ttl : U8) (inner : Bytes) (s : Share) : Prop :=
  ∃ view, McastPacketView.parse s.frame.payload = some view ∧ view.header.ttl = ttl ∧
    view.inner = inner ∧ view.dests = s.members.flatMap groups.destsAt

def Merged (groups : McastGroups) (ifaceOf : List (Option Nat)) (s : Share) : Prop :=
  s.frame.dst = Mac.broadcast ∧ ∃ idx, s.frame.egress = .iface idx ∧
    ∀ i ∈ s.members, ifaceOf[i]? = some (some idx) ∧
      ∃ g, groups.toList[i]? = some g ∧ g.dests = [g.next]

def Directed (groups : McastGroups) (s : Share) : Prop :=
  ∃ i g, s.members = [i] ∧ groups.toList[i]? = some g ∧ s.frame.dst = g.next ∧
    s.frame.egress = .auto

end Share

section Collapse

variable {R : Type} [RouterOps R] {router : R} {groups : McastGroups}
  {ifaceOf : List (Option Nat)} {ttl : U8} {inner : Bytes} {fanOut : List (Option FanOut)}
  {txLen : Nat}

theorem McastGroups.toList_peers (merged : List Nat) (idx : Nat) :
    (groups.peers ifaceOf merged idx).toList =
      (List.range groups.toList.length).filter fun j =>
        ifaceOf[j]? = some (some idx) ∧ groups.toList[j]?.any McastGroup.terminal ∧
          j ∉ merged := by
  unfold McastGroups.peers
  rw [Bounded.toList_pushEach_of_le, Bounded.empty_toList, List.nil_append]
  have hfilter := List.length_filter_le (fun j =>
    decide (ifaceOf[j]? = some (some idx) ∧ groups.toList[j]?.any McastGroup.terminal ∧
      j ∉ merged)) (List.range groups.toList.length)
  rw [List.length_range] at hfilter
  rw [Bounded.empty_toList, List.length_nil, Nat.zero_add]
  exact hfilter.trans groups.length_le

theorem McastGroups.mem_peers {merged : List Nat} {idx j : Nat} :
    j ∈ (groups.peers ifaceOf merged idx).toList ↔
      ifaceOf[j]? = some (some idx) ∧
        (∃ g, groups.toList[j]? = some g ∧ g.dests = [g.next]) ∧ j ∉ merged := by
  rw [toList_peers, List.mem_filter, List.mem_range, decide_eq_true_eq]
  constructor
  · rintro ⟨_, hiface, hany, hnot⟩
    obtain ⟨g, hg, hterminal⟩ := Option.any_eq_true _ _ |>.mp hany
    exact ⟨hiface, ⟨g, hg, by simpa [McastGroup.terminal] using hterminal⟩, hnot⟩
  · rintro ⟨hiface, ⟨g, hg, hterminal⟩, hnot⟩
    refine ⟨(List.getElem?_eq_some_iff.mp hg).1, hiface, ?_, hnot⟩
    rw [hg]
    simpa [McastGroup.terminal] using hterminal

theorem McastGroups.nodup_peers (merged : List Nat) (idx : Nat) :
    (groups.peers ifaceOf merged idx).toList.Nodup := by
  rw [toList_peers]
  exact List.nodup_range.filter _

/-- A planned merge names the destinations of its groups, each a next hop on the
frame's one interface and none of them merged before. -/
theorem planMerge_spec {merged : List Nat} {i : Nat} {frame : OutgoingFrame}
    {peers : Bounded Nat maxMcastDests}
    (h : planMerge router groups ifaceOf ttl inner fanOut txLen merged i = some (frame, peers)) :
    Share.Carries groups ttl inner ⟨frame, peers.toList⟩ ∧
      Share.Merged groups ifaceOf ⟨frame, peers.toList⟩ ∧
      peers.toList.Nodup ∧ ∀ j ∈ peers.toList, j ∉ merged := by
  unfold planMerge at h
  simp only [Option.bind_eq_bind, Option.bind_eq_some_iff, Option.guard_eq_some'] at h
  obtain ⟨_, _, idx, _, fan, _, _, _, _, _, _, hfits, payload, hpayload, _, _, h⟩ := h
  obtain ⟨rfl, rfl⟩ := Prod.mk.inj (Option.some.inj h)
  refine ⟨?_, ?_, groups.nodup_peers _ _, fun j hj => (McastGroups.mem_peers.mp hj).2.2⟩
  · refine ⟨_, parse_writeMcast hpayload, rfl, rfl, ?_⟩
    rw [Bounded.toList_pushEach hfits]
    rfl
  · refine ⟨rfl, idx, rfl, fun j hj => ?_⟩
    obtain ⟨hiface, hterminal, _⟩ := McastGroups.mem_peers.mp hj
    exact ⟨hiface, hterminal⟩

/-- What the turns taken so far leave behind: the merged groups are those of the
accepted merges, each once. -/
structure Collapsed (groups : McastGroups) (ifaceOf : List (Option Nat)) (ttl : U8)
    (inner : Bytes) (before : List OutgoingFrame)
    (st : Bounded Nat maxMcastDests × MeshSink) (merges : List Share) : Prop where
  merged_eq : st.1.toList = merges.flatMap Share.members
  nodup : st.1.toList.Nodup
  lt : ∀ i ∈ st.1.toList, i < groups.toList.length
  sent_eq : st.2.sent = before ++ merges.map Share.frame
  carries : ∀ s ∈ merges, s.Carries groups ttl inner
  merged : ∀ s ∈ merges, s.Merged groups ifaceOf

theorem Collapsed.step (router : R) (fanOut : List (Option FanOut)) (txLen : Nat)
    {before : List OutgoingFrame}
    {st : Bounded Nat maxMcastDests × MeshSink} {merges : List Share}
    (h : Collapsed groups ifaceOf ttl inner before st merges) (i : Nat) :
    ∃ more, Collapsed groups ifaceOf ttl inner before
      (collapseAt router groups ifaceOf ttl inner fanOut txLen st i) (merges ++ more) := by
  unfold collapseAt
  cases hplan : planMerge router groups ifaceOf ttl inner fanOut txLen st.1.toList i with
  | none =>
    refine ⟨[], ?_⟩
    rw [List.append_nil]
    exact h
  | some planned =>
    obtain ⟨frame, peers⟩ := planned
    obtain ⟨hcarries, hmerged, hpeers, hfresh⟩ := planMerge_spec hplan
    cases hemit : (st.2.emit frame).2 with
    | false =>
      refine ⟨[], ?_⟩
      dsimp only
      rw [List.append_nil, hemit, if_neg Bool.false_ne_true]
      exact { h with sent_eq := (MeshSink.sent_emit_of_refused hemit).trans h.sent_eq }
    | true =>
      have hnodup : (st.1.toList ++ peers.toList).Nodup := by
        apply List.nodup_append.mpr
        refine ⟨h.nodup, hpeers, ?_⟩
        intro a ha b hb heq
        exact hfresh b hb (heq ▸ ha)
      have hlt : ∀ j ∈ st.1.toList ++ peers.toList, j < groups.toList.length := by
        intro j hj
        rcases List.mem_append.mp hj with hold | hnew
        · exact h.lt j hold
        · obtain ⟨_, _, _, hgroups⟩ := hmerged
          obtain ⟨_, g, hg, _⟩ := hgroups j hnew
          exact (List.getElem?_eq_some_iff.mp hg).1
      -- The marks are distinct indices of at most `maxMcastDests` groups, so none is refused.
      have hroom : st.1.toList.length + peers.toList.length ≤ maxMcastDests := by
        have hsub : st.1.toList ++ peers.toList ⊆ List.range groups.toList.length :=
          fun j hj => List.mem_range.mpr (hlt j hj)
        have hcount := (List.subperm_of_subset hnodup hsub).length_le
        rw [List.length_append, List.length_range] at hcount
        exact hcount.trans groups.length_le
      have hmarks : (st.1.pushEach peers.toList).1.toList = st.1.toList ++ peers.toList :=
        Bounded.toList_pushEach_of_le hroom
      refine ⟨[⟨frame, peers.toList⟩], ?_⟩
      dsimp only
      rw [if_pos hemit]
      refine ⟨?_, ?_, ?_, ?_, ?_, ?_⟩
      · rw [hmarks, h.merged_eq, List.flatMap_append, List.flatMap_singleton]
      · rw [hmarks]
        exact hnodup
      · rw [hmarks]
        exact hlt
      · rw [MeshSink.sent_emit_of_accepted hemit, h.sent_eq, List.map_append, List.append_assoc]
        rfl
      · intro s hs
        rcases List.mem_append.mp hs with hold | hnew
        · exact h.carries s hold
        · exact (List.mem_singleton.mp hnew) ▸ hcarries
      · intro s hs
        rcases List.mem_append.mp hs with hold | hnew
        · exact h.merged s hold
        · exact (List.mem_singleton.mp hnew) ▸ hmerged

theorem Collapsed.run (router : R) (fanOut : List (Option FanOut)) (txLen : Nat)
    {before : List OutgoingFrame}
    {st : Bounded Nat maxMcastDests × MeshSink} {merges : List Share}
    (h : Collapsed groups ifaceOf ttl inner before st merges) (turns : List Nat) :
    ∃ all, Collapsed groups ifaceOf ttl inner before
      (turns.foldl (collapseAt router groups ifaceOf ttl inner fanOut txLen) st) all := by
  induction turns generalizing st merges with
  | nil => exact ⟨merges, h⟩
  | cons i rest ih =>
    obtain ⟨more, hnext⟩ := h.step router fanOut txLen i
    exact ih hnext

theorem Collapsed.init (groups : McastGroups) (ifaceOf : List (Option Nat)) (ttl : U8)
    (inner : Bytes) (sink : MeshSink) :
    Collapsed groups ifaceOf ttl inner sink.sent (Bounded.empty, sink) [] where
  merged_eq := rfl
  nodup := List.nodup_nil
  lt := fun _ hi => absurd hi List.not_mem_nil
  sent_eq := (List.append_nil _).symm
  carries := fun _ hs => absurd hs List.not_mem_nil
  merged := fun _ hs => absurd hs List.not_mem_nil

end Collapse

theorem append_filter_perm_range {merged : List Nat} {n : Nat} (hnodup : merged.Nodup)
    (hlt : ∀ i ∈ merged, i < n) :
    (merged ++ (List.range n).filter fun i => i ∉ merged).Perm (List.range n) := by
  have hall : (merged ++ (List.range n).filter fun i => i ∉ merged).Nodup := by
    apply List.nodup_append.mpr
    refine ⟨hnodup, List.nodup_range.filter _, ?_⟩
    intro i hi j hj heq
    exact of_decide_eq_true (List.mem_filter.mp hj).2 (heq ▸ hi)
  apply (List.perm_ext_iff_of_nodup hall List.nodup_range).mpr
  intro i
  rw [List.mem_append, List.mem_filter, List.mem_range, decide_eq_true_eq]
  constructor
  · rintro (hi | hi)
    · exact hlt i hi
    · exact hi.1
  · intro hi
    by_cases hmem : i ∈ merged
    · exact Or.inl hmem
    · exact Or.inr ⟨hi, hmem⟩

section Directed

variable {R : Type} [RouterOps R] {groups : McastGroups}

def recordDrops (groups : McastGroups) (dropped : List Nat) (router : R) : R :=
  dropped.foldl (fun r i => RouterOps.recordMcastGroupDrop (groups.destsAt i).length r) router

theorem sendDirected_run (ttl : U8) (inner : Bytes) (txLen : Nat) (merged : List Nat) (slots : List (McastGroup × Nat))
    (hslots : ∀ slot ∈ slots, groups.toList[slot.2]? = some slot.1) (st : R × MeshSink) :
    ∃ (directed : List Share) (dropped : List Nat),
      (slots.foldl (sendDirected ttl inner txLen merged) st).2.sent =
        st.2.sent ++ directed.map Share.frame ∧
      (slots.foldl (sendDirected ttl inner txLen merged) st).1 =
        recordDrops groups dropped st.1 ∧
      (directed.flatMap Share.members ++ dropped).Perm
        ((slots.map Prod.snd).filter fun i => i ∉ merged) ∧
      (∀ s ∈ directed, s.Carries groups ttl inner) ∧ ∀ s ∈ directed, s.Directed groups := by
  induction slots generalizing st with
  | nil =>
    refine ⟨[], [], (List.append_nil _).symm, rfl, List.Perm.nil, ?_, ?_⟩
    · intro s hs
      exact absurd hs List.not_mem_nil
    · intro s hs
      exact absurd hs List.not_mem_nil
  | cons slot rest ih =>
    obtain ⟨g, i⟩ := slot
    have hg : groups.toList[i]? = some g := hslots _ List.mem_cons_self
    have hdests := McastGroups.destsAt_eq hg
    have hrest : ∀ slot ∈ rest, groups.toList[slot.2]? = some slot.1 :=
      fun slot hmem => hslots slot (List.mem_cons_of_mem _ hmem)
    rw [List.foldl_cons, List.map_cons, List.filter_cons]
    obtain ⟨directed, dropped, hsent, hrouter, hperm, hcarries, hdirected⟩ :=
      ih hrest (sendDirected ttl inner txLen merged st (g, i))
    rw [hsent, hrouter]
    unfold sendDirected
    by_cases hmerged : i ∈ merged
    · simp only [hmerged, if_true, not_true_eq_false, decide_false, Bool.false_eq_true, if_false]
      exact ⟨directed, dropped, rfl, rfl, hperm, hcarries, hdirected⟩
    simp only [hmerged, if_false, not_false_eq_true, decide_true, if_true]
    -- A group that is counted joins the dropped ones; what is sent is not touched.
    have hcounted : (directed.flatMap Share.members ++ i :: dropped).Perm
        (i :: (rest.map Prod.snd).filter fun i => i ∉ merged) :=
      List.perm_middle.trans (hperm.cons i)
    have hcount : ∀ r : R, recordDrops groups dropped
        (RouterOps.recordMcastGroupDrop g.dests.length r) = recordDrops groups (i :: dropped) r := by
      intro r
      rw [recordDrops, recordDrops, List.foldl_cons, hdests]
    cases hwrite : writeMcast ttl .tag g.dests inner txLen with
    | none => exact ⟨directed, i :: dropped, rfl, hcount _, hcounted, hcarries, hdirected⟩
    | some payload =>
      dsimp only
      cases hemit : (st.2.emit ⟨g.next, ethPBatman, payload, .auto⟩).2 with
      | false =>
        refine ⟨directed, i :: dropped, ?_, hcount _, hcounted, hcarries, hdirected⟩
        rw [MeshSink.sent_emit_of_refused hemit]
      | true =>
        refine ⟨⟨⟨g.next, ethPBatman, payload, .auto⟩, [i]⟩ :: directed, dropped, ?_, rfl, ?_, ?_, ?_⟩
        · rw [MeshSink.sent_emit_of_accepted hemit, List.append_assoc]
          rfl
        · rw [List.flatMap_cons]
          exact hperm.cons i
        · intro s hs
          rcases List.mem_cons.mp hs with rfl | hold
          · refine ⟨_, parse_writeMcast hwrite, rfl, rfl, ?_⟩
            rw [List.flatMap_singleton, hdests]
          · exact hcarries s hold
        · intro s hs
          rcases List.mem_cons.mp hs with rfl | hold
          · exact ⟨i, g, rfl, hg, rfl, rfl⟩
          · exact hdirected s hold

end Directed

section Flush

variable {R : Type} [RouterOps R]

/-- For every group, every router and every pattern of acceptances: the groups are
partitioned among the frames the sink took and the ones counted as dropped. The
sink's frames are merged ones, then directed ones; each is the multicast for exactly
the destinations of its groups, and a merged one names next hops on its interface. -/
theorem flushMcastGroups_exact (now : Duration) (router : R) (groups : McastGroups) (ttl : U8)
    (inner : Bytes) (fanOut : List (Option FanOut)) (txLen : Nat) (sink : MeshSink) :
    ∃ (merges directed : List Share) (dropped : List Nat),
      (flushMcastGroups now router groups ttl inner fanOut txLen sink).2.sent =
        sink.sent ++ (merges ++ directed).map Share.frame ∧
      (flushMcastGroups now router groups ttl inner fanOut txLen sink).1 =
        recordDrops groups dropped (resolveGroups now router groups.toList).1 ∧
      ((merges ++ directed).flatMap Share.members ++ dropped).Perm
        (List.range groups.toList.length) ∧
      (∀ s ∈ merges ++ directed, s.Carries groups ttl inner) ∧
      (∀ s ∈ merges, s.Merged groups (resolveGroups now router groups.toList).2) ∧
      ∀ s ∈ directed, s.Directed groups := by
  unfold flushMcastGroups
  obtain ⟨merges, hmerges⟩ := (Collapsed.init groups (resolveGroups now router groups.toList).2
    ttl inner sink).run (resolveGroups now router groups.toList).1 fanOut txLen
      (List.range groups.toList.length)
  dsimp only
  generalize (List.range groups.toList.length).foldl
    (collapseAt (resolveGroups now router groups.toList).1 groups
      (resolveGroups now router groups.toList).2 ttl inner fanOut txLen)
    (Bounded.empty, sink) = collapsed at hmerges ⊢
  have hslots : ∀ slot ∈ groups.toList.zipIdx, groups.toList[slot.2]? = some slot.1 :=
    fun slot hslot => List.mem_zipIdx_iff_getElem?.mp hslot
  obtain ⟨directed, dropped, hsent, hrouter, hperm, hcarries, hdirected⟩ :=
    sendDirected_run ttl inner txLen collapsed.1.toList _ hslots
      ((resolveGroups now router groups.toList).1, collapsed.2)
  refine ⟨merges, directed, dropped, ?_, hrouter, ?_, ?_, hmerges.merged, hdirected⟩
  · rw [hsent, hmerges.sent_eq, List.map_append, List.append_assoc]
  · rw [List.flatMap_append, List.append_assoc, ← hmerges.merged_eq]
    refine (hperm.append_left _).trans ?_
    rw [List.zipIdx_map_snd, ← List.range_eq_range']
    exact append_filter_perm_range hmerges.nodup hmerges.lt
  · intro s hs
    rcases List.mem_append.mp hs with hmerge | hdirect
    · exact hmerges.carries s hmerge
    · exact hcarries s hdirect

end Flush

end Wayfinder
