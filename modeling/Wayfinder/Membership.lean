import Wayfinder.BestRoute
import Wayfinder.Lib.Keyed

/-!
# Multicast membership

The membership table is kept beside the originator records and written from the
announcements in OGMs. It agrees with them as long as every record that goes takes
no membership along, and every announcement is read from the bytes it claims.
-/

namespace Wayfinder

set_option autoImplicit false

open Table

namespace BatmanEngine

variable {c : Capacities}

def mcastListeners (e : BatmanEngine c) (group : Mac) : List Mac :=
  (e.mcastMembers.toList.filter fun p => p.1 = group).map Prod.snd

def groupsNamed (region : Bytes) : List Mac := (findTvlv region .mcast).elim [] macChunks

/-! ### What the engine heard -/

/-- The verdict on the number of an OGM that got past the guards. -/
def ogmAdmission (e : BatmanEngine c) (now : Duration) (ogm : BatmanOgmPacket) : SeqnoAdmission :=
  match (e.ensureOriginator now ogm.orig).originatorTable.get? ogm.orig with
  | none => .duplicate false
  | some record => (admitOgm record (!e.originatorTable.contains ogm.orig) ogm.seqno.get now).2

/-- The content-current OGM an operation brings, with the TVLV region it claims and with all
that follows its header in the frame. -/
def currentOgm? (e : BatmanEngine c) : EngineOp → Option (BatmanOgmPacket × Bytes × Bytes)
  | .handleRx now frame _ _ _ =>
    match e.acceptedOgm? frame with
    | none => none
    | some (ogm, tail) =>
      if (e.ogmAdmission now ogm).contentsAreCurrent then
        some (ogm, tail, frame.payload.drop BatmanOgmPacket.size)
      else none
  | _ => none

def evictedFor (e : BatmanEngine c) (now : Duration) (orig : Mac) : Option Mac :=
  if e.originatorTable.contains orig then none
  else if c.maxOriginators ≤ e.originatorTable.len then
    (maxByKey (fun r : OriginatorRecord => (Millis.fromDuration now).elapsedSince r.lastHeard)
      e.originatorTable.values).map OriginatorRecord.neighborIdent
  else none

def outdated (e : BatmanEngine c) (now : Duration) : List Mac :=
  (e.originatorTable.entries.filter fun r =>
    r.2.paths.toList.all fun p =>
      pathStale (Millis.fromDuration now) p e.seedIntervalMs).map Prod.fst

/-- The originators whose records an operation takes away. -/
def forgotten (e : BatmanEngine c) : EngineOp → List Mac
  | .handleRx now frame _ _ _ =>
    match e.acceptedOgm? frame with
    | none => []
    | some (ogm, _) => (e.evictedFor now ogm.orig).toList
  | .purgeStale now => e.outdated now
  | .producePeriodicBroadcast now => e.outdated now
  | .revokeOriginators revoked => revoked
  | _ => []

/-! ### One announcement -/

theorem dropMembers_eq (orig : Mac) (fuel i : Nat) (l : List (Mac × Mac)) :
    dropMembers orig fuel i l = dropLoop (fun p => decide (p.2 = orig)) fuel i l := by
  induction fuel generalizing i l with
  | zero => rfl
  | succ fuel ih =>
    unfold dropMembers dropLoop
    cases l[i]? with
    | none => rfl
    | some p =>
      dsimp only
      by_cases h : p.2 = orig
      · rw [if_pos h, if_pos (decide_eq_true h), ih]
      · rw [if_neg h, if_neg (by simpa using h), ih]

theorem updateMcastMembership_perm (e : BatmanEngine c) {orig : Mac} {frame : LinkFrame}
    (h : (e.updateMcastMembership orig frame).mcastMembers.toList.length < c.maxMcastMembers) :
    (e.updateMcastMembership orig frame).mcastMembers.toList.Perm
      ((e.mcastMembers.toList.filter fun p => !decide (p.2 = orig)) ++
        (groupsNamed (frame.payload.drop BatmanOgmPacket.size)).map fun g => (g, orig)) := by
  unfold updateMcastMembership at h ⊢
  dsimp only at h ⊢
  rw [List.length_take] at h
  rw [List.take_of_length_le (by omega), dropMembers_eq]
  apply List.Perm.append_right
  exact dropLoop_perm _ (Nat.sub_le _ _) (by simp)

theorem updateMcastMembership_congr {e e' : BatmanEngine c} (h : e'.mcastMembers = e.mcastMembers)
    (orig : Mac) (frame : LinkFrame) :
    (e'.updateMcastMembership orig frame).mcastMembers =
      (e.updateMcastMembership orig frame).mcastMembers := by
  apply BoundedVec.eq_of_toList
  unfold updateMcastMembership
  dsimp only
  rw [h]

theorem finishOgm_members (e : BatmanEngine c) (now : Duration) (frame : LinkFrame)
    (replyLen : Nat) (ogm : BatmanOgmPacket) (tail : Bytes) (tq : U8) (isNew : Bool)
    (admission : SeqnoAdmission) :
    (e.finishOgm now frame replyLen ogm tail tq isNew admission).1.mcastMembers =
      if admission.contentsAreCurrent then (e.updateMcastMembership ogm.orig frame).mcastMembers
      else e.mcastMembers := by
  have hcount := e.countOgmAdmission_kept admission ogm.ttl
  have hupdate := updateMcastMembership_congr hcount.members ogm.orig frame
  unfold finishOgm
  dsimp only
  by_cases hstale : admission.isStaleCopy = true
  · have hcurrent : admission.contentsAreCurrent = false := by
      cases admission with
      | duplicate exact =>
        cases exact with
        | true => cases hstale
        | false => rfl
      | _ => cases hstale
    rw [if_pos hstale, hcurrent, if_neg Bool.false_ne_true]
    exact (applyTopologyChange_kept _ now).members.trans hcount.members
  · rw [if_neg hstale]
    have hmembers : ∀ e' : BatmanEngine c, e'.mcastMembers =
        (if admission.contentsAreCurrent then (e.updateMcastMembership ogm.orig frame).mcastMembers
          else e.mcastMembers) →
        (if admission.isAdvanced && decide (1 < ogm.ttl.toNat) then
          ((e'.refloodOgm ogm tail tq frame.src replyLen).1.applyTopologyChange now,
            (e'.refloodOgm ogm tail tq frame.src replyLen).2)
          else (e'.applyTopologyChange now, none)).1.mcastMembers =
        (if admission.contentsAreCurrent then (e.updateMcastMembership ogm.orig frame).mcastMembers
          else e.mcastMembers) := by
      intro e' he'
      split
      · exact (applyTopologyChange_kept _ now).members.trans
          ((refloodOgm_kept _ _ _ _ _ _).members.trans he')
      · exact (applyTopologyChange_kept _ now).members.trans he'
    apply hmembers
    rw [(latchTopology_kept _ isNew).members]
    split
    · exact hupdate
    · exact hcount.members

theorem acceptOgm_members (e : BatmanEngine c) (now : Duration) (frame : LinkFrame)
    (localQuality : Option U8) (replyLen : Nat) (ogm : BatmanOgmPacket) (tail : Bytes) :
    (e.acceptOgm now frame localQuality replyLen ogm tail).1.mcastMembers =
      if (e.ogmAdmission now ogm).contentsAreCurrent then
        (e.updateMcastMembership ogm.orig frame).mcastMembers
      else e.mcastMembers := by
  have hensure : (e.ensureOriginator now ogm.orig).mcastMembers = e.mcastMembers := by
    unfold ensureOriginator
    split <;> rfl
  unfold acceptOgm ogmAdmission
  dsimp only
  cases hget : (e.ensureOriginator now ogm.orig).originatorTable.get? ogm.orig with
  | none => exact hensure
  | some record =>
    dsimp only
    have hwrite : ∀ t, ((e.ensureOriginator now ogm.orig).withTable t).mcastMembers =
        e.mcastMembers := fun _ => hensure
    rw [finishOgm_members, updateMcastMembership_congr (hwrite _), hwrite]
    rfl

/-! ### Which records stay -/

theorem get?_insertD_of_ne {V : Type} {n : Nat} (m : IndexMap Mac V n) {k k' : Mac} (v : V)
    (hne : k' ≠ k) : (m.insertD k v).get? k' = m.get? k' := by
  unfold IndexMap.insertD
  cases hins : m.insert k v with
  | none => rfl
  | some m' => exact (IndexMap.get?_insert hins k').trans (if_neg hne)

theorem ensureOriginator_get? (e : BatmanEngine c) (now : Duration) {orig o : Mac}
    (hne : o ≠ orig) :
    (e.ensureOriginator now orig).originatorTable.get? o =
      if e.evictedFor now orig = some o then none else e.originatorTable.get? o := by
  unfold ensureOriginator evictedFor
  by_cases hknown : e.originatorTable.contains orig = true
  · rw [if_pos hknown, if_pos hknown, if_neg (by simp)]
  · rw [if_neg hknown, if_neg hknown]
    dsimp only
    rw [get?_insertD_of_ne _ _ hne]
    by_cases hfull : c.maxOriginators ≤ e.originatorTable.len
    · rw [if_pos hfull, if_pos hfull]
      cases maxByKey (fun r : OriginatorRecord =>
          (Millis.fromDuration now).elapsedSince r.lastHeard) e.originatorTable.values with
      | none => rfl
      | some oldest =>
        dsimp only [Option.map_some]
        rw [IndexMap.get?_remove]
        by_cases heq : o = oldest.neighborIdent
        · rw [if_pos heq, if_pos (congrArg some heq.symm)]
        · rw [if_neg heq, if_neg fun h => heq (Option.some.inj h).symm]
    · rw [if_neg hfull, if_neg hfull, if_neg (by simp)]

theorem ensureOriginator_of_known {e : BatmanEngine c} {now : Duration} {orig : Mac}
    (h : e.originatorTable.contains orig = true) : e.ensureOriginator now orig = e := by
  unfold ensureOriginator
  exact if_pos h

theorem acceptOgm_known (e : BatmanEngine c) (now : Duration) (frame : LinkFrame)
    (localQuality : Option U8) (replyLen : Nat) (ogm : BatmanOgmPacket) (tail : Bytes) (o : Mac) :
    (e.acceptOgm now frame localQuality replyLen ogm tail).1.originatorTable.contains o = true ↔
      ((e.ogmAdmission now ogm).contentsAreCurrent = true ∧ o = ogm.orig) ∨
        e.originatorTable.contains o = true ∧ o ∉ (e.evictedFor now ogm.orig).toList := by
  have htable := (e.acceptOgm_spec now frame localQuality replyLen ogm tail).2
  have hsome : (e.acceptOgm now frame localQuality replyLen ogm tail).1.originatorTable.contains o =
      ((e.ensureOriginator now ogm.orig).originatorTable.get? o).isSome := by
    rw [IndexMap.contains_eq_isSome, htable]
    cases hget : (e.ensureOriginator now ogm.orig).originatorTable.get? ogm.orig with
    | none => rfl
    | some record =>
      dsimp only
      rw [IndexMap.get?_modify]
      split
      · rename_i heq
        rw [heq, hget]
        rfl
      · rfl
  rw [hsome, Option.mem_toList]
  by_cases ho : o = ogm.orig
  · subst ho
    unfold ogmAdmission
    by_cases hknown : e.originatorTable.contains ogm.orig = true
    · have hevict : e.evictedFor now ogm.orig = none := if_pos hknown
      rw [ensureOriginator_of_known hknown, hevict, ← IndexMap.contains_eq_isSome]
      simp [hknown]
    · have hnew : e.originatorTable.contains ogm.orig = false := Bool.eq_false_iff.mpr hknown
      cases hget : (e.ensureOriginator now ogm.orig).originatorTable.get? ogm.orig with
      | none => simp [hnew, SeqnoAdmission.contentsAreCurrent, SeqnoAdmission.isAdvanced]
      | some record =>
        -- a first sighting is always current
        simp [hnew, admitOgm, SeqnoAdmission.contentsAreCurrent, SeqnoAdmission.isAdvanced]
  · rw [ensureOriginator_get? e now ho, IndexMap.contains_eq_isSome]
    by_cases hevict : e.evictedFor now ogm.orig = some o
    · simp [hevict, ho]
    · simp [hevict, ho]

theorem mem_outdated {e : BatmanEngine c} {now : Duration} {o : Mac} :
    o ∈ e.outdated now ↔ ∃ r, e.originatorTable.get? o = some r ∧
      r.paths.toList.all (fun p => pathStale (Millis.fromDuration now) p e.seedIntervalMs) = true := by
  unfold outdated
  rw [List.mem_map]
  constructor
  · rintro ⟨⟨o', r⟩, hr, rfl⟩
    obtain ⟨hmem, hall⟩ := List.mem_filter.mp hr
    exact ⟨r, IndexMap.get?_eq_some_iff.mpr hmem, hall⟩
  · rintro ⟨r, hget, hall⟩
    exact ⟨(o, r), List.mem_filter.mpr ⟨IndexMap.get?_eq_some_iff.mp hget, hall⟩, rfl⟩

theorem purgeStale_record (e : BatmanEngine c) (now : Duration) (o : Mac) :
    ∃ sel : Mac → Bool, (e.purgeStale now).originatorTable.get? o =
      ((e.originatorTable.get? o).map fun r => recomputeBest
        (prunePaths r fun p => !pathStale (Millis.fromDuration now) p e.seedIntervalMs) sel).filter
          fun r => !r.paths.toList.isEmpty := by
  unfold purgeStale recomputeAllBest
  dsimp only
  rw [IndexMap.get?_retain, IndexMap.get?_mapEntries, IndexMap.get?_mapEntries, Option.map_map]
  exact ⟨_, rfl⟩

theorem purgeStale_known (e : BatmanEngine c) (now : Duration) (o : Mac) :
    (e.purgeStale now).originatorTable.contains o = true ↔
      e.originatorTable.contains o = true ∧ o ∉ e.outdated now := by
  rw [IndexMap.contains_eq_isSome, IndexMap.contains_eq_isSome, mem_outdated]
  obtain ⟨sel, hget⟩ := e.purgeStale_record now o
  rw [hget]
  cases e.originatorTable.get? o with
  | none => simp
  | some r =>
    simp only [Option.map_some, Option.isSome_some, true_and, Option.some.injEq, exists_eq_left']
    rw [Option.isSome_filter, Option.any_some, recomputeBest_paths]
    unfold prunePaths BoundedVec.retain
    simp [List.filter_eq_nil_iff]

theorem revokeOriginators_known (e : BatmanEngine c) (revoked : List Mac) (o : Mac) :
    (e.revokeOriginators revoked).originatorTable.contains o = true ↔
      e.originatorTable.contains o = true ∧ o ∉ revoked := by
  unfold revokeOriginators
  induction revoked generalizing e with
  | nil => simp
  | cons r rs ih =>
    rw [List.foldl_cons, ih, List.mem_cons]
    have hone : (e.revokeOriginator r).originatorTable.contains o = true ↔
        e.originatorTable.contains o = true ∧ o ≠ r := by
      unfold revokeOriginator
      dsimp only
      rw [IndexMap.contains_eq_isSome, IndexMap.contains_eq_isSome, IndexMap.get?_mapEntries,
        IndexMap.get?_retain]
      cases e.originatorTable.get? o with
      | none => simp
      | some record =>
        by_cases h : r = o
        · simp [h]
        · simp [h, Ne.symm h]
    rw [hone]
    tauto

/-! ### One step -/

theorem recomputeAllBest_known (e : BatmanEngine c) (now : Duration) (o : Mac) :
    (e.recomputeAllBest now).originatorTable.contains o = e.originatorTable.contains o := by
  unfold recomputeAllBest
  rw [IndexMap.contains_eq_isSome, IndexMap.contains_eq_isSome, IndexMap.get?_mapEntries,
    Option.isSome_map]

/-- A step that brings no current contents leaves the memberships, and takes away the records
it forgets. -/
theorem step_quiet (e : BatmanEngine c) {op : EngineOp} (h : e.currentOgm? op = none)
    (hop : op ≠ .reset) :
    (e.step op).mcastMembers = e.mcastMembers ∧
      ∀ o, (e.step op).originatorTable.contains o = true ↔
        e.originatorTable.contains o = true ∧ o ∉ e.forgotten op := by
  have hkept : ∀ e' : BatmanEngine c, e'.mcastMembers = e.mcastMembers →
      (∀ o, e'.originatorTable.contains o = e.originatorTable.contains o) →
      e'.mcastMembers = e.mcastMembers ∧
        ∀ o, e'.originatorTable.contains o = true ↔
          e.originatorTable.contains o = true ∧ o ∉ ([] : List Mac) := by
    intro e' hmembers htable
    refine ⟨hmembers, ?_⟩
    intro o
    rw [htable o]
    simp
  cases op with
  | handleRx now frame localQuality replyLen out =>
    rcases e.handleRx_cases now frame localQuality replyLen out with
      ⟨hnone, hroutes⟩ | ⟨ogm, tail, hacc, heq⟩
    · unfold forgotten
      dsimp only
      rw [hnone]
      exact hkept _ hroutes.members fun o => by rw [step, hroutes.table]
    · unfold currentOgm? at h
      dsimp only at h
      rw [hacc] at h
      have hstale : (e.ogmAdmission now ogm).contentsAreCurrent = false := by
        cases hc : (e.ogmAdmission now ogm).contentsAreCurrent with
        | false => rfl
        | true =>
          simp only [hc, if_true] at h
          cases h
      unfold forgotten
      dsimp only
      rw [hacc, step, heq, acceptOgm_members, if_neg (by rw [hstale]; exact Bool.false_ne_true)]
      refine ⟨rfl, ?_⟩
      intro o
      rw [acceptOgm_known, hstale]
      simp
  | noteProven now neighbor iface => exact hkept _ rfl fun o => recomputeAllBest_known _ now o
  | purgeStale now => exact ⟨rfl, e.purgeStale_known now⟩
  | reset => exact absurd rfl hop
  | retainProven now usable =>
    unfold step retainProven
    dsimp only
    split
    · exact hkept e rfl fun _ => rfl
    · exact hkept _ rfl fun o => recomputeAllBest_known _ now o
  | revokeOriginators revoked =>
    refine ⟨?_, e.revokeOriginators_known revoked⟩
    show (revoked.foldl revokeOriginator e).mcastMembers = e.mcastMembers
    clear h hop hkept
    induction revoked generalizing e with
    | nil => rfl
    | cons r rs ih => exact ih (e.revokeOriginator r)
  | setLocalMcastGroups now groups =>
    unfold step setLocalMcastGroups
    dsimp only
    split
    · exact hkept _ rfl fun _ => rfl
    · exact hkept _ rfl fun _ => rfl
  | configureInterfaceOgm idx iMin iMax now =>
    unfold step configureInterfaceOgm
    dsimp only
    split
    · exact hkept _ rfl fun _ => rfl
    · exact hkept _ rfl fun _ => rfl
  | configureInterfaceKeepalive idx interval now =>
    unfold step configureInterfaceKeepalive
    dsimp only
    split
    · exact hkept _ rfl fun _ => rfl
    · exact hkept _ rfl fun _ => rfl
  | producePeriodicBroadcast now =>
    have hlatch := applyTopologyChange_kept (e.purgeStale now) now
    refine ⟨hlatch.members, ?_⟩
    intro o
    refine Iff.trans ?_ (e.purgeStale_known now o)
    show ((e.purgeStale now).applyTopologyChange now).originatorTable.contains o = true ↔ _
    rw [hlatch.table]
  | noteChallenged => exact hkept _ rfl fun _ => rfl
  | setRequireProof => exact hkept _ rfl fun _ => rfl
  | resetOgmTimers => exact hkept _ rfl fun _ => rfl
  | onInterfaceEmitted => exact hkept _ rfl fun _ => rfl
  | onKeepaliveEmitted => exact hkept _ rfl fun _ => rfl
  | nextBroadcastSeqno => exact hkept _ rfl fun _ => rfl

/-- A step that brings current contents writes what it finds behind the header. -/
theorem step_current (e : BatmanEngine c) {op : EngineOp} {ogm : BatmanOgmPacket}
    {tail rest : Bytes} (h : e.currentOgm? op = some (ogm, tail, rest))
    (hroom : (e.step op).mcastMembers.toList.length < c.maxMcastMembers) :
    (e.step op).mcastMembers.toList.Perm
        ((e.mcastMembers.toList.filter fun p => !decide (p.2 = ogm.orig)) ++
          (groupsNamed rest).map fun g => (g, ogm.orig)) ∧
      ∀ o, (e.step op).originatorTable.contains o = true ↔
        o = ogm.orig ∨ e.originatorTable.contains o = true ∧ o ∉ e.forgotten op := by
  cases op with
  | handleRx now frame localQuality replyLen out =>
    unfold currentOgm? at h
    dsimp only at h
    rcases e.handleRx_cases now frame localQuality replyLen out with
      ⟨hnone, _⟩ | ⟨ogm', tail', hacc, heq⟩
    · rw [hnone] at h
      cases h
    · rw [hacc] at h
      dsimp only at h
      split at h
      · rename_i hcurrent
        cases h
        have hmembers := e.acceptOgm_members now frame localQuality replyLen ogm tail
        rw [if_pos hcurrent] at hmembers
        rw [step, heq, hmembers] at hroom ⊢
        refine ⟨e.updateMcastMembership_perm hroom, ?_⟩
        intro o
        unfold forgotten
        dsimp only
        rw [acceptOgm_known, hcurrent, hacc]
        simp
      · cases h
  | _ => cases h

theorem notMem_forgotten_of_known {e : BatmanEngine c} {op : EngineOp} {ogm : BatmanOgmPacket}
    {tail rest : Bytes} (h : e.currentOgm? op = some (ogm, tail, rest))
    (hknown : e.originatorTable.contains ogm.orig = true) : ogm.orig ∉ e.forgotten op := by
  cases op with
  | handleRx now frame localQuality replyLen out =>
    unfold currentOgm? at h
    unfold forgotten
    dsimp only at h ⊢
    cases hacc : e.acceptedOgm? frame with
    | none => exact fun ho => nomatch ho
    | some found =>
      rw [hacc] at h
      dsimp only at h ⊢
      split at h
      · cases h
        unfold evictedFor
        rw [if_pos hknown]
        exact fun ho => nomatch ho
      · cases h
  | _ => cases h

/-! ### The two tables in agreement -/

/-- What each originator announced in the last contents that were current. -/
abbrev Announced := Mac → List Mac

def track (s : BatmanEngine c × Announced) (op : EngineOp) : BatmanEngine c × Announced :=
  (s.1.step op,
    match s.1.currentOgm? op with
    | none => s.2
    | some (ogm, tail, _) => Function.update s.2 ogm.orig (groupsNamed tail))

/-- The listeners of each group are the known originators that announced it, each once. -/
def ListenersExact (s : BatmanEngine c × Announced) : Prop :=
  ∀ group, (s.1.mcastListeners group).Nodup ∧
    ∀ o, o ∈ s.1.mcastListeners group ↔
      s.1.originatorTable.contains o = true ∧ group ∈ s.2 o

/-- No record goes whose originator has a membership, and contents that are current name the
same groups in the region they claim as in all that follows the header, none of them twice. -/
def KeepsListeners (s : BatmanEngine c × Announced) (op : EngineOp) : Prop :=
  (∀ o ∈ s.1.forgotten op, ∀ group, (group, o) ∉ s.1.mcastMembers.toList) ∧
    ∀ ogm tail rest, s.1.currentOgm? op = some (ogm, tail, rest) →
      (groupsNamed rest).Nodup ∧ ∀ group, group ∈ groupsNamed rest ↔ group ∈ groupsNamed tail

theorem mem_mcastListeners {e : BatmanEngine c} {group o : Mac} :
    o ∈ e.mcastListeners group ↔ (group, o) ∈ e.mcastMembers.toList := by
  unfold mcastListeners
  rw [List.mem_map]
  constructor
  · rintro ⟨⟨g, m⟩, hmem, rfl⟩
    have hin := List.mem_filter.mp hmem
    obtain rfl : g = group := of_decide_eq_true hin.2
    exact hin.1
  · intro h
    exact ⟨(group, o), List.mem_filter.mpr ⟨h, decide_eq_true rfl⟩, rfl⟩

theorem nodup_mcastListeners {e : BatmanEngine c} :
    (∀ group, (e.mcastListeners group).Nodup) ↔ e.mcastMembers.toList.Nodup := by
  unfold mcastListeners
  constructor
  · intro h
    rw [List.nodup_iff_sublist]
    rintro ⟨g, o⟩ hsub
    have hpair := (hsub.filter fun p : Mac × Mac => decide (p.1 = g)).map Prod.snd
    rw [List.filter_cons_of_pos (by simp), List.filter_cons_of_pos (by simp), List.filter_nil] at hpair
    exact List.nodup_iff_sublist.mp (h g) o hpair
  · intro h group
    apply (h.filter _).map_on
    rintro ⟨g, o⟩ hx ⟨g', o'⟩ hy heq
    obtain rfl : g = group := of_decide_eq_true (List.mem_filter.mp hx).2
    obtain rfl : g' = g := of_decide_eq_true (List.mem_filter.mp hy).2
    exact congrArg (Prod.mk _) heq

theorem listenersExact_iff {s : BatmanEngine c × Announced} :
    ListenersExact s ↔ s.1.mcastMembers.toList.Nodup ∧
      ∀ group o, (group, o) ∈ s.1.mcastMembers.toList ↔
        s.1.originatorTable.contains o = true ∧ group ∈ s.2 o := by
  unfold ListenersExact
  rw [← nodup_mcastListeners]
  simp only [mem_mcastListeners]
  exact forall_and

theorem quiet_listeners_iff {s : BatmanEngine c × Announced} {op : EngineOp}
    (h : ListenersExact s) (hquiet : s.1.currentOgm? op = none) (hop : op ≠ .reset) :
    ListenersExact (track s op) ↔
      ∀ o ∈ s.1.forgotten op, ∀ group, (group, o) ∉ s.1.mcastMembers.toList := by
  obtain ⟨hnodup, hmem⟩ := listenersExact_iff.mp h
  obtain ⟨hmembers, hknown⟩ := s.1.step_quiet hquiet hop
  have hsaid : (track s op).2 = s.2 := by
    unfold track
    rw [hquiet]
  rw [listenersExact_iff, hsaid]
  show (s.1.step op).mcastMembers.toList.Nodup ∧
      (∀ group o, (group, o) ∈ (s.1.step op).mcastMembers.toList ↔
        (s.1.step op).originatorTable.contains o = true ∧ group ∈ s.2 o) ↔ _
  rw [hmembers]
  simp only [hknown]
  constructor
  · rintro ⟨_, hafter⟩ o ho group hin
    exact ((hafter group o).mp hin).1.2 ho
  · intro hkeep
    refine ⟨hnodup, ?_⟩
    intro group o
    rw [hmem group o]
    constructor
    · rintro ⟨hold, hsaid⟩
      refine ⟨⟨hold, ?_⟩, hsaid⟩
      intro ho
      exact hkeep o ho group ((hmem group o).mpr ⟨hold, hsaid⟩)
    · rintro ⟨⟨hold, _⟩, hsaid⟩
      exact ⟨hold, hsaid⟩

theorem current_listeners_iff {s : BatmanEngine c × Announced} {op : EngineOp}
    {ogm : BatmanOgmPacket} {tail rest : Bytes} (h : ListenersExact s)
    (hcurrent : s.1.currentOgm? op = some (ogm, tail, rest))
    (hroom : (s.1.step op).mcastMembers.toList.length < c.maxMcastMembers) :
    ListenersExact (track s op) ↔
      (∀ o ∈ s.1.forgotten op, ∀ group, (group, o) ∉ s.1.mcastMembers.toList) ∧
        (groupsNamed rest).Nodup ∧
          ∀ group, group ∈ groupsNamed rest ↔ group ∈ groupsNamed tail := by
  obtain ⟨hnodup, hmem⟩ := listenersExact_iff.mp h
  obtain ⟨hperm, hknown⟩ := s.1.step_current hcurrent hroom
  have hsaid : (track s op).2 = Function.update s.2 ogm.orig (groupsNamed tail) := by
    unfold track
    rw [hcurrent]
  have hin : ∀ group o, (group, o) ∈ (s.1.step op).mcastMembers.toList ↔
      if o = ogm.orig then group ∈ groupsNamed rest else (group, o) ∈ s.1.mcastMembers.toList := by
    intro group o
    rw [hperm.mem_iff, List.mem_append, List.mem_filter, List.mem_map]
    by_cases ho : o = ogm.orig
    · simp [ho]
    · simp [ho, Ne.symm ho]
  have hnodupAfter : (s.1.step op).mcastMembers.toList.Nodup ↔ (groupsNamed rest).Nodup := by
    rw [hperm.nodup_iff, List.nodup_append]
    constructor
    · rintro ⟨_, hnew, _⟩
      exact List.Nodup.of_map _ hnew
    · intro hnew
      refine ⟨hnodup.filter _, ?_, ?_⟩
      · exact hnew.map fun g g' heq => congrArg Prod.fst heq
      · rintro ⟨g, o⟩ hp ⟨g', o'⟩ hp' heq
        obtain ⟨_, hp⟩ := List.mem_filter.mp hp
        obtain ⟨_, _, hp'⟩ := List.mem_map.mp hp'
        obtain ⟨_, rfl⟩ := Prod.mk.inj (heq.trans hp'.symm)
        simp at hp
  rw [listenersExact_iff, hsaid]
  show (s.1.step op).mcastMembers.toList.Nodup ∧
      (∀ group o, (group, o) ∈ (s.1.step op).mcastMembers.toList ↔
        (s.1.step op).originatorTable.contains o = true ∧
          group ∈ Function.update s.2 ogm.orig (groupsNamed tail) o) ↔ _
  simp only [hin, hknown, hnodupAfter]
  constructor
  · rintro ⟨hnew, hafter⟩
    refine ⟨?_, hnew, ?_⟩
    · intro o ho group hold
      by_cases horig : o = ogm.orig
      · -- a record that is there makes no room for itself
        subst horig
        exact absurd ho (notMem_forgotten_of_known hcurrent ((hmem group _).mp hold).1)
      · have hkeep := hafter group o
        rw [if_neg horig, Function.update_of_ne horig] at hkeep
        exact ((hkeep.mp hold).1.resolve_left horig).2 ho
    · intro group
      have hsame := hafter group ogm.orig
      rw [if_pos rfl, Function.update_self] at hsame
      simpa using hsame
  · rintro ⟨hkeep, hnew, hsame⟩
    refine ⟨hnew, ?_⟩
    intro group o
    by_cases horig : o = ogm.orig
    · subst horig
      rw [if_pos rfl, Function.update_self, hsame group]
      simp
    · rw [if_neg horig, Function.update_of_ne horig, hmem group o]
      constructor
      · rintro ⟨hold, hsaid⟩
        refine ⟨Or.inr ⟨hold, ?_⟩, hsaid⟩
        intro ho
        exact hkeep o ho group ((hmem group o).mpr ⟨hold, hsaid⟩)
      · rintro ⟨hold, hsaid⟩
        exact ⟨(hold.resolve_left horig).1, hsaid⟩

theorem step_listeners_iff {s : BatmanEngine c × Announced} {op : EngineOp}
    (h : ListenersExact s)
    (hroom : (s.1.step op).mcastMembers.toList.length < c.maxMcastMembers) :
    ListenersExact (track s op) ↔ KeepsListeners s op := by
  unfold KeepsListeners
  cases hcurrent : s.1.currentOgm? op with
  | some found =>
    obtain ⟨ogm, tail, rest⟩ := found
    rw [current_listeners_iff h hcurrent hroom]
    apply and_congr_right
    intro _
    constructor
    · intro hsame ogm' tail' rest' heq
      cases heq
      exact hsame
    · intro hall
      exact hall ogm tail rest rfl
  | none =>
    by_cases hop : op = .reset
    · subst hop
      refine iff_of_true ?_ ⟨fun _ ho => (nomatch ho), fun _ _ _ h => (nomatch h)⟩
      rw [listenersExact_iff]
      exact ⟨List.nodup_nil, fun _ _ => iff_of_false (fun h => (nomatch h)) fun h => (nomatch h.1)⟩
    · rw [quiet_listeners_iff h hcurrent hop]
      exact (and_iff_left fun _ _ _ h => nomatch h).symm

def freshTrack (c : Capacities) (selfIdent : Mac) : BatmanEngine c × Announced :=
  (BatmanEngine.new c selfIdent, fun _ => [])

/-- In a run whose membership table never fills, the two tables agree in every state reached
exactly when every step meets the condition. -/
theorem listeners_run (selfIdent : Mac) (ops : List EngineOp)
    (hroom : ∀ pre, pre <+: ops →
      ((BatmanEngine.new c selfIdent).run pre).mcastMembers.toList.length < c.maxMcastMembers) :
    Run.AllGood track ListenersExact (freshTrack c selfIdent) ops ↔
      Run.AllSafe track KeepsListeners (freshTrack c selfIdent) ops := by
  have hengine : ∀ pre, (Run.run track (freshTrack c selfIdent) pre).1 =
      (BatmanEngine.new c selfIdent).run pre := by
    intro pre
    induction pre using List.reverseRecOn with
    | nil => rfl
    | append_singleton pre op ih =>
      rw [Run.run_append_singleton, run, Run.run_append_singleton]
      exact congrArg (fun e => step e op) ih
  apply Run.allGood_iff_allSafe_of_prefix
  · rw [listenersExact_iff]
    exact ⟨List.nodup_nil, fun _ _ => iff_of_false (fun h => (nomatch h)) fun h => (nomatch h.1)⟩
  · intro pre op hpre hgood
    apply step_listeners_iff hgood
    have h := hroom (pre ++ [op]) hpre
    rw [run, Run.run_append_singleton] at h
    rw [hengine pre]
    exact h

/-! ### A node and one announcer -/

def announcement (seqno : Nat) (claimed : Nat) (tail : Bytes) : EngineOp :=
  .handleRx 0
    { dst := Mac.broadcast
      src := Mac.low 2
      protocol := ethPBatman
      payload := BatmanOgmPacket.asBytes
        { packetType := BatmanPacketType.ogm.asU8
          version := batmanVersion
          ttl := 5
          flags := 0
          seqno := Be32.ofU32 (BitVec.ofNat 32 seqno)
          orig := Mac.low 2
          reserved := 0
          tq := 255
          tvlvLen := Be16.ofNat claimed } ++ tail }
    none 512 .unbounded

def group : Mac := ⟨0x33, 0x33, 0, 0, 0, 1⟩

def mcastRecord (groups : List Mac) : Bytes :=
  (⟨TvlvType.mcast.asU8, 1, Be16.ofNat (6 * groups.length)⟩ : BatmanTvlvHdr).asBytes ++
    groups.flatMap Mac.asBytes

def announcerRun (ops : List EngineOp) : BatmanEngine smallCapacities :=
  (BatmanEngine.new smallCapacities (Mac.low 1)).run ops

theorem listeners_run_announced :
    Run.AllGood track ListenersExact (freshTrack smallCapacities (Mac.low 1))
      [announcement 1 10 (mcastRecord [group])] := by
  have hroom : ∀ pre, pre <+: [announcement 1 10 (mcastRecord [group])] →
      ((BatmanEngine.new smallCapacities (Mac.low 1)).run pre).mcastMembers.toList.length <
        smallCapacities.maxMcastMembers := by
    intro pre hpre
    have hall : ∀ l ∈ [announcement 1 10 (mcastRecord [group])].inits,
        ((BatmanEngine.new smallCapacities (Mac.low 1)).run l).mcastMembers.toList.length <
          smallCapacities.maxMcastMembers := by
      decide +kernel
    exact hall pre ((List.mem_inits _ _).mpr hpre)
  rw [listeners_run (Mac.low 1) _ hroom, Run.allSafe_cons]
  refine ⟨⟨fun _ ho => (nomatch ho), ?_⟩, Run.allSafe_nil⟩
  intro ogm tail rest h
  have hread : ((freshTrack smallCapacities (Mac.low 1)).1.currentOgm?
      (announcement 1 10 (mcastRecord [group]))).map (fun r => (groupsNamed r.2.2, groupsNamed r.2.1)) =
        some ([group], [group]) := by
    decide +kernel
  rw [h] at hread
  obtain ⟨hrest, htail⟩ := Prod.mk.inj (Option.some.inj hread)
  dsimp only at hrest htail
  rw [hrest, htail]
  exact ⟨List.nodup_singleton _, fun _ => Iff.rfl⟩

/-- A purge leaves the listener of a record that is gone; a record behind the claimed bytes makes
a listener; a group named twice is listened to twice. -/
theorem listeners_diverge :
    ((announcerRun [announcement 1 10 (mcastRecord [group]),
          .purgeStale (Duration.ofSecs 86400)]).mcastListeners group = [Mac.low 2] ∧
        (announcerRun [announcement 1 10 (mcastRecord [group]),
          .purgeStale (Duration.ofSecs 86400)]).originatorTable.contains (Mac.low 2) = false) ∧
      ((announcerRun [announcement 1 0 (mcastRecord [group])]).mcastListeners group = [Mac.low 2] ∧
        groupsNamed ((mcastRecord [group]).take 0) = []) ∧
      (announcerRun [announcement 1 16 (mcastRecord [group, group])]).mcastListeners group =
        [Mac.low 2, Mac.low 2] := by
  refine ⟨⟨?_, ?_⟩, ⟨?_, ?_⟩, ?_⟩ <;> decide +kernel

end BatmanEngine

end Wayfinder
