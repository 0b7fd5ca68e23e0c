import Wayfinder.EngineRun

/-!
# The proof gate

With proof required, a next hop is always a neighbor with an entry in `proven`:
one that `note_proven` wrote and that every later operation left standing. The
age the engine reads off the entry is within the proof lifetime. That reading is
the true age as long as it is below half the stamp range, which the sweeps of
`purge_stale` see to when they run often enough; without them an entry that
outlives the half range reads as fresh.
-/

namespace Wayfinder

set_option autoImplicit false

open Table

namespace EngineOp

def time? : EngineOp → Option Duration
  | .handleRx now _ _ _ _ | .noteProven now _ _ | .noteChallenged now _ | .purgeStale now
  | .retainProven now _ | .resetOgmTimers now | .setLocalMcastGroups now _
  | .configureInterfaceOgm _ _ _ now | .configureInterfaceKeepalive _ _ now
  | .onInterfaceEmitted _ now | .onKeepaliveEmitted _ now | .producePeriodicBroadcast now =>
    some now
  | .setRequireProof _ | .reset | .revokeOriginators _ | .nextBroadcastSeqno => none

def sweep? : EngineOp → Option Duration
  | .purgeStale now | .producePeriodicBroadcast now => some now
  | _ => none

def isFrame : EngineOp → Bool
  | .handleRx .. => true
  | _ => false

/-- Nondecreasing times, from `start` through the operations to `now`. -/
def Timed (start : Duration) (ops : List EngineOp) (now : Duration) : Prop :=
  (start :: (ops.filterMap time? ++ [now])).Pairwise (· ≤ ·)

instance (start : Duration) (ops : List EngineOp) (now : Duration) :
    Decidable (Timed start ops now) :=
  inferInstanceAs (Decidable (List.Pairwise _ _))

/-- Less than `gap` milliseconds pass without a sweep. -/
def SweptWithin (gap : Nat) : Duration → List EngineOp → Duration → Prop
  | last, [], now => now.asMillis < last.asMillis + gap
  | last, op :: rest, now =>
    match op.sweep? with
    | some s => s.asMillis < last.asMillis + gap ∧ SweptWithin gap s rest now
    | none => SweptWithin gap last rest now

end EngineOp

/-- How often a sweep must run for every stamp to stay readable. -/
def sweepGapMs : Nat := 2 ^ 31 - stampAgeCeilingMs

namespace BatmanEngine

variable {c : Capacities} {e : BatmanEngine c} {now : Duration}

def proofLifetimeMs (e : BatmanEngine c) : Nat :=
  min (e.seedIntervalMs * maxMissedProofs) (2 ^ 32 - 1)

theorem proofFresh_iff {last : Millis} :
    e.proofFresh now last = true ↔
      (Millis.fromDuration now).elapsedSince last ≤ e.proofLifetimeMs := by
  rw [proofFresh, Bool.not_eq_true', isStale, decide_eq_false_iff_not, Nat.not_lt]
  rfl

theorem nextHop_proofCurrent {dest m : Mac} (h : e.nextHop now dest = some m) :
    e.proofCurrent now m = true := by
  obtain ⟨record, _, hbest⟩ := Option.bind_eq_some_iff.mp h
  obtain ⟨best, hmax, heq⟩ := Option.bind_eq_some_iff.mp hbest
  obtain rfl := Option.some.inj heq
  exact (List.mem_filter.mp (maxByKey_spec hmax).1).2

theorem proofCurrent_entry {m : Mac} (hreq : e.requireProof = true)
    (h : e.proofCurrent now m = true) :
    ∃ entry, e.proven.get? m = some entry ∧
      (Millis.fromDuration now).elapsedSince entry.1 ≤ e.proofLifetimeMs := by
  rw [proofCurrent, hreq] at h
  cases hget : e.proven.get? m with
  | none =>
    rw [hget] at h
    simp at h
  | some entry =>
    rw [hget] at h
    exact ⟨entry, rfl, proofFresh_iff.mp h⟩

/-! ### Frames leave the gate alone -/

theorem GateKept.refl (e : BatmanEngine c) : GateKept e e := (RoutesKept.refl e).toGateKept

theorem GateKept.proofCurrent {e' : BatmanEngine c} (h : GateKept e e') (m : Mac) :
    e'.proofCurrent now m = e.proofCurrent now m := by
  have hseed : e'.seedIntervalMs = e.seedIntervalMs := by
    rw [seedIntervalMs, h.seed]
    rfl
  unfold BatmanEngine.proofCurrent proofFresh
  rw [h.requireProof, h.proven, hseed]

theorem handleRx_gate (frame : LinkFrame) (localQuality : Option U8) (replyLen : Nat)
    (out : FrameSink) : GateKept e (e.handleRx now frame localQuality replyLen out).engine := by
  rcases e.handleRx_cases now frame localQuality replyLen out with
    ⟨_, hkept⟩ | ⟨ogm, tail, _, heq⟩
  · exact hkept.toGateKept
  · rw [heq]
    exact (e.acceptOgm_spec now frame localQuality replyLen ogm tail).1

theorem run_frames_gate {ops : List EngineOp} (hrx : ∀ op ∈ ops, op.isFrame = true) :
    GateKept e (e.run ops) := by
  induction ops generalizing e with
  | nil => exact .refl e
  | cons op ops ih =>
    have hop := hrx op (List.mem_cons_self ..)
    have hrest := ih (e := e.step op) fun op hmem => hrx op (List.mem_cons_of_mem _ hmem)
    refine GateKept.trans ?_ hrest
    cases op with
    | handleRx now frame localQuality replyLen out =>
      exact handleRx_gate frame localQuality replyLen out
    | _ => simp [EngineOp.isFrame] at hop

/-! ### Where an entry of `proven` comes from -/

theorem get?_insertEvictingOldest {V : Type} {n : Nat} {table : IndexMap Mac V n} {nowMs : Millis}
    {stamp : V → Millis} {k k' : Mac} {v w : V}
    (h : (insertEvictingOldest table nowMs stamp k v).get? k' = some w) :
    k' = k ∧ w = v ∨ table.get? k' = some w := by
  unfold insertEvictingOldest at h
  split at h
  · rename_i table' hinsert
    rw [IndexMap.get?_insert hinsert] at h
    split at h
    · rename_i hk
      exact Or.inl ⟨hk, (Option.some.inj h).symm⟩
    · exact Or.inr h
  · split at h
    · rw [IndexMap.get?_eq_some_iff] at h
      rcases IndexMap.mem_insertD h with ⟨_, hmem⟩ | heq
      · exact Or.inr (IndexMap.get?_eq_some_iff.mpr (IndexMap.mem_remove.mp hmem).1)
      · exact Or.inl (Prod.mk.inj heq)
    · exact Or.inr h

theorem get?_foldl_remove {V : Type} {n : Nat} {table : IndexMap Mac V n} {gone : List Mac}
    {k : Mac} {v : V} (h : (gone.foldl IndexMap.remove table).get? k = some v) :
    table.get? k = some v := by
  induction gone generalizing table with
  | nil => exact h
  | cons m gone ih =>
    have hremove := ih h
    rw [IndexMap.get?_remove] at hremove
    split at hremove
    · simp at hremove
    · exact hremove

theorem not_mem_of_get?_foldl_remove {V : Type} {n : Nat} {table : IndexMap Mac V n}
    {gone : List Mac} {k : Mac} {v : V}
    (h : (gone.foldl IndexMap.remove table).get? k = some v) : k ∉ gone := by
  induction gone generalizing table with
  | nil => exact List.not_mem_nil
  | cons m gone ih =>
    have hremove : (table.remove m).get? k = some v := get?_foldl_remove h
    rw [IndexMap.get?_remove] at hremove
    split at hremove
    · simp at hremove
    · rename_i hne
      exact List.not_mem_cons_of_ne_of_not_mem hne (ih h)

theorem revokeOriginators_proven (revoked : List Mac) :
    (e.revokeOriginators revoked).proven = revoked.foldl IndexMap.remove e.proven := by
  induction revoked generalizing e with
  | nil => rfl
  | cons m revoked ih => exact ih

theorem retainProven_get? {usable : Mac → Bool} {m : Mac} {entry : Millis × Nat}
    (h : (e.retainProven now usable).proven.get? m = some entry) :
    e.proven.get? m = some entry := by
  unfold retainProven at h
  dsimp only at h
  split at h
  · exact h
  · exact get?_foldl_remove h

theorem retainProven_usable {usable : Mac → Bool} {m : Mac} {entry : Millis × Nat}
    (h : (e.retainProven now usable).proven.get? m = some entry) : usable m = true := by
  have hkey : m ∈ e.proven.keys :=
    List.mem_map.mpr ⟨(m, entry), IndexMap.get?_eq_some_iff.mp (retainProven_get? h), rfl⟩
  have hkept : m ∉ e.proven.keys.filter fun m => !usable m := by
    unfold retainProven at h
    dsimp only at h
    split at h
    · rename_i hempty
      rw [List.isEmpty_iff.mp hempty]
      exact List.not_mem_nil
    · exact not_mem_of_get?_foldl_remove h
  simpa [hkey] using hkept

/-- A sweep leaves only stamps it reads as younger than the ceiling. -/
theorem purgeStale_get? {m : Mac} {entry : Millis × Nat}
    (h : (e.purgeStale now).proven.get? m = some entry) :
    e.proven.get? m = some entry ∧
      (Millis.fromDuration now).elapsedSince entry.1 < stampAgeCeilingMs := by
  have hretain : (e.proven.retain fun _ p =>
      decide ((Millis.fromDuration now).elapsedSince p.1 < stampAgeCeilingMs)).get? m =
      some entry := h
  rw [IndexMap.get?_retain, Option.filter_eq_some_iff, decide_eq_true_eq] at hretain
  exact hretain

/-- After any operation, an entry was written by it, or stood before it and
passed the sweep, if the operation made one. -/
theorem step_proven {op : EngineOp} {m : Mac} {entry : Millis × Nat}
    (h : (e.step op).proven.get? m = some entry) :
    (∃ at_ iface, op = .noteProven at_ m iface ∧ entry = (Millis.fromDuration at_, iface)) ∨
      e.proven.get? m = some entry ∧ ∀ s, op.sweep? = some s →
        (Millis.fromDuration s).elapsedSince entry.1 < stampAgeCeilingMs := by
  have hstood : op.sweep? = none → e.proven.get? m = some entry →
      e.proven.get? m = some entry ∧ ∀ s, op.sweep? = some s →
        (Millis.fromDuration s).elapsedSince entry.1 < stampAgeCeilingMs := by
    intro hnone hget
    refine ⟨hget, ?_⟩
    intro s hs
    rw [hnone] at hs
    simp at hs
  cases op with
  | handleRx now frame localQuality replyLen out =>
    rw [step, (handleRx_gate frame localQuality replyLen out).proven] at h
    exact Or.inr (hstood rfl h)
  | noteProven now neighbor iface =>
    have hput : (insertEvictingOldest e.proven _ _ neighbor _).get? m = some entry := h
    rcases get?_insertEvictingOldest hput with ⟨rfl, heq⟩ | hget
    · exact Or.inl ⟨now, iface, rfl, heq⟩
    · exact Or.inr (hstood rfl hget)
  | purgeStale now =>
    obtain ⟨hget, hyoung⟩ := purgeStale_get? h
    refine Or.inr ⟨hget, ?_⟩
    rintro s ⟨⟩
    exact hyoung
  | producePeriodicBroadcast now =>
    have hpurged : (e.purgeStale now).proven.get? m = some entry := by
      rw [← (applyTopologyChange_kept (e.purgeStale now) now).proven]
      exact h
    obtain ⟨hget, hyoung⟩ := purgeStale_get? hpurged
    refine Or.inr ⟨hget, ?_⟩
    rintro s ⟨⟩
    exact hyoung
  | reset => exact absurd h (by simp [step, reset])
  | retainProven now usable => exact Or.inr (hstood rfl (retainProven_get? h))
  | revokeOriginators revoked =>
    rw [step, revokeOriginators_proven] at h
    exact Or.inr (hstood rfl (get?_foldl_remove h))
  | setLocalMcastGroups now groups =>
    refine Or.inr (hstood rfl ?_)
    unfold step setLocalMcastGroups at h
    dsimp only at h
    split at h <;> exact h
  | configureInterfaceOgm idx iMin iMax now =>
    refine Or.inr (hstood rfl ?_)
    unfold step configureInterfaceOgm at h
    dsimp only at h
    split at h <;> exact h
  | configureInterfaceKeepalive idx interval now =>
    refine Or.inr (hstood rfl ?_)
    unfold step configureInterfaceKeepalive at h
    dsimp only at h
    split at h <;> exact h
  | noteChallenged => exact Or.inr (hstood rfl h)
  | setRequireProof => exact Or.inr (hstood rfl h)
  | resetOgmTimers => exact Or.inr (hstood rfl h)
  | onInterfaceEmitted => exact Or.inr (hstood rfl h)
  | onKeepaliveEmitted => exact Or.inr (hstood rfl h)
  | nextBroadcastSeqno => exact Or.inr (hstood rfl h)

/-- `note_proven` wrote an entry for `m` at time `t`, and every state since, up to
the present one, still holds it. -/
def ProvenSince (e : BatmanEngine c) (ops : List EngineOp) (m : Mac) (t : Duration)
    (iface : Nat) : Prop :=
  ∃ pre post, ops = pre ++ .noteProven t m iface :: post ∧
    ∀ mid, mid <+: post →
      (e.run (pre ++ .noteProven t m iface :: mid)).proven.get? m =
        some (Millis.fromDuration t, iface)

theorem provenSince_of_get? {e : BatmanEngine c} (hfresh : e.proven = .empty)
    {ops : List EngineOp} {m : Mac} {entry : Millis × Nat}
    (h : (e.run ops).proven.get? m = some entry) :
    ∃ t iface, entry = (Millis.fromDuration t, iface) ∧ e.ProvenSince ops m t iface := by
  induction ops using List.reverseRecOn with
  | nil =>
    rw [run, Run.run_nil, hfresh, IndexMap.get?_empty] at h
    simp at h
  | append_singleton ops op ih =>
    have hnow := h
    rw [run, Run.run_append_singleton] at h
    rcases step_proven h with ⟨t, iface, rfl, hentry⟩ | ⟨hget, _⟩
    · refine ⟨t, iface, hentry, ops, [], rfl, ?_⟩
      intro mid hmid
      obtain rfl := List.prefix_nil.mp hmid
      rw [← hentry]
      exact hnow
    · obtain ⟨t, iface, hentry, pre, post, rfl, hstands⟩ := ih hget
      refine ⟨t, iface, hentry, pre, post ++ [op], by simp, ?_⟩
      intro mid hmid
      rcases List.prefix_concat_iff.mp hmid with rfl | hmid
      · rw [← hentry]
        simpa using hnow
      · exact hstands mid hmid

/-- Every sweep since the entry was written read it as younger than the ceiling. -/
theorem sweeps_read_young {e : BatmanEngine c} {pre post : List EngineOp} {m : Mac}
    {t : Duration} {iface : Nat}
    (hstands : ∀ mid, mid <+: post → (e.run (pre ++ .noteProven t m iface :: mid)).proven.get? m =
      some (Millis.fromDuration t, iface))
    {s : Duration} (hs : s ∈ post.filterMap EngineOp.sweep?) :
    (Millis.fromDuration s).elapsedSince (Millis.fromDuration t) < stampAgeCeilingMs := by
  obtain ⟨op, hop, hsweep⟩ := List.mem_filterMap.mp hs
  obtain ⟨before, after, rfl⟩ := List.append_of_mem hop
  have hafter := hstands (before ++ [op]) (by simp)
  have hstep : (e.run (pre ++ .noteProven t m iface :: (before ++ [op]))) =
      (e.run (pre ++ .noteProven t m iface :: before)).step op := by
    rw [← List.cons_append, ← List.append_assoc]
    exact Run.run_append_singleton op
  rw [hstep] at hafter
  rcases step_proven hafter with ⟨t', iface', rfl, _⟩ | ⟨_, hyoung⟩
  · simp [EngineOp.sweep?] at hsweep
  · exact hyoung s hsweep

end BatmanEngine

/-! ### Sweeps keep ages readable -/

namespace EngineOp

theorem SweptWithin.tail {gap : Nat} {last now : Duration} {pre rest : List EngineOp}
    (h : SweptWithin gap last (pre ++ rest) now) :
    ∃ last', (last' = last ∨ last' ∈ pre.filterMap sweep?) ∧ SweptWithin gap last' rest now := by
  induction pre generalizing last with
  | nil => exact ⟨last, Or.inl rfl, h⟩
  | cons op pre ih =>
    rw [List.cons_append, SweptWithin] at h
    cases hsweep : op.sweep? with
    | none =>
      rw [hsweep] at h
      rw [List.filterMap_cons_none hsweep]
      exact ih h
    | some s =>
      rw [hsweep] at h
      rw [List.filterMap_cons_some hsweep]
      obtain ⟨last', hlast', hrest⟩ := ih h.2
      refine ⟨last', Or.inr ?_, hrest⟩
      rcases hlast' with rfl | hmem
      · exact List.mem_cons_self ..
      · exact List.mem_cons_of_mem _ hmem

/-- The age of a stamp stays below the half range when every sweep since it was
taken let it pass: each sweep comes soon enough to read the age truly. -/
theorem SweptWithin.age_lt {t last now : Duration} {ops : List EngineOp}
    (hsoon : last.asMillis < t.asMillis + stampAgeCeilingMs)
    (hswept : SweptWithin sweepGapMs last ops now)
    (hlater : ∀ s ∈ ops.filterMap sweep?, t ≤ s)
    (hyoung : ∀ s ∈ ops.filterMap sweep?,
      (Millis.fromDuration s).elapsedSince (Millis.fromDuration t) < stampAgeCeilingMs) :
    now.asMillis < t.asMillis + 2 ^ 31 := by
  have hgap : stampAgeCeilingMs + sweepGapMs = 2 ^ 31 := by decide
  induction ops generalizing last with
  | nil =>
    rw [SweptWithin] at hswept
    omega
  | cons op ops ih =>
    rw [SweptWithin] at hswept
    cases hsweep : op.sweep? with
    | none =>
      rw [hsweep] at hswept
      rw [List.filterMap_cons_none hsweep] at hlater hyoung
      exact ih hsoon hswept hlater hyoung
    | some s =>
      rw [hsweep] at hswept
      rw [List.filterMap_cons_some hsweep] at hlater hyoung
      have hle : t.asMillis ≤ s.asMillis := Duration.asMillis_mono (hlater s (List.mem_cons_self ..))
      have hage := hyoung s (List.mem_cons_self ..)
      rw [Millis.elapsedSince_fromDuration hle (by omega)] at hage
      have hsoon' : s.asMillis < t.asMillis + stampAgeCeilingMs := by omega
      refine ih hsoon' hswept.2 ?_ ?_
      · exact fun s' hs' => hlater s' (List.mem_cons_of_mem _ hs')
      · exact fun s' hs' => hyoung s' (List.mem_cons_of_mem _ hs')

theorem time?_of_sweep? {op : EngineOp} {s : Duration} (h : op.sweep? = some s) :
    op.time? = some s := by
  cases op <;> simp_all [sweep?, time?]

theorem mem_times_of_sweep {ops : List EngineOp} {s : Duration}
    (h : s ∈ ops.filterMap sweep?) : s ∈ ops.filterMap time? := by
  obtain ⟨op, hop, hsweep⟩ := List.mem_filterMap.mp h
  exact List.mem_filterMap.mpr ⟨op, hop, time?_of_sweep? hsweep⟩

theorem Timed.around {start now t : Duration} {pre post : List EngineOp} {op : EngineOp}
    (h : Timed start (pre ++ op :: post) now) (hop : op.time? = some t) :
    start ≤ t ∧ (∀ s ∈ pre.filterMap time?, s ≤ t) ∧ (∀ s ∈ post.filterMap time?, t ≤ s) ∧
      t ≤ now := by
  rw [Timed, List.filterMap_append, List.filterMap_cons_some hop, List.append_assoc,
    List.cons_append, List.pairwise_cons, List.pairwise_append, List.pairwise_cons] at h
  obtain ⟨hstart, _, ⟨hpost, _⟩, hcross⟩ := h
  refine ⟨hstart t (by simp), ?_, ?_, hpost now (by simp)⟩
  · exact fun s hs => hcross s hs t (List.mem_cons_self ..)
  · exact fun s hs => hpost s (List.mem_append_left _ hs)

end EngineOp

namespace BatmanEngine


/-- A run of operations with nondecreasing times: with proof required, a next hop
was proven by a `note_proven` whose entry stands to this day, and its age is within
the lifetime, or past the half range of a stamp when sweeps fail to run. And no
frame makes a neighbor a hop that had no current proof before. -/
theorem nextHop_gated (c : Capacities) (selfIdent : Mac) (start now : Duration)
    (ops frames : List EngineOp) (dest m : Mac) (htimed : EngineOp.Timed start ops now)
    (hframes : ∀ op ∈ frames, op.isFrame = true) :
    let e := (new c selfIdent).run ops
    e.requireProof = true →
      (e.nextHop now dest = some m → ∃ t iface, (new c selfIdent).ProvenSince ops m t iface ∧
        (now.asMillis - t.asMillis ≤ e.proofLifetimeMs ∨ 2 ^ 31 ≤ now.asMillis - t.asMillis) ∧
        (EngineOp.SweptWithin sweepGapMs start ops now →
          now.asMillis - t.asMillis ≤ e.proofLifetimeMs)) ∧
      ((e.run frames).nextHop now dest = some m → e.proofCurrent now m = true) := by
  intro e hreq
  refine ⟨?_, ?_⟩
  · intro hhop
    obtain ⟨entry, hentry, hage⟩ := proofCurrent_entry hreq (nextHop_proofCurrent hhop)
    obtain ⟨t, iface, rfl, hsince⟩ := provenSince_of_get? rfl hentry
    obtain ⟨pre, post, rfl, hstands⟩ := hsince
    obtain ⟨hstart, hpre, hpost, hnow⟩ := htimed.around rfl
    have hle : t.asMillis ≤ now.asMillis := Duration.asMillis_mono hnow
    have hread : now.asMillis - t.asMillis < 2 ^ 31 →
        now.asMillis - t.asMillis ≤ e.proofLifetimeMs := by
      intro hlt
      rw [← Millis.elapsedSince_fromDuration hle hlt]
      exact hage
    refine ⟨t, iface, ⟨pre, post, rfl, hstands⟩, ?_, ?_⟩
    · rcases Nat.lt_or_ge (now.asMillis - t.asMillis) (2 ^ 31) with hlt | hge
      · exact Or.inl (hread hlt)
      · exact Or.inr hge
    · intro hswept
      obtain ⟨last, hlast, hrest⟩ := hswept.tail
      have hlastle : last ≤ t := by
        rcases hlast with rfl | hmem
        · exact hstart
        · exact hpre last (EngineOp.mem_times_of_sweep hmem)
      have hceil : 0 < stampAgeCeilingMs := by decide
      have hlt := EngineOp.SweptWithin.age_lt (t := t)
        (Nat.lt_of_le_of_lt (Duration.asMillis_mono hlastle) (Nat.lt_add_of_pos_right hceil))
        hrest (fun s hs => hpost s (EngineOp.mem_times_of_sweep hs))
        (fun s hs => sweeps_read_young hstands hs)
      exact hread (by omega)
  · intro hhop
    rw [← (run_frames_gate hframes).proofCurrent]
    exact nextHop_proofCurrent hhop

/-- Node 2 answers a challenge at time zero, and offers a route to node 4. -/
def provenOnce : List EngineOp :=
  [.setRequireProof true, .noteProven 0 (Mac.low 2) 0,
    .handleRx 0 (ogmFrom (Mac.low 2) (Mac.low 4) 1 200) none 64 .unbounded]

theorem nextHop_gated_provenOnce :
    ((new smallCapacities (Mac.low 1)).run provenOnce).nextHop (Duration.ofSecs 1) (Mac.low 4) =
        some (Mac.low 2) ∧
      ∃ t iface, (new smallCapacities (Mac.low 1)).ProvenSince provenOnce (Mac.low 2) t iface ∧
        (Duration.ofSecs 1).asMillis - t.asMillis ≤
          ((new smallCapacities (Mac.low 1)).run provenOnce).proofLifetimeMs := by
  have hhop : ((new smallCapacities (Mac.low 1)).run provenOnce).nextHop (Duration.ofSecs 1)
      (Mac.low 4) = some (Mac.low 2) := by
    decide
  have hgated := nextHop_gated smallCapacities (Mac.low 1) 0 (Duration.ofSecs 1) provenOnce []
    (Mac.low 4) (Mac.low 2) (by decide) (by simp) (by decide)
  obtain ⟨t, iface, hsince, _, hage⟩ := hgated.1 hhop
  refine ⟨hhop, t, iface, hsince, hage ?_⟩
  rw [provenOnce]
  simp only [EngineOp.SweptWithin, EngineOp.sweep?]
  decide

/-- Without a sweep for 24.8 days, the proof of time zero is read as fresh. -/
theorem unswept_proof_revives :
    ((new smallCapacities (Mac.low 1)).run provenOnce).requireProof = true ∧
      ((new smallCapacities (Mac.low 1)).run provenOnce).nextHop (Duration.ofMillis (2 ^ 31))
        (Mac.low 4) = some (Mac.low 2) ∧
      ∀ t iface, (new smallCapacities (Mac.low 1)).ProvenSince provenOnce (Mac.low 2) t iface →
        ¬ (Duration.ofMillis (2 ^ 31)).asMillis - t.asMillis ≤
          ((new smallCapacities (Mac.low 1)).run provenOnce).proofLifetimeMs := by
  refine ⟨by decide, by decide, ?_⟩
  rintro t iface ⟨pre, post, heq, _⟩
  have hmem : EngineOp.noteProven t (Mac.low 2) iface ∈ provenOnce := by
    rw [heq]
    simp
  have hzero : t = 0 := by
    simp only [provenOnce, List.mem_cons, EngineOp.noteProven.injEq, reduceCtorEq, false_or,
      List.not_mem_nil, or_false] at hmem
    exact hmem.1
  rw [hzero]
  decide

end BatmanEngine

end Wayfinder
