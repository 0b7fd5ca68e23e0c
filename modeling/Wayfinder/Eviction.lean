import Wayfinder.BestRoute
import Wayfinder.Lib.Eviction

/-!
# Admitting the newest, evicting the oldest

Five tables of the engine share one policy, each in code of its own: a key that is
not in the table is entered, and a full table first drops the entry with the largest
elapsed time. Two of the five try the insertion and evict when it fails, two evict
before they insert, and the originator table evicts by a field of the record it
chose. That field is the key of the record in every state of a run.
-/

namespace Wayfinder

set_option autoImplicit false

open Table

/-- The silence of a stamped entry, read from the wrapping clock. -/
def ageAt {V : Type} (stamp : V → Millis) (now : Duration) (v : V) : Nat :=
  (Millis.fromDuration now).elapsedSince (stamp v)

/-- The times at which the entries of a table were stamped, none of them later than
`now` or further back than half the clock's range. -/
def SeenAt {V : Type} {n : Nat} (stamp : V → Millis) (now : Duration) (m : IndexMap Mac V n)
    (seen : Mac → Duration) : Prop :=
  ∀ k v, m.get? k = some v →
    stamp v = Millis.fromDuration (seen k) ∧ (seen k).asMillis ≤ now.asMillis ∧
      now.asMillis - (seen k).asMillis < 2 ^ 31

/-- A newcomer is entered with the current stamp. A full table gives up one other
entry, with the largest elapsed time; where the stamps are within the clock's range,
it is the entry that was stamped first. -/
structure Admits {V : Type} {n : Nat} (stamp : V → Millis) (now : Duration) (k : Mac)
    (m m' : IndexMap Mac V n) : Prop where
  present : (m'.get? k).map stamp = some (Millis.fromDuration now)
  others : IndexMap.MakesRoom (ageAt stamp now) k m m'
  earliest : ∀ seen, SeenAt stamp now m seen → ∀ gone, m.get? gone ≠ none → m'.get? gone = none →
    ∀ k' v, m.get? k' = some v → (seen gone).asMillis ≤ (seen k').asMillis

section Admits
variable {V : Type} {n : Nat} {stamp : V → Millis} {now : Duration} {k : Mac}
  {m m' : IndexMap Mac V n}

theorem ageAt_seen {seen : Mac → Duration} (hseen : SeenAt stamp now m seen) {k' : Mac} {v : V}
    (hv : m.get? k' = some v) :
    ageAt stamp now v = now.asMillis - (seen k').asMillis := by
  obtain ⟨hstamp, hle, hrange⟩ := hseen k' v hv
  rw [ageAt, hstamp]
  exact Millis.elapsedSince_fromDuration hle hrange

/-- The one entry that is gone is the oldest. -/
theorem oldest_of_gone (hothers : IndexMap.MakesRoom (ageAt stamp now) k m m')
    (hpresent : m'.get? k ≠ none) {gone : Mac} (hheld : m.get? gone ≠ none)
    (hgone : m'.get? gone = none) : m.IsOldest (ageAt stamp now) gone := by
  have hne : gone ≠ k := by
    rintro rfl
    exact hpresent hgone
  have hbounded : m.len ≤ n := m.bounded
  rcases Nat.lt_or_ge m.len n with hlt | hge
  · rw [hothers.room hlt gone hne] at hgone
    exact absurd hgone hheld
  · obtain ⟨old, holdest, _, hrest⟩ := hothers.full (Nat.le_antisymm hbounded hge)
    have hat := hrest gone hne
    by_cases heq : gone = old
    · rw [heq]
      exact holdest
    · rw [if_neg heq, hgone] at hat
      exact absurd hat.symm hheld

theorem Admits.of_makesRoom (hpresent : (m'.get? k).map stamp = some (Millis.fromDuration now))
    (hothers : IndexMap.MakesRoom (ageAt stamp now) k m m') : Admits stamp now k m m' where
  present := hpresent
  others := hothers
  earliest seen hseen gone hheld hgone k' v hv := by
    have hfound : m'.get? k ≠ none := by
      intro hnone
      rw [hnone] at hpresent
      cases hpresent
    obtain ⟨w, hw, hmost⟩ := oldest_of_gone hothers hfound hheld hgone
    have hage := hmost k' v hv
    rw [ageAt_seen hseen hv, ageAt_seen hseen hw] at hage
    have hle := (hseen gone w hw).2.1
    have hle' := (hseen k' v hv).2.1
    omega

theorem admits_putNewest {v : V} (hpos : 0 < n) (habsent : m.get? k = none)
    (hstamp : stamp v = Millis.fromDuration now) :
    Admits stamp now k m (m.putNewest (ageAt stamp now) k v) := by
  apply Admits.of_makesRoom
  · rw [IndexMap.get?_putNewest _ hpos, if_pos rfl, Option.map_some, hstamp]
  · exact IndexMap.putNewest_makesRoom v hpos habsent

end Admits

namespace BatmanEngine

variable {c : Capacities} {e : BatmanEngine c}

theorem maxOriginators_pos (c : Capacities) : 0 < c.maxOriginators := by
  obtain ⟨i, hi⟩ := c.originators_pow
  rw [hi]
  exact Nat.two_pow_pos i

/-! ### The five insertions -/

/-- Inserting first and evicting on failure is making room first. -/
theorem insertEvictingOldest_eq {V : Type} {n : Nat} (m : IndexMap Mac V n) (now : Duration)
    (stamp : V → Millis) {k : Mac} (v : V) (habsent : m.get? k = none) :
    insertEvictingOldest m (Millis.fromDuration now) stamp k v =
      m.putNewest (ageAt stamp now) k v := by
  unfold insertEvictingOldest IndexMap.putNewest
  rcases Nat.lt_or_ge m.len n with hlt | hge
  · obtain ⟨m', hm'⟩ := IndexMap.insert_isSome (v := v) (k := k) (Or.inr hlt)
    rw [IndexMap.makeRoom_of_lt _ hlt, IndexMap.insertD, hm']
    rfl
  · have hnone := IndexMap.insert_of_full (v := v) habsent hge
    rw [hnone]
    unfold IndexMap.makeRoom
    rw [if_pos hge]
    dsimp only [ageAt]
    cases maxByKey (fun e : Mac × V => (Millis.fromDuration now).elapsedSince (stamp e.2))
        m.entries with
    | some oldest => rfl
    | none =>
      dsimp only
      rw [IndexMap.insertD, hnone]
      rfl

theorem noteProven_admits (now : Duration) {neighbor : Mac} (iface : Nat)
    (habsent : e.proven.get? neighbor = none) :
    Admits Prod.fst now neighbor e.proven (e.noteProven now neighbor iface).proven := by
  have hput : (e.noteProven now neighbor iface).proven =
      e.proven.putNewest (ageAt Prod.fst now) neighbor (Millis.fromDuration now, iface) :=
    insertEvictingOldest_eq e.proven now Prod.fst _ habsent
  rw [hput]
  exact admits_putNewest (maxOriginators_pos c) habsent rfl

theorem noteChallenged_admits (now : Duration) {neighbor : Mac}
    (habsent : e.challenged.get? neighbor = none) :
    Admits Prod.fst now neighbor e.challenged (e.noteChallenged now neighbor).challenged := by
  unfold noteChallenged
  dsimp only
  rw [insertEvictingOldest_eq e.challenged now Prod.fst _ habsent]
  exact admits_putNewest (maxOriginators_pos c) habsent rfl

theorem noteKeepalive_admits (now : Duration) {neighbor : Mac}
    (habsent : e.keepalive.get? neighbor = none) :
    Admits KeepAliveStats.lastHeard now neighbor e.keepalive
      (e.noteKeepalive now neighbor).keepalive := by
  have hcontains : ¬ e.keepalive.contains neighbor = true := by
    rw [IndexMap.contains_eq_isSome, habsent]
    exact Bool.false_ne_true
  have hput : (e.noteKeepalive now neighbor).keepalive =
      e.keepalive.putNewest (ageAt KeepAliveStats.lastHeard now) neighbor
        ⟨Millis.fromDuration now, 0⟩ := by
    unfold noteKeepalive IndexMap.putNewest IndexMap.makeRoom
    dsimp only [ageAt]
    rw [if_neg hcontains]
    split
    · cases maxByKey (fun s : Mac × KeepAliveStats =>
          (Millis.fromDuration now).elapsedSince s.2.lastHeard) e.keepalive.entries with
      | some oldest => rfl
      | none => rfl
    · rfl
  rw [hput]
  exact admits_putNewest (maxOriginators_pos c) habsent rfl

/-- A broadcast of an originator without an entry is acted on, and remembered. -/
theorem admitBroadcast_admits (now : Duration) {orig : Mac} (seqno : U32)
    (habsent : e.broadcastSeqno.get? orig = none) :
    (e.admitBroadcast now orig seqno).2 = true ∧
      Admits BroadcastSeqnoEntry.lastUpdated now orig e.broadcastSeqno
        (e.admitBroadcast now orig seqno).1.broadcastSeqno := by
  obtain ⟨table, htable⟩ := IndexMap.insert_isSome (k := orig)
    (v := BroadcastSeqnoEntry.seeded seqno now)
    (Or.inr (IndexMap.len_makeRoom (m := e.broadcastSeqno)
      (ageAt BroadcastSeqnoEntry.lastUpdated now) (maxOriginators_pos c)))
  obtain ⟨hfresh, hput⟩ : (e.admitBroadcast now orig seqno).2 = true ∧
      (e.admitBroadcast now orig seqno).1.broadcastSeqno =
        e.broadcastSeqno.putNewest (ageAt BroadcastSeqnoEntry.lastUpdated now) orig
          (BroadcastSeqnoEntry.seeded seqno now) := by
    rw [IndexMap.putNewest, IndexMap.insertD, htable]
    unfold IndexMap.makeRoom at htable
    dsimp only [ageAt] at htable
    unfold admitBroadcast
    rw [habsent]
    dsimp only
    split at htable
    · rename_i hfull
      rw [if_pos hfull]
      cases hmax : maxByKey (fun s : Mac × BroadcastSeqnoEntry =>
          (Millis.fromDuration now).elapsedSince s.2.lastUpdated) e.broadcastSeqno.entries with
      | some oldest =>
        rw [hmax] at htable
        dsimp only at htable ⊢
        rw [htable]
        exact ⟨rfl, rfl⟩
      | none =>
        rw [hmax] at htable
        dsimp only at htable ⊢
        rw [htable]
        exact ⟨rfl, rfl⟩
    · rename_i hfree
      rw [if_neg hfree]
      rw [htable]
      exact ⟨rfl, rfl⟩
  refine ⟨hfresh, ?_⟩
  rw [hput]
  exact admits_putNewest (maxOriginators_pos c) habsent rfl

/-! ### The originator table -/

/-- Every record is stored under its own `neighbor_ident`. -/
def RecordsKeyed (e : BatmanEngine c) : Prop :=
  ∀ k r, (k, r) ∈ e.originatorTable.entries → r.neighborIdent = k

theorem RecordsKeyed.of_table {e' : BatmanEngine c} (h : e.RecordsKeyed)
    (ht : e'.originatorTable = e.originatorTable) : e'.RecordsKeyed := by
  rw [RecordsKeyed, ht]
  exact h

/-- A record's `neighbor_ident` removes the record itself. -/
theorem ensureOriginator_eq (h : e.RecordsKeyed) (now : Duration) {orig : Mac}
    (habsent : e.originatorTable.get? orig = none) :
    (e.ensureOriginator now orig).originatorTable =
      e.originatorTable.putNewest (ageAt OriginatorRecord.lastHeard now) orig
        { lastSeqno := 0
          resyncWatch := none
          lastHeard := Millis.fromDuration now
          neighborIdent := orig
          bestNextHop := none
          maxTq := 0
          paths := .empty } := by
  have hcontains : ¬ e.originatorTable.contains orig = true := by
    rw [IndexMap.contains_eq_isSome, habsent]
    exact Bool.false_ne_true
  -- choosing among the records is choosing among the entries
  have hchoice : maxByKey (fun r : OriginatorRecord =>
        (Millis.fromDuration now).elapsedSince r.lastHeard) e.originatorTable.values =
      (maxByKey (fun s : Mac × OriginatorRecord =>
        ageAt OriginatorRecord.lastHeard now s.2) e.originatorTable.entries).map Prod.snd :=
    maxByKey_map (fun _ => rfl) e.originatorTable.entries
  unfold ensureOriginator IndexMap.putNewest IndexMap.makeRoom
  rw [if_neg hcontains]
  dsimp only
  rw [hchoice]
  split
  · cases hmax : maxByKey (fun s : Mac × OriginatorRecord =>
        ageAt OriginatorRecord.lastHeard now s.2) e.originatorTable.entries with
    | none => rfl
    | some oldest =>
      have hkey := h oldest.1 oldest.2 (maxByKey_spec hmax).1
      dsimp only [Option.map_some]
      rw [hkey]
  · rfl

theorem ensureOriginator_admits (h : e.RecordsKeyed) (now : Duration) {orig : Mac}
    (habsent : e.originatorTable.get? orig = none) :
    Admits OriginatorRecord.lastHeard now orig e.originatorTable
      (e.ensureOriginator now orig).originatorTable := by
  rw [ensureOriginator_eq h now habsent]
  exact admits_putNewest (maxOriginators_pos c) habsent rfl

/-- The `expect` behind the insertion finds the record. -/
theorem ensureOriginator_found (h : e.RecordsKeyed) (now : Duration) (orig : Mac) :
    (e.ensureOriginator now orig).originatorTable.get? orig ≠ none := by
  cases hget : e.originatorTable.get? orig with
  | some r =>
    rw [ensureOriginator_known hget, hget]
    exact Option.some_ne_none r
  | none =>
    have hpresent := (ensureOriginator_admits h now hget).present
    intro hnone
    rw [hnone] at hpresent
    cases hpresent

/-! What an OGM makes of a record keeps its name; a first one stamps it. -/

section Record
variable (record : OriginatorRecord) (src : Mac) (tq : U8) (seqno : U32) (srcProven : Bool)
  (nowMs : Millis) (now : Duration)

theorem learnPath_kept :
    (learnPath record src tq seqno nowMs).neighborIdent = record.neighborIdent ∧
      (learnPath record src tq seqno nowMs).lastHeard = record.lastHeard := by
  unfold learnPath
  split
  · exact ⟨rfl, rfl⟩
  · exact ⟨rfl, rfl⟩

theorem selectNextHop_kept :
    (selectNextHop record src tq srcProven).neighborIdent = record.neighborIdent ∧
      (selectNextHop record src tq srcProven).lastHeard = record.lastHeard := by
  unfold selectNextHop
  split
  · split
    · exact ⟨rfl, rfl⟩
    · exact ⟨rfl, rfl⟩
  · split
    · exact ⟨rfl, rfl⟩
    · exact ⟨rfl, rfl⟩

theorem learnOgm_neighborIdent (admission : SeqnoAdmission) :
    (learnOgm record admission src tq seqno srcProven nowMs).neighborIdent =
      record.neighborIdent := by
  unfold learnOgm
  dsimp only
  rw [(selectNextHop_kept _ _ _ _).1, (learnPath_kept _ _ _ _ _).1]
  split
  · rfl
  · rfl

theorem ogmRecord_neighborIdent (isNew : Bool) :
    (ogmRecord record isNew srcProven now src tq seqno).1.neighborIdent =
      record.neighborIdent := by
  have hadmitted : (admitOgm record isNew seqno now).1.neighborIdent = record.neighborIdent := by
    unfold admitOgm
    split
    · rfl
    · rfl
  unfold ogmRecord
  dsimp only
  split
  · exact hadmitted
  · rw [learnOgm_neighborIdent]
    exact hadmitted

theorem ogmRecord_new_lastHeard :
    (ogmRecord record true srcProven now src tq seqno).1.lastHeard =
      Millis.fromDuration now := by
  show (learnOgm { record with lastSeqno := seqno } .advanced src tq seqno srcProven
    (Millis.fromDuration now)).lastHeard = Millis.fromDuration now
  unfold learnOgm
  dsimp only
  rw [(selectNextHop_kept _ _ _ _).2, (learnPath_kept _ _ _ _ _).2]
  rfl

theorem recomputeBest_neighborIdent (selectable : Mac → Bool) :
    (recomputeBest record selectable).neighborIdent = record.neighborIdent := by
  unfold recomputeBest
  split
  · rfl
  · rfl

end Record

/-- An OGM of an unknown originator enters it, as heard now. -/
theorem handleRx_admits (h : e.RecordsKeyed) {now : Duration} {frame : LinkFrame}
    {localQuality : Option U8} {replyLen : Nat} {out : FrameSink} {ogm : BatmanOgmPacket}
    {tail : Bytes} (haccepted : e.acceptedOgm? frame = some (ogm, tail))
    (habsent : e.originatorTable.get? ogm.orig = none) :
    Admits OriginatorRecord.lastHeard now ogm.orig e.originatorTable
      (e.handleRx now frame localQuality replyLen out).engine.originatorTable := by
  have hadmits := ensureOriginator_admits h now habsent
  rcases e.handleRx_cases now frame localQuality replyLen out with
    ⟨hnone, _⟩ | ⟨ogm', tail', hsome, heq⟩
  · rw [haccepted] at hnone
    cases hnone
  · rw [haccepted] at hsome
    obtain ⟨rfl, rfl⟩ := Prod.mk.inj (Option.some.inj hsome)
    have htable := (e.acceptOgm_spec now frame localQuality replyLen ogm tail).2
    cases hget : (e.ensureOriginator now ogm.orig).originatorTable.get? ogm.orig with
    | none => exact absurd hget (ensureOriginator_found h now ogm.orig)
    | some record =>
      rw [hget] at htable
      dsimp only at htable
      rw [heq, htable]
      have hcontains : (!e.originatorTable.contains ogm.orig) = true := by
        rw [IndexMap.contains_eq_isSome, habsent]
        rfl
      apply Admits.of_makesRoom
      · rw [IndexMap.get?_modify, if_pos rfl, hget, ogmUpdate, hcontains]
        simp only [Option.map_some, ogmRecord_new_lastHeard]
      · exact hadmits.others.modify _

/-! ### Records stay under their own names -/

theorem ensureOriginator_keyed (h : e.RecordsKeyed) (now : Duration) (orig : Mac) :
    (e.ensureOriginator now orig).RecordsKeyed := by
  cases hget : e.originatorTable.get? orig with
  | some r => rwa [ensureOriginator_known hget]
  | none =>
    intro k r hr
    rw [ensureOriginator_eq h now hget] at hr
    rcases IndexMap.mem_putNewest hr with hmem | heq
    · exact h k r hmem
    · obtain ⟨rfl, rfl⟩ := Prod.mk.inj heq
      rfl

theorem acceptOgm_keyed (h : e.RecordsKeyed) (now : Duration) (frame : LinkFrame)
    (localQuality : Option U8) (replyLen : Nat) (ogm : BatmanOgmPacket) (tail : Bytes) :
    (e.acceptOgm now frame localQuality replyLen ogm tail).1.RecordsKeyed := by
  have hensured := ensureOriginator_keyed h now ogm.orig
  rw [RecordsKeyed, (e.acceptOgm_spec now frame localQuality replyLen ogm tail).2]
  split
  · exact hensured
  · rename_i record hrecord
    intro k r hr
    rcases IndexMap.mem_modify.mp hr with ⟨_, hmem⟩ | ⟨hk, _, _, hnew⟩
    · exact hensured k r hmem
    · dsimp only at hk hnew
      rw [hk, hnew, ogmUpdate, ogmRecord_neighborIdent]
      exact hensured ogm.orig record (IndexMap.get?_eq_some_iff.mp hrecord)

theorem RecordsKeyed.mapEntries (h : e.RecordsKeyed) {f : Mac → OriginatorRecord → OriginatorRecord}
    (hf : ∀ k r, (f k r).neighborIdent = r.neighborIdent) :
    ∀ k r, (k, r) ∈ (e.originatorTable.mapEntries f).entries → r.neighborIdent = k := by
  intro k r hr
  obtain ⟨r', hr', heq⟩ := IndexMap.mem_mapEntries.mp hr
  dsimp only at heq
  rw [heq, hf]
  exact h k r' hr'

theorem recomputeAllBest_keyed (h : e.RecordsKeyed) (now : Duration) :
    (e.recomputeAllBest now).RecordsKeyed :=
  h.mapEntries fun _ r => recomputeBest_neighborIdent r _

theorem purgeStale_keyed (h : e.RecordsKeyed) (now : Duration) :
    (e.purgeStale now).RecordsKeyed := by
  intro k r hr
  have hkept := (IndexMap.mem_retain.mp hr).1
  have hpruned : ({ e with
      originatorTable := e.originatorTable.mapEntries fun _ r => prunePaths r fun p =>
        !pathStale (Millis.fromDuration now) p e.seedIntervalMs } : BatmanEngine c).RecordsKeyed :=
    h.mapEntries fun _ _ => rfl
  exact recomputeAllBest_keyed hpruned now k r hkept

theorem revokeOriginators_keyed (h : e.RecordsKeyed) (revoked : List Mac) :
    (e.revokeOriginators revoked).RecordsKeyed := by
  intro k r hr
  obtain ⟨_, r', hr', rfl⟩ := mem_revokeOriginators.mp hr
  exact h k r' hr'

theorem step_keyed (h : e.RecordsKeyed) (op : EngineOp) : (e.step op).RecordsKeyed := by
  cases op with
  | handleRx now frame localQuality replyLen out =>
    rcases e.handleRx_cases now frame localQuality replyLen out with
      ⟨_, hkept⟩ | ⟨ogm, tail, _, heq⟩
    · exact h.of_table hkept.table
    · rw [step, heq]
      exact acceptOgm_keyed h now frame localQuality replyLen ogm tail
  | noteProven now neighbor iface =>
    apply recomputeAllBest_keyed
    exact h
  | noteChallenged => exact h
  | setRequireProof => exact h
  | purgeStale now => exact purgeStale_keyed h now
  | reset =>
    intro k r hr
    cases hr
  | retainProven now usable =>
    unfold step retainProven
    dsimp only
    split
    · exact h
    · apply recomputeAllBest_keyed
      exact h
  | revokeOriginators revoked => exact revokeOriginators_keyed h revoked
  | resetOgmTimers => exact h
  | setLocalMcastGroups now groups => exact h.of_table (setLocalMcastGroups_table now groups)
  | configureInterfaceOgm idx iMin iMax now =>
    exact h.of_table (configureInterfaceOgm_table idx iMin iMax now)
  | configureInterfaceKeepalive idx interval now =>
    exact h.of_table (configureInterfaceKeepalive_table idx interval now)
  | onInterfaceEmitted => exact h
  | onKeepaliveEmitted => exact h
  | producePeriodicBroadcast now =>
    exact (purgeStale_keyed h now).of_table (producePeriodicBroadcast_table now)
  | nextBroadcastSeqno => exact h

theorem run_keyed (c : Capacities) (selfIdent : Mac) (ops : List EngineOp) :
    ((new c selfIdent).run ops).RecordsKeyed := by
  apply Run.invariant
  · intro k r hr
    cases hr
  · exact fun _ op h => step_keyed h op

/-! ### The law of the five tables -/

structure WithinCapacity (e : BatmanEngine c) : Prop where
  originators : e.originatorTable.len ≤ c.maxOriginators
  proven : e.proven.len ≤ c.maxOriginators
  challenged : e.challenged.len ≤ c.maxOriginators
  keepalive : e.keepalive.len ≤ c.maxOriginators
  broadcasts : e.broadcastSeqno.len ≤ c.maxOriginators

theorem withinCapacity (e : BatmanEngine c) : e.WithinCapacity :=
  ⟨e.originatorTable.bounded, e.proven.bounded, e.challenged.bounded, e.keepalive.bounded,
    e.broadcastSeqno.bounded⟩

/-- Each of the five insertions, at any time and of any absent key, enters the key
with the current stamp and makes room by dropping the oldest. -/
structure AdmitsNewest (e : BatmanEngine c) : Prop where
  originator : ∀ now frame localQuality replyLen out ogm tail,
    e.acceptedOgm? frame = some (ogm, tail) → e.originatorTable.get? ogm.orig = none →
      Admits OriginatorRecord.lastHeard now ogm.orig e.originatorTable
        (e.handleRx now frame localQuality replyLen out).engine.originatorTable
  proof : ∀ now neighbor iface, e.proven.get? neighbor = none →
    Admits Prod.fst now neighbor e.proven (e.noteProven now neighbor iface).proven
  challenge : ∀ now neighbor, e.challenged.get? neighbor = none →
    Admits Prod.fst now neighbor e.challenged (e.noteChallenged now neighbor).challenged
  heartbeat : ∀ now neighbor, e.keepalive.get? neighbor = none →
    Admits KeepAliveStats.lastHeard now neighbor e.keepalive
      (e.noteKeepalive now neighbor).keepalive
  broadcast : ∀ now orig seqno, e.broadcastSeqno.get? orig = none →
    (e.admitBroadcast now orig seqno).2 = true ∧
      Admits BroadcastSeqnoEntry.lastUpdated now orig e.broadcastSeqno
        (e.admitBroadcast now orig seqno).1.broadcastSeqno

/-- In every state of every run, records are stored under their own names, the five
tables are within capacity and admit the newest at the cost of the oldest, and the
record an OGM is about to write is there. -/
theorem tables_admit_newest (c : Capacities) (selfIdent : Mac) (ops : List EngineOp) :
    ((new c selfIdent).run ops).RecordsKeyed ∧
      ((new c selfIdent).run ops).WithinCapacity ∧
      ((new c selfIdent).run ops).AdmitsNewest ∧
      ∀ now orig, (((new c selfIdent).run ops).ensureOriginator now orig).originatorTable.get?
        orig ≠ none := by
  have hkeyed := run_keyed c selfIdent ops
  refine ⟨hkeyed, withinCapacity _, ?_, fun now orig => ensureOriginator_found hkeyed now orig⟩
  exact
    { originator := fun _ _ _ _ _ _ _ hacc habsent => handleRx_admits hkeyed hacc habsent
      proof := fun now _ iface habsent => noteProven_admits now iface habsent
      challenge := fun now _ habsent => noteChallenged_admits now habsent
      heartbeat := fun now _ habsent => noteKeepalive_admits now habsent
      broadcast := fun now _ seqno habsent => admitBroadcast_admits now seqno habsent }

end BatmanEngine

end Wayfinder
