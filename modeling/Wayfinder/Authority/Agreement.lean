import Wayfinder.Authority.Persistence
import Wayfinder.Authority.Run

/-!
# Memory and database agree

Whatever the calls and whichever of their commits fail, the rows of the store decode to the
log in memory, collection by collection up to order, and the index has the rows of every
body. So a commit only deletes rows that are there, and a restart reads the same log back.
-/

namespace Wayfinder

set_option autoImplicit false

open Content Fallible

/-! ### What is written reads back -/

section Reading
variable {j : Codecs} {b : Bytes} {c : Collection} {r : Record}

theorem decodeBody_encodeRecord (hj : j.RoundTrips) (h : encodeRecord j r = .ok b) :
    decodeBody j b r.collection = .ok r := by
  cases r with
  | issued c =>
    have hread := hj.issued _ _ (ok_of_mapError h)
    simp [decodeBody, Record.collection, hread, Except.mapError, Except.map,
      IssuedRecord.toProto_fromProto]
  | held h' =>
    have hread := hj.held _ _ (ok_of_mapError h)
    simp [decodeBody, Record.collection, hread, Except.mapError, Except.map]
  | policy p =>
    have hread := hj.policy _ _ (ok_of_mapError h)
    simp [decodeBody, Record.collection, hread, Except.mapError, Except.map]
  | users u =>
    have hread := hj.users _ _ (ok_of_mapError h)
    simp [decodeBody, Record.collection, hread, Except.mapError, Except.map]
  | invites i =>
    have hread := hj.invites _ _ (ok_of_mapError h)
    simp [decodeBody, Record.collection, hread, Except.mapError, Except.map]
  | revocations r =>
    have hread := RevocationRecord.readFromPrefix_asBytes r []
    rw [List.append_nil] at hread
    obtain rfl := Except.ok.inj h
    simp [decodeBody, Record.collection, hread]

theorem collection_of_decodeBody (h : decodeBody j b c = .ok r) : r.collection = c := by
  have hmap : ∀ {α : Type} {x : Except String α} {f : α → Record}, x.map f = .ok r →
      ∃ a, r = f a := by
    intro α x f hx
    cases x with
    | error e => cases hx
    | ok a => exact ⟨a, (Except.ok.inj hx).symm⟩
  cases c with
  | revocations =>
    rw [decodeBody] at h
    split at h
    · rw [← Except.ok.inj h]
      rfl
    · cases h
  | _ =>
    obtain ⟨a, rfl⟩ := hmap h
    rfl

theorem decodeRow_ok {row : StoredRow} :
    decodeRow j row = .ok r ↔ decodeBody j row.body row.collection = .ok r := by
  constructor
  · exact ok_of_mapError
  · intro h
    rw [decodeRow, h]
    rfl

theorem foldlM_push (rows : List StoredRow) (acc : CaLogState × Nat) :
    rows.foldlM (fun (acc : CaLogState × Nat) row => do
        let record ← decodeRow j row
        pure (acc.1.push record, if record.collection = .policy then acc.2 + 1 else acc.2)) acc =
      (rows.mapM (decodeRow j)).map fun records =>
        (records.foldl CaLogState.push acc.1,
          acc.2 + (records.filter fun r => r.collection = .policy).length) := by
  induction rows generalizing acc with
  | nil => rfl
  | cons row rows ih =>
    rw [List.foldlM_cons, List.mapM_cons]
    cases hrow : decodeRow j row with
    | error e => rfl
    | ok record =>
      refine (ih _).trans ?_
      cases hrows : rows.mapM (decodeRow j) with
      | error e =>
        simp only [Except.map, bind, Except.bind]
      | ok records =>
        by_cases hpolicy : record.collection = .policy
        · simp only [Except.map, bind, Except.bind, pure, Except.pure, hpolicy, List.foldl_cons,
            if_true, decide_true, List.filter_cons_of_pos, List.length_cons]
          rw [Nat.add_assoc, Nat.add_comm 1]
        · simp [Except.map, bind, Except.bind, pure, Except.pure, hpolicy]

end Reading

/-! ### Collecting -/

section Collecting

theorem records_push {s : CaLogState} {r : Record} {c : Collection} (hc : c ≠ .policy) :
    (s.push r).records c = s.records c ++ if r.collection = c then [r] else [] := by
  cases r <;> cases c <;>
    simp [CaLogState.push, CaLogState.records, Record.collection] at hc ⊢

theorem records_foldl_push {records : List Record} {s : CaLogState} {c : Collection}
    (hc : c ≠ .policy) :
    (records.foldl CaLogState.push s).records c =
      s.records c ++ records.filter fun r => r.collection = c := by
  induction records generalizing s with
  | nil => simp
  | cons r records ih =>
    rw [List.foldl_cons, ih, records_push hc, List.append_assoc]
    by_cases hr : r.collection = c <;> simp [hr]

theorem policy_foldl_push {records : List Record} {s : CaLogState} :
    (s.records .policy ++ records.filter fun r => r.collection = .policy).getLast? =
      some (.policy (records.foldl CaLogState.push s).policy) := by
  induction records generalizing s with
  | nil => rfl
  | cons r records ih =>
    rw [List.foldl_cons, ← ih]
    cases r <;>
      simp [CaLogState.push, CaLogState.records, Record.collection, List.getLast?_cons_cons]

end Collecting

/-! ### Rows and records -/

/-- The bodies of a collection are its records', in some order. -/
def Holds (j : Codecs) (c : Collection) (bodies : List Bytes) (records : List Record) : Prop :=
  ∃ l, bodies.Perm l ∧ List.Forall₂ (fun b r => decodeBody j b c = .ok r) l records

/-- A store that has no row for the policy stands for the one that overrides nothing. -/
structure Agrees (j : Codecs) (rows : List StoredRow) (s : CaLogState) : Prop where
  records : ∀ c, c ≠ .policy → Holds j c (bodiesOf rows c) (s.records c)
  policy : bodiesOf rows .policy = [] ∧ s.policy = CaLogState.empty.policy ∨
    Holds j .policy (bodiesOf rows .policy) (s.records .policy)

section Agreeing
variable {j : Codecs} {rows : List StoredRow} {s : CaLogState}

/-- The rows of a collection, and of what was read the records that belong to it. -/
theorem forall₂_collection {records : List Record}
    (h : List.Forall₂ (fun row r => decodeRow j row = .ok r) rows records) (c : Collection) :
    List.Forall₂ (fun b r => decodeBody j b c = .ok r) (bodiesOf rows c)
      (records.filter fun r => r.collection = c) := by
  induction h with
  | nil => exact .nil
  | @cons row r rows records hrow _ ih =>
    rw [decodeRow_ok] at hrow
    have hcollection := collection_of_decodeBody hrow
    unfold bodiesOf at ih ⊢
    by_cases hc : row.collection = c
    · subst hc
      rw [List.filter_cons_of_pos (by simp), List.filter_cons_of_pos (by simp [hcollection]),
        List.map_cons]
      exact .cons hrow ih
    · rw [List.filter_cons_of_neg (by simpa using hc),
        List.filter_cons_of_neg (by simpa [hcollection] using hc)]
      exact ih

theorem bodiesOf_sorted (rows : List StoredRow) (c : Collection) :
    (bodiesOf (rows.mergeSort fun r r' => r.id ≤ r'.id) c).Perm (bodiesOf rows c) :=
  ((List.mergeSort_perm rows _).filter _).map _

theorem decodeRows_ok_iff :
    decodeRows j rows = .ok s ↔ ∃ records,
      List.Forall₂ (fun row r => decodeRow j row = .ok r)
        (rows.mergeSort fun r r' => r.id ≤ r'.id) records ∧
      (records.filter fun r => r.collection = .policy).length ≤ 1 ∧
      s = records.foldl CaLogState.push .empty := by
  unfold decodeRows
  rw [foldlM_push]
  constructor
  · intro h
    obtain ⟨⟨state, policies⟩, hfold, h⟩ := exists_of_bind_ok h
    cases hread : (rows.mergeSort fun r r' => r.id ≤ r'.id).mapM (decodeRow j) with
    | error e =>
      rw [hread] at hfold
      cases hfold
    | ok records =>
      rw [hread] at hfold
      obtain ⟨rfl, rfl⟩ := Prod.mk.inj (Except.ok.inj hfold)
      dsimp only at h
      split at h
      · cases h
      · rename_i hcount
        refine ⟨records, mapM_ok_iff.mp hread, by omega, (Except.ok.inj h).symm⟩
  · rintro ⟨records, hread, hcount, rfl⟩
    rw [mapM_ok_iff.mpr hread]
    have hnot : ¬ 1 < 0 + (records.filter fun r => r.collection = .policy).length := by omega
    simp only [Except.map, bind, Except.bind, if_neg hnot]
    rfl

theorem agrees_of_decodeRows (h : decodeRows j rows = .ok s) : Agrees j rows s := by
  obtain ⟨records, hread, hcount, rfl⟩ := decodeRows_ok_iff.mp h
  have hcollection := forall₂_collection hread
  have hholds : ∀ c, Holds j c (bodiesOf rows c) (records.filter fun r => r.collection = c) :=
    fun c => ⟨_, (bodiesOf_sorted rows c).symm, hcollection c⟩
  constructor
  · intro c hc
    rw [records_foldl_push hc]
    cases c with
    | policy => exact absurd rfl hc
    | _ => exact hholds _
  · have hlast := @policy_foldl_push records CaLogState.empty
    cases hpolicies : records.filter fun r => r.collection = .policy with
    | nil =>
      left
      rw [hpolicies] at hlast
      have hbodies := hcollection .policy
      rw [hpolicies, List.forall₂_nil_right_iff] at hbodies
      refine ⟨List.perm_nil.mp (hbodies ▸ (bodiesOf_sorted rows .policy).symm), ?_⟩
      exact (Record.policy.inj (Option.some.inj hlast)).symm
    | cons r rest =>
      right
      obtain rfl : rest = [] := by
        rw [hpolicies, List.length_cons] at hcount
        exact List.length_eq_zero_iff.mp (by omega)
      rw [hpolicies] at hlast
      have hr : r = .policy (records.foldl CaLogState.push .empty).policy := Option.some.inj hlast
      have hpolicy := hholds .policy
      rw [hpolicies, hr] at hpolicy
      exact hpolicy

theorem Agrees.decodeRows (h : Agrees j rows s) :
    ∃ s', decodeRows j rows = .ok s' ∧ s'.SameRecords s := by
  -- Every row is of a collection whose bodies all decode.
  have hdecodes : ∀ row ∈ rows.mergeSort fun r r' => r.id ≤ r'.id,
      ∃ r, decodeRow j row = .ok r := by
    intro row hrow
    have hbody : row.body ∈ bodiesOf rows row.collection :=
      List.mem_map.mpr ⟨row, List.mem_filter.mpr ⟨(List.mergeSort_perm rows _).mem_iff.mp hrow,
        by simp⟩, rfl⟩
    have hholds : ∀ {records}, Holds j row.collection (bodiesOf rows row.collection) records →
        ∃ r, decodeRow j row = .ok r := by
      rintro records ⟨l, hperm, hread⟩
      obtain ⟨r, _, hr⟩ :=
        Table.exists_of_forall₂_right (List.Forall₂.flip hread) (hperm.mem_iff.mp hbody)
      exact ⟨r, decodeRow_ok.mpr hr⟩
    by_cases hc : row.collection = .policy
    · rcases h.policy with ⟨hnone, _⟩ | hpolicy
      · rw [hc, hnone] at hbody
        cases hbody
      · exact hholds (hc ▸ hpolicy)
    · exact hholds (h.records _ hc)
  obtain ⟨records, hread⟩ := exists_forall₂ hdecodes
  have hcollection := forall₂_collection hread
  have hperm : ∀ {c records'}, Holds j c (bodiesOf rows c) records' →
      (records.filter fun r => r.collection = c).Perm records' := by
    rintro c records' ⟨l, hl, hread'⟩
    obtain ⟨m, hm, hmperm⟩ := List.perm_comp_forall₂ ((bodiesOf_sorted rows c).trans hl) hread'
    rw [forall₂_unique (hcollection c) hm]
    exact hmperm
  have hlast := @policy_foldl_push records CaLogState.empty
  have hpolicies : (records.filter fun r => r.collection = .policy).length ≤ 1 ∧
      (records.foldl CaLogState.push .empty).policy = s.policy := by
    rcases h.policy with ⟨hnone, hpolicy⟩ | hpolicy
    · have hfilter : (records.filter fun r => r.collection = .policy) = [] := by
        have hsorted := bodiesOf_sorted rows .policy
        rw [hnone, List.perm_nil] at hsorted
        have hbodies := hcollection .policy
        rw [hsorted] at hbodies
        exact List.forall₂_nil_left_iff.mp hbodies
      rw [hfilter] at hlast ⊢
      exact ⟨Nat.zero_le 1,
        (Record.policy.inj (Option.some.inj hlast)).symm.trans hpolicy.symm⟩
    · have hfilter : (records.filter fun r => r.collection = .policy) = [.policy s.policy] :=
        List.perm_singleton.mp (hperm hpolicy)
      rw [hfilter] at hlast ⊢
      exact ⟨Nat.le_refl 1, (Record.policy.inj (Option.some.inj hlast)).symm⟩
  refine ⟨_, decodeRows_ok_iff.mpr ⟨records, hread, hpolicies.1, rfl⟩, ?_⟩
  intro c
  by_cases hc : c = .policy
  · subst hc
    rw [CaLogState.records, CaLogState.records, hpolicies.2]
  · rw [records_foldl_push hc]
    cases c with
    | policy => exact absurd rfl hc
    | _ => exact hperm (h.records _ hc)

end Agreeing

/-! ### Commits -/

/-- No two rows share an identifier, every identifier was given once, and a store nothing
was committed to is empty. -/
structure CaStore.WellFormed (store : CaStore) : Prop where
  nodup : (store.rows.map Row.id).Nodup
  used : ∀ r ∈ store.rows, r.id ∈ store.used
  unused : store.initialized = false → store.rows = []

section Commits
variable {j : Codecs} {assign : Assign} {fault : Option String} {store : CaStore}

/-- Deletions that name rows there are, each once, leave the others. -/
theorem foldlM_delete {rows : List StoredRow} {deletes : List (Collection × Nat)}
    (hpresent : ∀ d ∈ deletes, d ∈ rows.map fun r => (r.collection, r.id))
    (hnodup : deletes.Nodup) :
    deletes.foldlM CaStore.delete rows =
      .ok (rows.filter fun r => (r.collection, r.id) ∉ deletes) := by
  induction deletes generalizing rows with
  | nil => simp [pure, Except.pure]
  | cons d deletes ih =>
    obtain ⟨hnew, hrest⟩ := List.nodup_cons.mp hnodup
    rw [List.foldlM_cons, CaStore.delete, if_pos (hpresent d List.mem_cons_self)]
    refine (ih ?_ hrest).trans ?_
    · intro d' hd'
      obtain ⟨r, hr, hkey⟩ := List.mem_map.mp (hpresent d' (List.mem_cons_of_mem d hd'))
      refine List.mem_map.mpr ⟨r, List.mem_filter.mpr ⟨hr, ?_⟩, hkey⟩
      have hne : d' ≠ d := by
        rintro rfl
        exact hnew hd'
      simpa [hkey] using hne
    · rw [List.filter_filter]
      congr 1
      refine List.filter_congr ?_
      intro r _
      simp [Bool.and_comm]

theorem CaStore.commit_none {change : ChangeSet}
    (hpresent : ∀ d ∈ change.deletes, d ∈ store.rows.map fun r => (r.collection, r.id))
    (hnodup : change.deletes.Nodup) :
    store.commit assign none change =
      .ok (assign store.used change.inserts.length,
        { initialized := true
          importedDigest := change.importedDigest.orElse fun _ => store.importedDigest
          rows := changed store.rows change.deletes
            (change.inserts.zip (assign store.used change.inserts.length))
          used := assign store.used change.inserts.length ++ store.used }) := by
  unfold CaStore.commit
  rw [foldlM_delete hpresent hnodup]
  rfl

theorem CaStore.WellFormed.committed (h : store.WellFormed) {store' : CaStore}
    {deletes : List (Collection × Nat)} {inserts : List (Collection × Bytes)} {ids : List Nat}
    (hrows : store'.rows = changed store.rows deletes (inserts.zip ids))
    (hused : store'.used = ids ++ store.used) (hinit : store'.initialized = true)
    (hnodup : (store'.rows.map Row.id).Nodup) : store'.WellFormed where
  nodup := hnodup
  used := by
    intro r hr
    rw [hrows] at hr
    rw [hused]
    rcases List.mem_append.mp hr with hr | hr
    · exact List.mem_append_right _ (h.used r (List.mem_filter.mp hr).1)
    · obtain ⟨⟨n, id⟩, hn, rfl⟩ := List.mem_map.mp hr
      exact List.mem_append_left _ (List.of_mem_zip hn).2
  unused h' := by
    rw [hinit] at h'
    cases h'

theorem encodeAll_ok {s : CaLogState} {touched : List Collection}
    {orders : List (Collection × List Bytes)} (h : encodeAll j s touched = .ok orders) :
    orders.map Prod.fst = touched ∧
      ∀ o ∈ orders, encodeCollection j s o.1 = .ok o.2 := by
  have hread := mapM_ok_iff.mp h
  clear h
  induction hread with
  | nil => exact ⟨rfl, fun o ho => by cases ho⟩
  | @cons c o touched orders hc _ ih =>
    cases hbodies : encodeCollection j s c with
    | error e =>
      rw [hbodies] at hc
      cases hc
    | ok bodies =>
      rw [hbodies] at hc
      obtain rfl := Except.ok.inj hc
      refine ⟨by rw [List.map_cons, ih.1], ?_⟩
      intro o ho
      rcases List.mem_cons.mp ho with rfl | ho
      · exact hbodies
      · exact ih.2 o ho

/-- What a call's commit does to the rows and the index. -/
structure Committed (j : Codecs) (s : CaLogState) (touched : List Collection)
    (b b' : Backing) : Prop where
  wellFormed : b'.store.WellFormed
  initialized : b.store.initialized = true → b'.store.initialized = true
  tracks : Tracks b'.store.rows b'.index
  written : ∀ c ∈ touched, ∃ bodies, encodeCollection j s c = .ok bodies ∧
    (bodiesOf b'.store.rows c).Perm bodies
  kept : ∀ c, c ∉ touched → bodiesOf b'.store.rows c = bodiesOf b.store.rows c

theorem deletes_present {rows : List StoredRow} {index : Collection → List (Bytes × List Nat)}
    (h : Tracks rows index) (orders : List (Collection × List Bytes)) :
    ∀ d ∈ (deletions index orders).map fun d => (d.1, d.2.2),
      d ∈ rows.map fun r => (r.collection, r.id) := by
  intro d hd
  obtain ⟨⟨c, body, id⟩, hmem, rfl⟩ := List.mem_map.mp hd
  obtain ⟨r, hr, rfl, _, rfl⟩ := h.row_of_mem_deletions hmem
  exact List.mem_map.mpr ⟨r, hr, rfl⟩

/-- The plan for some collections, carried out with identifiers nobody had. -/
theorem committed_of_changed {s : CaLogState} {touched : List Collection} {b b' : Backing}
    {orders : List (Collection × List Bytes)} (ids : List Nat)
    (htracks : Tracks b.store.rows b.index) (htouched : touched.Nodup)
    (horders : encodeAll j s touched = .ok orders)
    (hlength : ids.length = (insertions b.index orders).length) (hnodup : ids.Nodup)
    (hfresh : ∀ id ∈ ids, id ∉ b.store.rows.map Row.id)
    (hrows : b'.store.rows = changed b.store.rows
      ((deletions b.index orders).map fun d => (d.1, d.2.2)) ((insertions b.index orders).zip ids))
    (hindex : b'.index = rememberAll (forgetAll b.index (deletions b.index orders))
      ((insertions b.index orders).zip ids))
    (hwf : b'.store.WellFormed)
    (hinit : b.store.initialized = true → b'.store.initialized = true) :
    Committed j s touched b b' := by
  obtain ⟨hkeys, hencoded⟩ := encodeAll_ok horders
  have hunique : (orders.map Prod.fst).Nodup := hkeys ▸ htouched
  refine ⟨hwf, hinit, ?_, ?_, ?_⟩
  · rw [hrows, hindex]
    exact htracks.changed hlength hnodup hfresh
  · intro c hc
    rw [← hkeys] at hc
    obtain ⟨⟨c', bodies⟩, ho, rfl⟩ := List.mem_map.mp hc
    refine ⟨bodies, hencoded _ ho, ?_⟩
    rw [hrows]
    exact htracks.bodiesOf_changed hunique hlength ho
  · intro c hc
    rw [hrows]
    exact htracks.bodiesOf_unchanged (hkeys ▸ hc)

theorem CaStore.WellFormed.fresh (h : store.WellFormed) (hids : assign.Fresh) (n : Nat) :
    ∀ id ∈ assign store.used n, id ∉ store.rows.map Row.id := by
  intro id hid hrow
  obtain ⟨r, hr, rfl⟩ := List.mem_map.mp hrow
  exact hids.fresh store.used n r.id hid (h.used r hr)

theorem Backing.commit_ok {s : CaLogState} {touched : List Collection} {b b' : Backing}
    (hids : assign.Fresh) (hwf : b.store.WellFormed) (htracks : Tracks b.store.rows b.index)
    (htouched : touched.Nodup) (h : b.commit j assign fault s touched = .ok b') :
    Committed j s touched b b' := by
  obtain ⟨orders, horders, h⟩ := exists_of_bind_ok h
  dsimp only at h
  split at h
  · rename_i hempty
    obtain rfl := Except.ok.inj h
    simp only [ChangeSet.isEmpty, Bool.and_eq_true, List.isEmpty_iff, List.map_eq_nil_iff] at hempty
    obtain ⟨⟨hinserted, hdeleted⟩, _⟩ := hempty
    refine committed_of_changed [] htracks htouched horders ?_ List.nodup_nil ?_ ?_ ?_ hwf id
    · rw [hinserted, List.length_nil, List.length_nil]
    · intro id hid
      cases hid
    · simp [changed, hdeleted]
    · rw [hdeleted, List.zip_nil_right]
      rfl
  · obtain ⟨⟨ids, store⟩, hcommit, h⟩ := exists_of_bind_ok h
    obtain rfl := Except.ok.inj h
    cases fault with
    | some e => cases hcommit
    | none =>
      have hunique : (orders.map Prod.fst).Nodup := (encodeAll_ok horders).1 ▸ htouched
      rw [CaStore.commit_none (deletes_present htracks orders) (htracks.nodup_deletes hunique)] at hcommit
      obtain ⟨rfl, rfl⟩ := Prod.mk.inj (Except.ok.inj hcommit)
      have hlength := hids.length b.store.used (insertions b.index orders).length
      have hnodup := hids.nodup b.store.used (insertions b.index orders).length
      have hfresh := hwf.fresh hids (insertions b.index orders).length
      exact committed_of_changed _ htracks htouched horders hlength hnodup hfresh rfl rfl
        (hwf.committed rfl rfl rfl (htracks.changed hlength hnodup hfresh).nodup) (fun _ => rfl)

theorem Backing.commit_none {s : CaLogState} {touched : List Collection} {b : Backing}
    (htracks : Tracks b.store.rows b.index) (htouched : touched.Nodup)
    {orders : List (Collection × List Bytes)} (horders : encodeAll j s touched = .ok orders) :
    ∃ b', b.commit j assign none s touched = .ok b' := by
  have hunique : (orders.map Prod.fst).Nodup := (encodeAll_ok horders).1 ▸ htouched
  unfold Backing.commit
  rw [horders]
  dsimp only [bind, Except.bind]
  split
  · exact ⟨b, rfl⟩
  · rw [CaStore.commit_none (deletes_present htracks orders) (htracks.nodup_deletes hunique)]
    exact ⟨_, rfl⟩

end Commits

/-! ### Calls -/

section Calls
variable {j : Codecs} {s s' : CaLogState}

theorem collection_of_mem_records {c : Collection} {r : Record} (h : r ∈ s.records c) :
    r.collection = c := by
  cases c with
  | policy =>
    rw [List.mem_singleton.mp h]
    rfl
  | _ =>
    obtain ⟨_, _, rfl⟩ := List.mem_map.mp h
    rfl

theorem holds_of_encodeCollection (hj : j.RoundTrips) {c : Collection} {bodies bodies' : List Bytes}
    (h : encodeCollection j s c = .ok bodies) (hperm : bodies'.Perm bodies) :
    Holds j c bodies' (s.records c) := by
  refine ⟨bodies, hperm, ?_⟩
  have hwritten := (List.forall₂_and_left _ _).mpr
    ⟨fun r hr => collection_of_mem_records hr, mapM_ok_iff.mp h⟩
  have hread : List.Forall₂ (fun r b => decodeBody j b c = .ok r) (s.records c) bodies := by
    refine hwritten.imp ?_
    rintro r b ⟨rfl, hb⟩
    exact decodeBody_encodeRecord hj hb
  exact hread.flip

theorem Mutation.touched_nodup (m : Mutation) : m.touched.Nodup := by
  cases m <;> simp [touched]

theorem Mutation.records_apply {m : Mutation} {c : Collection} (hc : c ∉ m.touched) :
    (m.apply s).records c = s.records c := by
  cases m <;> cases c <;> first | rfl | exact absurd (by simp [touched]) hc

/-- A commit that is taken keeps the rows and the log in agreement. -/
theorem Agrees.committed (hj : j.RoundTrips) {m : Mutation} {b b' : Backing}
    (h : Agrees j b.store.rows s) (hcommit : Committed j (m.apply s) m.touched b b') :
    Agrees j b'.store.rows (m.apply s) := by
  have hwritten : ∀ c ∈ m.touched, Holds j c (bodiesOf b'.store.rows c) ((m.apply s).records c) := by
    intro c hc
    obtain ⟨bodies, hencoded, hperm⟩ := hcommit.written c hc
    exact holds_of_encodeCollection hj hencoded hperm
  constructor
  · intro c hc
    by_cases htouched : c ∈ m.touched
    · exact hwritten c htouched
    · rw [hcommit.kept c htouched, Mutation.records_apply htouched]
      exact h.records c hc
  · by_cases htouched : Collection.policy ∈ m.touched
    · exact Or.inr (hwritten _ htouched)
    · have hrecords := Mutation.records_apply (s := s) htouched
      have hpolicy : (m.apply s).policy = s.policy := by simpa [CaLogState.records] using hrecords
      rw [hcommit.kept _ htouched, hrecords, hpolicy]
      exact h.policy

end Calls

/-- A log and its store in step. -/
structure InStep (j : Codecs) (log : DurableLog) (b : Backing) : Prop where
  backing : log.backing = some b
  initialized : b.store.initialized = true
  wellFormed : b.store.WellFormed
  tracks : Tracks b.store.rows b.index
  agrees : Agrees j b.store.rows log.state

section InStep
variable {j : Codecs} {assign : Assign} {log : DurableLog} {b : Backing}

/-- A call either fails and changes nothing, or leaves the new log in step. -/
theorem InStep.serve (hj : j.RoundTrips) (hids : assign.Fresh) (h : InStep j log b) (call : Call) :
    log.serve j assign call = (.error notRecorded, log) ∨
      ∃ b', log.serve j assign call = (.ok (), ⟨call.mutation.apply log.state, some b'⟩) ∧
        InStep j ⟨call.mutation.apply log.state, some b'⟩ b' := by
  unfold DurableLog.serve DurableLog.mutate
  rw [h.backing]
  dsimp only
  cases hcommit : b.commit j assign call.fault (call.mutation.apply log.state)
      call.mutation.touched with
  | error e => exact Or.inl rfl
  | ok b' =>
    have hcommitted := Backing.commit_ok hids h.wellFormed h.tracks call.mutation.touched_nodup hcommit
    exact Or.inr ⟨b', rfl, rfl, hcommitted.initialized h.initialized, hcommitted.wellFormed,
      hcommitted.tracks, h.agrees.committed hj hcommitted⟩

theorem InStep.step (hj : j.RoundTrips) (hids : assign.Fresh) (h : InStep j log b) (call : Call) :
    ∃ b', InStep j (log.step j assign call) b' := by
  unfold DurableLog.step
  rcases h.serve hj hids call with hfailed | ⟨b', hdone, hstep⟩
  · rw [hfailed]
    exact ⟨b, h⟩
  · rw [hdone]
    exact ⟨b', hstep⟩

theorem tracks_of_rows {rows : List StoredRow} (hnodup : (rows.map Row.id).Nodup) :
    Tracks rows (rememberAll (fun _ => []) (rows.map fun r => ((r.collection, r.body), r.id))) where
  nodup := hnodup
  keys := by
    apply keys_rememberAll
    intro c
    exact List.nodup_nil
  ids c body := by
    rw [idsAt_rememberAll, idsAt, List.nil_append, idsOf, List.filter_map, List.map_map]
    refine List.Perm.of_eq ?_
    congr 1
    refine List.filter_congr ?_
    intro r _
    simp

theorem shortfall_empty (seen order : List Bytes) : shortfall (fun _ => 0) seen order = order := by
  induction order generalizing seen with
  | nil => rfl
  | cons body order ih => rw [shortfall, if_pos (Nat.succ_pos _), ih]

theorem insertions_empty (orders : List (Collection × List Bytes)) :
    insertions (fun _ => []) orders = orders.flatMap fun o => o.2.map fun body => (o.1, body) := by
  unfold insertions
  congr 1
  funext o
  exact congrArg (List.map _) (shortfall_empty [] o.2)

theorem deletions_empty (orders : List (Collection × List Bytes)) :
    deletions (fun _ => []) orders = [] := by
  unfold deletions
  rw [List.flatMap_eq_nil_iff]
  intro o _
  rfl

theorem Collection.mem_all (c : Collection) : c ∈ Collection.all := by
  cases c <;> decide

theorem inStep_of_new (hj : j.RoundTrips) (hids : assign.Fresh) {store store' : CaStore}
    (hstore : store.WellFormed) (hnew : store.initialized = false) {fault : Option String}
    {s : CaLogState} {orders : List (Collection × List Bytes)} {ids : List Nat}
    {digest : Option String} (horders : encodeAll j s Collection.all = .ok orders)
    (hcommit : store.commit assign fault
      ⟨orders.flatMap fun o => o.2.map fun body => (o.1, body), [], digest⟩ = .ok (ids, store')) :
    let b : Backing := ⟨store', rememberAll (fun _ => [])
      ((orders.flatMap fun o => o.2.map fun body => (o.1, body)).zip ids)⟩
    InStep j ⟨s, some b⟩ b := by
  cases fault with
  | some e => cases hcommit
  | none =>
    have hrows : store.rows = [] := hstore.unused hnew
    rw [← insertions_empty] at hcommit ⊢
    rw [CaStore.commit_none (fun d hd => by cases hd) List.nodup_nil] at hcommit
    obtain ⟨rfl, rfl⟩ := Prod.mk.inj (Except.ok.inj hcommit)
    intro b
    have htracks : Tracks store.rows fun _ : Collection => ([] : List (Bytes × List Nat)) := by
      rw [hrows]
      exact ⟨List.nodup_nil, fun _ => List.nodup_nil, fun _ _ => List.Perm.refl _⟩
    have hlength := hids.length store.used (insertions (fun _ => []) orders).length
    have hnodup := hids.nodup store.used (insertions (fun _ => []) orders).length
    have hfresh := hstore.fresh hids (insertions (fun _ => []) orders).length
    have hchanged := htracks.changed hlength hnodup hfresh
    rw [deletions_empty] at hchanged
    have hcommitted : Committed j s Collection.all ⟨store, fun _ => []⟩ b :=
      committed_of_changed _ htracks (by decide) horders hlength hnodup hfresh
        (by rw [deletions_empty]; rfl) (by rw [deletions_empty]; rfl)
        (hstore.committed rfl rfl rfl hchanged.nodup) (fun _ => rfl)
    have hwritten : ∀ c, Holds j c (bodiesOf b.store.rows c) (s.records c) := by
      intro c
      obtain ⟨bodies, hencoded, hperm⟩ := hcommitted.written c c.mem_all
      exact holds_of_encodeCollection hj hencoded hperm
    exact ⟨rfl, rfl, hcommitted.wellFormed, hcommitted.tracks, fun c _ => hwritten c,
      Or.inr (hwritten .policy)⟩

theorem inStep_of_rows {store : CaStore} (hstore : store.WellFormed)
    (hinit : store.initialized = true) {s : CaLogState} (h : decodeRows j store.rows = .ok s) :
    let b : Backing := ⟨store, rememberAll (fun _ => [])
      (store.rows.map fun r => ((r.collection, r.body), r.id))⟩
    InStep j ⟨s, some b⟩ b :=
  ⟨rfl, hinit, hstore, tracks_of_rows hstore.nodup, agrees_of_decodeRows h⟩

theorem inStep_withStore (hj : j.RoundTrips) (hids : assign.Fresh) {store : CaStore}
    (hstore : store.WellFormed) {fault : Option String} {legacy : Option DurableLog.Legacy}
    (h : DurableLog.withStore j assign fault store legacy = .ok log) : ∃ b, InStep j log b := by
  unfold DurableLog.withStore at h
  split at h
  · rename_i hnew
    obtain ⟨orders, horders, h⟩ := exists_of_bind_ok h
    obtain ⟨⟨ids, store'⟩, hcommit, h⟩ := exists_of_bind_ok h
    obtain rfl := Except.ok.inj h
    exact ⟨_, inStep_of_new hj hids hstore (by simpa using hnew) horders hcommit⟩
  · rename_i hused
    have hinit : store.initialized = true := by simpa using hused
    obtain ⟨s, hs, h⟩ := exists_of_bind_ok h
    dsimp only at h
    split at h
    · obtain rfl := Except.ok.inj h
      exact ⟨_, inStep_of_rows hstore hinit hs⟩
    · split at h
      · obtain rfl := Except.ok.inj h
        exact ⟨_, inStep_of_rows hstore hinit hs⟩
      · obtain ⟨same, _, h⟩ := exists_of_bind_ok h
        split at h
        · obtain rfl := Except.ok.inj h
          exact ⟨_, inStep_of_rows hstore hinit hs⟩
        · cases h

/-- Reopened, the store is read as the same log, and nothing is written to it. -/
theorem InStep.reopen (h : InStep j log b) :
    ∃ s index, DurableLog.withStore j assign none b.store none = .ok ⟨s, some ⟨b.store, index⟩⟩ ∧
      s.SameRecords log.state := by
  obtain ⟨s, hs, hsame⟩ := h.agrees.decodeRows
  refine ⟨s, rememberAll (fun _ => []) (b.store.rows.map fun r => ((r.collection, r.body), r.id)),
    ?_, hsame⟩
  unfold DurableLog.withStore
  rw [if_neg (by simp [h.initialized]), hs]
  rfl

theorem InStep.policy_length (h : InStep j log b) :
    (bodiesOf b.store.rows .policy).length ≤ 1 := by
  rcases h.agrees.policy with ⟨hnone, _⟩ | ⟨l, hperm, hread⟩
  · rw [hnone]
    exact Nat.zero_le 1
  · rw [hperm.length_eq, hread.length_eq]
    exact Nat.le_refl 1

end InStep

/-- What holds between a log and its database after every call: the rows decode to the log,
the index has exactly the rows of every body, so that no plan names an absent row, and a
restart reads the same log and leaves the rows alone, of which at most one is a policy. -/
structure Synchronized (j : Codecs) (assign : Assign) (log : DurableLog) (b : Backing) : Prop where
  backing : log.backing = some b
  decodes : ∃ s, decodeRows j b.store.rows = .ok s ∧ s.SameRecords log.state
  indexed : ∀ c body, (idsAt body (b.index c)).Perm (idsOf b.store.rows c body)
  present : ∀ orders, ∀ d ∈ deletions b.index orders,
    ∃ r ∈ b.store.rows, r.collection = d.1 ∧ r.body = d.2.1 ∧ r.id = d.2.2
  reopens : ∃ s index,
    DurableLog.withStore j assign none b.store none = .ok ⟨s, some ⟨b.store, index⟩⟩ ∧
      s.SameRecords log.state
  onePolicy : (bodiesOf b.store.rows .policy).length ≤ 1

theorem InStep.synchronized {j : Codecs} {assign : Assign} {log : DurableLog} {b : Backing}
    (h : InStep j log b) : Synchronized j assign log b where
  backing := h.backing
  decodes := h.agrees.decodeRows
  indexed := h.tracks.ids
  present _ _ hd := h.tracks.row_of_mem_deletions hd
  reopens := h.reopen
  onePolicy := h.policy_length

/-- Whatever the calls and whichever of their commits fail, memory and database agree after
each of them, and one that fails has changed neither. -/
theorem memory_and_database_agree (j : Codecs) (hj : j.RoundTrips) (assign : Assign)
    (hids : assign.Fresh) (store : CaStore) (hstore : store.WellFormed) (fault : Option String)
    (legacy : Option DurableLog.Legacy) (log : DurableLog)
    (hopen : DurableLog.withStore j assign fault store legacy = .ok log) (calls : List Call) :
    Run.AllGood (DurableLog.step j assign) (fun log => ∃ b, Synchronized j assign log b) log calls ∧
      Run.AllSafe (DurableLog.step j assign) (fun log call =>
        log.serve j assign call = (.error notRecorded, log) ∨
          (log.serve j assign call).1 = .ok () ∧
            (log.step j assign call).state = call.mutation.apply log.state) log calls := by
  have hrun : ∀ pre, ∃ b, InStep j (Run.run (DurableLog.step j assign) log pre) b := by
    intro pre
    refine @Run.invariant DurableLog Call (DurableLog.step j assign)
      (fun log => ∃ b, InStep j log b) log pre (inStep_withStore hj hids hstore hopen) ?_
    rintro log call ⟨b, h⟩
    exact h.step hj hids call
  constructor
  · intro pre _
    obtain ⟨b, h⟩ := hrun pre
    exact ⟨b, h.synchronized⟩
  · intro pre call _
    obtain ⟨b, h⟩ := hrun pre
    rcases h.serve hj hids call with hfailed | ⟨b', hdone, _⟩
    · exact Or.inl hfailed
    · right
      rw [DurableLog.step, hdone]
      exact ⟨rfl, rfl⟩

namespace SmallMesh

/-- `AUTOINCREMENT`: each identifier one above the largest there ever was. -/
def autoincrement : Assign := fun used n => List.range' (used.foldr max 0 + 1) n

theorem le_foldr_max {used : List Nat} {id : Nat} (h : id ∈ used) : id ≤ used.foldr max 0 := by
  induction used with
  | nil => cases h
  | cons x used ih =>
    rcases List.mem_cons.mp h with rfl | h
    · exact Nat.le_max_left _ _
    · exact Nat.le_trans (ih h) (Nat.le_max_right _ _)

theorem autoincrement_fresh : autoincrement.Fresh where
  length used n := List.length_range'
  nodup used n := List.nodup_range'
  fresh used n id hid hused := by
    have hle := le_foldr_max hused
    have hge := (List.mem_range'_1.mp hid).1
    omega

def openPolicy : PolicyOverrides := ⟨some true, none, none⟩

/-- The two policies of this run, as JSON has them: no override, and `auto_approve`. -/
def policyTexts : List (PolicyOverrides × Bytes) :=
  [(CaLogState.empty.policy, (Octets.be 66
      0x7b226175746f5f617070726f7665223a6e756c6c2c22636572745f74746c5f73656373223a6e756c6c2c22656e726f6c6c6d656e745f746f6b656e223a6e756c6c7d).toList),
    (openPolicy, (Octets.be 66
      0x7b226175746f5f617070726f7665223a747275652c22636572745f74746c5f73656373223a6e756c6c2c22656e726f6c6c6d656e745f746f6b656e223a6e756c6c7d).toList)]

def tableJson {α : Type} [DecidableEq α] (table : List (α × Bytes)) : Json α where
  toVec value := ((table.find? fun e => e.1 = value).map Prod.snd).elim (.error "no text") .ok
  fromSlice body := ((table.find? fun e => e.2 = body).map Prod.fst).elim (.error "no record") .ok

theorem tableJson_roundTrips {α : Type} [DecidableEq α] {table : List (α × Bytes)}
    (h : (table.map Prod.snd).Nodup) : (tableJson table).RoundTrips := by
  intro value body hwritten
  cases hfind : table.find? fun e => e.1 = value with
  | none =>
    simp only [tableJson, hfind] at hwritten
    cases hwritten
  | some entry =>
    simp only [tableJson, hfind] at hwritten
    obtain rfl : entry.2 = body := Except.ok.inj hwritten
    have hvalue : entry.1 = value := by simpa using List.find?_some hfind
    cases hread : table.find? fun e => e.2 = entry.2 with
    | none =>
      have hnot := List.find?_eq_none.mp hread entry (List.mem_of_find?_eq_some hfind)
      simp at hnot
    | some entry' =>
      have hsame : entry'.2 = entry.2 := by simpa using List.find?_some hread
      obtain rfl : entry' = entry := List.inj_on_of_nodup_map h
        (List.mem_of_find?_eq_some hread) (List.mem_of_find?_eq_some hfind) hsame
      simp only [tableJson, hread, Option.map_some, Option.elim_some, hvalue]

def texts : Codecs := ⟨tableJson [], tableJson [], tableJson policyTexts, tableJson [], tableJson []⟩

theorem texts_roundTrip : texts.RoundTrips := by
  constructor <;> exact tableJson_roundTrips (by decide +kernel)

def newStore : CaStore := ⟨false, none, [], []⟩

theorem newStore_wellFormed : newStore.WellFormed where
  nodup := List.nodup_nil
  used r hr := by cases hr
  unused _ := rfl

/-- Enrolment is opened, node 2 is revoked twice over with one and the same record, and the
disk is full when it is closed again. -/
def policyCalls : List Call :=
  [⟨.policy fun _ => openPolicy, none⟩,
    ⟨.issuedRecording [ejected2, ejected2] epoch fun issued => issued, none⟩,
    ⟨.policy fun _ => CaLogState.empty.policy, some "database or disk is full"⟩]

theorem memory_and_database_agree_full :
    ∃ log, DurableLog.withStore texts autoincrement none newStore none = .ok log ∧
      ∃ b, Synchronized texts autoincrement
        (Run.run (DurableLog.step texts autoincrement) log policyCalls) b := by
  refine ⟨_, rfl, ?_⟩
  exact (memory_and_database_agree texts texts_roundTrip autoincrement autoincrement_fresh newStore
    newStore_wellFormed none none _ rfl policyCalls).1 policyCalls (List.prefix_refl _)

end SmallMesh

end Wayfinder
