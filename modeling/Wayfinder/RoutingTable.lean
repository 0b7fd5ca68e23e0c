import Mathlib.Data.List.Perm.Subperm
import Wayfinder.Lib.Links
import Wayfinder.Lib.Recency
import Wayfinder.Lib.Run
import Wayfinder.Lib.Table
import Wayfinder.LinkTables

/-!
# The identity table as it is laid out

An array of nodes, linked in the order of their last use, a map from identifiers to slots of
the array, and a stack of free slots. Indexing out of the array or into an empty slot stops
the program. The table never does, and is a map that forgets what was not used for longest.
-/

namespace Wayfinder

set_option autoImplicit false

open Table Links

/-- `u16::MAX`, no slot. -/
def noneIdx : Nat := 65535

/-- The capacities a table compiles for. -/
structure IdentCaps where
  cap : Nat
  maxLive : Nat
  power : ∃ k, cap = 2 ^ k
  indexed : cap < noneIdx
  live_le : maxLive ≤ cap
  live_pos : 0 < maxLive

structure LruNode (Ident : Type) where
  key : Ident
  ifaceIdx : Nat
  prev : Nat
  next : Nat

structure LruTable (Ident : Type) (c : IdentCaps) where
  nodes : Nat → Option (LruNode Ident)
  map : IndexMap Ident Nat c.cap
  head : Nat
  tail : Nat
  freeStack : List Nat
  freeLen : Nat

namespace LruTable

variable {Ident : Type} {c : IdentCaps}

def new : LruTable Ident c where
  nodes := fun _ => none
  map := .empty
  head := noneIdx
  tail := noneIdx
  freeStack := List.range c.cap
  freeLen := c.maxLive

def clear (t : LruTable Ident c) : LruTable Ident c :=
  { t with
    map := .empty
    nodes := fun _ => none
    freeStack := List.range c.cap
    head := noneIdx
    tail := noneIdx
    freeLen := c.maxLive }

/-- The node in a slot, if the index is in the array and the slot occupied. -/
def node (t : LruTable Ident c) (idx : Nat) : Option (LruNode Ident) :=
  if idx < c.cap then t.nodes idx else none

def store (t : LruTable Ident c) (idx : Nat) (n : LruNode Ident) : LruTable Ident c :=
  { t with nodes := Function.update t.nodes idx (some n) }

def modifyNode (t : LruTable Ident c) (idx : Nat) (f : LruNode Ident → LruNode Ident) :
    Option (LruTable Ident c) :=
  (t.node idx).map fun n => t.store idx (f n)

/-- The node before the one taken out is followed by the one after. -/
def joinBefore (t : LruTable Ident c) (node : LruNode Ident) : Option (LruTable Ident c) :=
  if node.prev ≠ noneIdx then t.modifyNode node.prev fun prev => { prev with next := node.next }
  else some { t with head := node.next }

/-- The node after the one taken out follows the one before. -/
def joinAfter (t : LruTable Ident c) (node : LruNode Ident) : Option (LruTable Ident c) :=
  if node.next ≠ noneIdx then t.modifyNode node.next fun next => { next with prev := node.prev }
  else some { t with tail := node.prev }

def unlink (t : LruTable Ident c) (idx : Nat) : Option (LruTable Ident c) := do
  let node ← t.node idx
  let t ← t.joinBefore node
  t.joinAfter node

/-- The node that was in front follows the new one. -/
def joinHead (t : LruTable Ident c) (oldHead idx : Nat) : Option (LruTable Ident c) :=
  if oldHead ≠ noneIdx then t.modifyNode oldHead fun head => { head with prev := idx }
  else some { t with tail := idx }

def linkAtHead (t : LruTable Ident c) (idx : Nat) : Option (LruTable Ident c) := do
  let oldHead := t.head
  let node ← t.node idx
  let t ← (t.store idx { node with prev := noneIdx, next := oldHead }).joinHead oldHead idx
  some { t with head := idx }

def moveToFront (t : LruTable Ident c) (idx : Nat) : Option (LruTable Ident c) :=
  if t.head = idx then some t
  else do
    let t ← t.unlink idx
    t.linkAtHead idx

variable [DecidableEq Ident]

/-- A slot from the stack, or that of the identifier at the end of the list. -/
def takeSlot (t : LruTable Ident c) : Option (Nat × LruTable Ident c) :=
  if 0 < t.freeLen then do
    let slot ← t.freeStack[t.freeLen - 1]?
    some (slot, { t with freeLen := t.freeLen - 1 })
  else do
    let lru ← t.node t.tail
    let slot := t.tail
    let t ← { t with map := t.map.remove lru.key }.unlink slot
    some (slot, t)

def addRecord (t : LruTable Ident c) (ifaceIdx : Nat) (dest : Ident) :
    Option (LruTable Ident c) :=
  match t.map.get? dest with
  | some idx => do
    let t ← t.modifyNode idx fun entry => { entry with ifaceIdx }
    t.moveToFront idx
  | none => do
    let (slot, t) ← t.takeSlot
    if slot < c.cap then
      let t := t.store slot ⟨dest, ifaceIdx, noneIdx, noneIdx⟩
      { t with map := t.map.insertD dest slot }.linkAtHead slot
    else none

def getEgressInterface (t : LruTable Ident c) (dest : Ident) :
    Option (Option Nat × LruTable Ident c) :=
  match t.map.get? dest with
  | none => some (none, t)
  | some idx => do
    let t ← t.moveToFront idx
    let node ← t.node idx
    some (some node.ifaceIdx, t)

def peekEgressInterface (t : LruTable Ident c) (dest : Ident) : Option (Option Nat) :=
  match t.map.get? dest with
  | none => some none
  | some idx => (t.node idx).map fun node => some node.ifaceIdx

end LruTable

/-! ### The list of the nodes -/

namespace LruTable

variable {Ident : Type} {c : IdentCaps} {t t' : LruTable Ident c} {slots before after : List Nat}
  {idx : Nat}

def content (t : LruTable Ident c) (idx : Nat) : Option (Ident × Nat) :=
  (t.nodes idx).map fun n => (n.key, n.ifaceIdx)

/-- The nodes are linked in the order of the slots. -/
structure Ordered (t : LruTable Ident c) (slots : List Nat) : Prop where
  linked : Linked LruNode.prev LruNode.next noneIdx t.nodes slots
  head : t.head = slots.head?.getD noneIdx
  tail : t.tail = slots.getLast?.getD noneIdx
  nodup : slots.Nodup
  bound : ∀ i ∈ slots, i < c.cap

structure SameContent (t t' : LruTable Ident c) : Prop where
  content : ∀ i, t'.content i = t.content i
  map : t'.map = t.map
  freeStack : t'.freeStack = t.freeStack
  freeLen : t'.freeLen = t.freeLen

theorem SameContent.trans {t'' : LruTable Ident c} (h : SameContent t t')
    (h' : SameContent t' t'') : SameContent t t'' where
  content := fun i => (h'.content i).trans (h.content i)
  map := h'.map.trans h.map
  freeStack := h'.freeStack.trans h.freeStack
  freeLen := h'.freeLen.trans h.freeLen

theorem Ordered.ne_none (h : t.Ordered slots) {i : Nat} (hi : i ∈ slots) : i ≠ noneIdx := by
  have hlt := h.bound i hi
  have hcap := c.indexed
  omega

theorem Ordered.node (h : t.Ordered (before ++ idx :: after)) :
    ∃ n, t.node idx = some n ∧ t.nodes idx = some n ∧
      n.prev = before.getLast?.getD noneIdx ∧ n.next = after.head?.getD noneIdx := by
  obtain ⟨n, hn, hlinks⟩ := h.linked before idx after rfl
  refine ⟨n, ?_, hn, hlinks⟩
  unfold LruTable.node
  rw [if_pos (h.bound idx (List.mem_append_right _ List.mem_cons_self)), hn]

theorem modifyNode_eq {n : LruNode Ident} (hbound : idx < c.cap) (hn : t.nodes idx = some n)
    (f : LruNode Ident → LruNode Ident) : t.modifyNode idx f = some (t.store idx (f n)) := by
  unfold modifyNode LruTable.node
  rw [if_pos hbound, hn]
  rfl

theorem content_store {n n' : LruNode Ident} (hn : t.nodes idx = some n) (hkey : n'.key = n.key)
    (hiface : n'.ifaceIdx = n.ifaceIdx) (i : Nat) : (t.store idx n').content i = t.content i := by
  unfold content store
  dsimp only
  by_cases hi : i = idx
  · subst hi
    rw [Function.update_self, hn]
    simp [hkey, hiface]
  · rw [Function.update_of_ne hi]

theorem joinBefore_spec (h : t.Ordered (before ++ idx :: after)) {n : LruNode Ident}
    (hprev : n.prev = before.getLast?.getD noneIdx) (hnext : n.next = after.head?.getD noneIdx) :
    ∃ t', t.joinBefore n = some t' ∧ SameContent t t' ∧
      t'.tail = t.tail ∧ t'.head = (before ++ after).head?.getD noneIdx ∧
      ∀ j m, t.nodes j = some m → ∃ m', t'.nodes j = some m' ∧ m'.prev = m.prev ∧
        m'.next = if before.getLast? = some j then after.head?.getD noneIdx else m.next := by
  unfold joinBefore
  cases hlast : before.getLast? with
  | none =>
    obtain rfl := List.getLast?_eq_none_iff.mp hlast
    rw [if_neg (by rw [hprev]; simp)]
    refine ⟨_, rfl, ⟨fun _ => rfl, rfl, rfl, rfl⟩, rfl, hnext, ?_⟩
    intro j m hm
    exact ⟨m, hm, rfl, rfl⟩
  | some p =>
    have hp : p ∈ before ++ idx :: after :=
      List.mem_append_left _ (List.mem_of_getLast? hlast)
    obtain ⟨old, hold⟩ := h.linked.occupied hp
    have hprevp : n.prev = p := by rw [hprev, hlast]; rfl
    rw [hprevp, if_pos (h.ne_none hp), modifyNode_eq (h.bound p hp) hold]
    refine ⟨_, rfl, ⟨content_store hold rfl rfl, rfl, rfl, rfl⟩, rfl, ?_, ?_⟩
    · change t.head = _
      rw [h.head]
      cases before with
      | nil => cases hlast
      | cons first before => rfl
    · intro j m hm
      by_cases hj : j = p
      · subst hj
        obtain rfl := Option.some.inj (hold.symm.trans hm)
        refine ⟨{ old with next := n.next }, Function.update_self .., rfl, ?_⟩
        rw [if_pos rfl]
        exact hnext
      · refine ⟨m, (Function.update_of_ne hj ..).trans hm, rfl, ?_⟩
        rw [if_neg fun heq => hj (Option.some.inj heq).symm]

theorem unlink_spec (h : t.Ordered (before ++ idx :: after)) :
    ∃ t', t.unlink idx = some t' ∧ t'.Ordered (before ++ after) ∧ SameContent t t' := by
  obtain ⟨n, hnode, hn, hprev, hnext⟩ := h.node
  obtain ⟨t₁, heq₁, hsame₁, htail₁, hhead₁, hnodes₁⟩ := joinBefore_spec h hprev hnext
  have hnodup := List.nodup_append'.mp h.nodup
  have hrest : (before ++ after).Nodup :=
    h.nodup.sublist (List.Sublist.append_left (List.sublist_cons_self _ _) _)
  have hbound : ∀ i ∈ before ++ after, i < c.cap := by
    intro i hi
    apply h.bound
    rcases List.mem_append.mp hi with hi | hi
    · exact List.mem_append_left _ hi
    · exact List.mem_append_right _ (List.mem_cons_of_mem _ hi)
  unfold unlink
  rw [hnode, Option.bind_eq_bind, Option.bind_some, heq₁, Option.bind_eq_bind, Option.bind_some]
  unfold joinAfter
  cases hfirst : after.head? with
  | none =>
    obtain rfl := List.head?_eq_none_iff.mp hfirst
    rw [if_neg (by rw [hnext]; simp)]
    refine ⟨_, rfl, ⟨?_, hhead₁, ?_, hrest, hbound⟩, ?_⟩
    · apply h.linked.remove h.nodup
      intro j m _ hm
      obtain ⟨m', hm', hmprev, hmnext⟩ := hnodes₁ j m hm
      exact ⟨m', hm', by rw [hmprev]; simp, hmnext⟩
    · change n.prev = _
      rw [hprev, List.append_nil]
    · exact ⟨hsame₁.content, hsame₁.map, hsame₁.freeStack, hsame₁.freeLen⟩
  | some q =>
    have hq : q ∈ after := List.mem_of_mem_head? hfirst
    have hqmem : q ∈ before ++ idx :: after :=
      List.mem_append_right _ (List.mem_cons_of_mem _ hq)
    obtain ⟨old, hold⟩ := h.linked.occupied hqmem
    obtain ⟨old', hold', hold'prev, hold'next⟩ := hnodes₁ q old hold
    have hnextq : n.next = q := by rw [hnext, hfirst]; rfl
    rw [hnextq, if_pos (h.ne_none hqmem), modifyNode_eq (h.bound q hqmem) hold']
    refine ⟨_, rfl, ⟨?_, ?_, ?_, hrest, hbound⟩, ?_⟩
    · apply h.linked.remove h.nodup
      intro j m _ hm
      obtain ⟨m', hm', hmprev, hmnext⟩ := hnodes₁ j m hm
      by_cases hj : j = q
      · subst hj
        obtain rfl := Option.some.inj (hold'.symm.trans hm')
        refine ⟨{ old' with prev := n.prev }, Function.update_self .., ?_, hmnext⟩
        rw [if_pos hfirst]
        exact hprev
      · refine ⟨m', (Function.update_of_ne hj ..).trans hm', ?_, hmnext⟩
        rw [if_neg, hmprev]
        intro heq
        exact hj (Option.some.inj (heq.symm.trans hfirst))
    · exact hhead₁
    · change t₁.tail = _
      rw [htail₁, h.tail]
      cases after with
      | nil => cases hfirst
      | cons first after =>
        rw [List.getLast?_append_cons, List.getLast?_append_cons, List.getLast?_cons_cons]
    · exact hsame₁.trans ⟨content_store hold' rfl rfl, rfl, rfl, rfl⟩

theorem linkAtHead_spec (h : t.Ordered slots) (hfresh : idx ∉ slots) (hidx : idx < c.cap)
    {n : LruNode Ident} (hn : t.nodes idx = some n) :
    ∃ t', t.linkAtHead idx = some t' ∧ t'.Ordered (idx :: slots) ∧ SameContent t t' := by
  have hnode : t.node idx = some n := by
    unfold LruTable.node
    rw [if_pos hidx, hn]
  have hnodup : (idx :: slots).Nodup := List.nodup_cons.mpr ⟨hfresh, h.nodup⟩
  have hbound : ∀ i ∈ idx :: slots, i < c.cap := List.forall_mem_cons.mpr ⟨hidx, h.bound⟩
  have hother : ∀ j ∈ slots, j ≠ idx := by
    rintro j hj rfl
    exact hfresh hj
  unfold linkAtHead joinHead
  rw [hnode]
  dsimp only [Option.bind_eq_bind, Option.bind_some]
  cases hfirst : slots.head? with
  | none =>
    obtain rfl := List.head?_eq_none_iff.mp hfirst
    have hhead : t.head = noneIdx := h.head
    rw [hhead, if_neg (not_not_intro rfl), Option.bind_some]
    refine ⟨_, rfl, ⟨?_, rfl, rfl, hnodup, hbound⟩, content_store hn rfl rfl, rfl, rfl, rfl⟩
    apply h.linked.cons h.nodup (n := { n with prev := noneIdx, next := noneIdx })
      (Function.update_self ..) rfl rfl
    intro j m hj
    cases hj
  | some q =>
    have hq : q ∈ slots := List.mem_of_mem_head? hfirst
    have hhead : t.head = q := by rw [h.head, hfirst]; rfl
    obtain ⟨old, hold⟩ := h.linked.occupied hq
    have hold' : (t.store idx { n with prev := noneIdx, next := q }).nodes q = some old :=
      (Function.update_of_ne (hother q hq) ..).trans hold
    rw [hhead, if_pos (h.ne_none hq), modifyNode_eq (h.bound q hq) hold', Option.bind_some]
    have hidxq : idx ≠ q := (hother q hq).symm
    refine ⟨_, rfl, ⟨?_, rfl, ?_, hnodup, hbound⟩, ?_⟩
    · apply h.linked.cons h.nodup (n := { n with prev := noneIdx, next := q })
      · exact (Function.update_of_ne hidxq ..).trans (Function.update_self ..)
      · rfl
      · rw [hfirst]
        rfl
      · intro j m hj hm
        by_cases hjq : j = q
        · subst hjq
          obtain rfl := Option.some.inj (hold.symm.trans hm)
          refine ⟨{ old with prev := idx }, Function.update_self .., ?_, rfl⟩
          rw [if_pos hfirst]
        · refine ⟨m, ?_, ?_, rfl⟩
          · exact ((Function.update_of_ne hjq ..).trans
              (Function.update_of_ne (hother j hj) ..)).trans hm
          · rw [if_neg]
            intro heq
            exact hjq (Option.some.inj (heq.symm.trans hfirst))
    · change t.tail = _
      rw [h.tail]
      cases slots with
      | nil => cases hfirst
      | cons first slots => rw [List.getLast?_cons_cons]
    · have hstored : SameContent t (t.store idx { n with prev := noneIdx, next := q }) :=
        ⟨content_store hn rfl rfl, rfl, rfl, rfl⟩
      exact hstored.trans ⟨content_store hold' rfl rfl, rfl, rfl, rfl⟩

theorem moveToFront_spec (h : t.Ordered (before ++ idx :: after)) :
    ∃ t', t.moveToFront idx = some t' ∧ t'.Ordered (idx :: (before ++ after)) ∧
      SameContent t t' := by
  have hidx := h.bound idx (List.mem_append_right _ List.mem_cons_self)
  obtain ⟨hbefore, hafter, hdisjoint⟩ := List.nodup_append'.mp h.nodup
  unfold moveToFront
  by_cases hhead : t.head = idx
  · rw [if_pos hhead]
    cases before with
    | nil => exact ⟨t, rfl, h, fun _ => rfl, rfl, rfl, rfl⟩
    | cons first before =>
      have hfirst : first = idx := h.head.symm.trans hhead
      exact absurd List.mem_cons_self (hfirst ▸ hdisjoint List.mem_cons_self)
  · rw [if_neg hhead]
    obtain ⟨t₁, hunlink, hordered, hsame⟩ := unlink_spec h
    have hfresh : idx ∉ before ++ after := by
      rw [List.mem_append, not_or]
      exact ⟨fun hmem => hdisjoint hmem List.mem_cons_self, (List.nodup_cons.mp hafter).1⟩
    obtain ⟨n, _, hn, _⟩ := h.node
    obtain ⟨n₁, hn₁⟩ : ∃ n₁, t₁.nodes idx = some n₁ := by
      have hcontent := hsame.content idx
      unfold content at hcontent
      rw [hn] at hcontent
      obtain ⟨n₁, hn₁, _⟩ := Option.map_eq_some_iff.mp hcontent
      exact ⟨n₁, hn₁⟩
    obtain ⟨t₂, hlink, hordered₂, hsame₂⟩ := linkAtHead_spec hordered hfresh hidx hn₁
    refine ⟨t₂, ?_, hordered₂, hsame.trans hsame₂⟩
    rw [Option.bind_eq_bind, hunlink, Option.bind_some, hlink]


theorem Ordered.store (h : t.Ordered slots) {n n' : LruNode Ident} (hn : t.nodes idx = some n)
    (hprev : n'.prev = n.prev) (hnext : n'.next = n.next) : (t.store idx n').Ordered slots := by
  refine ⟨?_, h.head, h.tail, h.nodup, h.bound⟩
  intro before j after hsplit
  obtain ⟨m, hm, hmprev, hmnext⟩ := h.linked before j after hsplit
  by_cases hj : j = idx
  · subst hj
    obtain rfl := Option.some.inj (hn.symm.trans hm)
    exact ⟨n', Function.update_self .., hprev.trans hmprev, hnext.trans hmnext⟩
  · exact ⟨m, (Function.update_of_ne hj ..).trans hm, hmprev, hmnext⟩

/-! ### The map over the list -/

variable [DecidableEq Ident] {entries : List (Ident × Nat)} {k : Ident} {v : Nat}

/-- The list holds the entries in their order, and the map leads to all of them. -/
structure Holds (t : LruTable Ident c) (slots : List Nat) (entries : List (Ident × Nat)) :
    Prop where
  ordered : t.Ordered slots
  entries : slots.map t.content = entries.map some
  keyed : ∀ k i, t.map.get? k = some i ↔ i ∈ slots ∧ ∃ v, t.content i = some (k, v)
  stack : t.freeStack = List.range c.cap

theorem Holds.content_of_mem (h : t.Holds slots entries) (hidx : idx ∈ slots) :
    ∃ e ∈ entries, t.content idx = some e := by
  have hmem : t.content idx ∈ slots.map t.content := List.mem_map_of_mem hidx
  rw [h.entries] at hmem
  obtain ⟨e, he, heq⟩ := List.mem_map.mp hmem
  exact ⟨e, he, heq.symm⟩

theorem Holds.mem_of_entry (h : t.Holds slots entries) {e : Ident × Nat} (he : e ∈ entries) :
    ∃ i ∈ slots, t.content i = some e := by
  have hmem : some e ∈ entries.map some := List.mem_map_of_mem he
  rw [← h.entries] at hmem
  exact List.mem_map.mp hmem

theorem Holds.get?_eq_none (h : t.Holds slots entries) :
    t.map.get? k = none ↔ k ∉ entries.map Prod.fst := by
  constructor
  · intro hnone hmem
    obtain ⟨e, he, rfl⟩ := List.mem_map.mp hmem
    obtain ⟨i, hi, hcontent⟩ := h.mem_of_entry he
    have hsome := (h.keyed e.1 i).mpr ⟨hi, e.2, hcontent⟩
    rw [hnone] at hsome
    cases hsome
  · intro hnot
    rw [Option.eq_none_iff_forall_ne_some]
    intro i hsome
    obtain ⟨hi, v, hcontent⟩ := (h.keyed k i).mp hsome
    obtain ⟨e, he, heq⟩ := h.content_of_mem hi
    obtain rfl := Option.some.inj (hcontent.symm.trans heq)
    exact hnot (List.mem_map_of_mem he)

theorem Holds.keys_nodup (h : t.Holds slots entries) : (entries.map Prod.fst).Nodup := by
  have hkeys : slots.map (fun i => (t.content i).map Prod.fst) =
      (entries.map Prod.fst).map some := by
    have hmap := congrArg (List.map (Option.map Prod.fst)) h.entries
    rw [List.map_map, List.map_map] at hmap
    rw [List.map_map]
    exact hmap
  apply List.Nodup.of_map some
  rw [← hkeys]
  apply h.ordered.nodup.map_on
  intro i hi j hj heq
  obtain ⟨⟨k, v⟩, _, hcontent⟩ := h.content_of_mem hi
  obtain ⟨⟨k', v'⟩, _, hcontent'⟩ := h.content_of_mem hj
  rw [hcontent, hcontent'] at heq
  obtain rfl : k = k' := Option.some.inj heq
  have hget := (h.keyed k i).mpr ⟨hi, v, hcontent⟩
  have hget' := (h.keyed k j).mpr ⟨hj, v', hcontent'⟩
  exact Option.some.inj (hget.symm.trans hget')

theorem Holds.len_le (h : t.Holds slots entries) : t.map.len ≤ slots.length := by
  have hnodup : (t.map.entries.map Prod.snd).Nodup := by
    apply (List.Nodup.of_map Prod.fst t.map.nodup).map_on
    intro e he e' he' heq
    obtain ⟨_, v, hcontent⟩ := (h.keyed e.1 e.2).mp (IndexMap.get?_eq_some_iff.mpr he)
    obtain ⟨_, v', hcontent'⟩ := (h.keyed e'.1 e'.2).mp (IndexMap.get?_eq_some_iff.mpr he')
    rw [heq, hcontent'] at hcontent
    have hkey := congrArg Prod.fst (Option.some.inj hcontent)
    exact Prod.ext hkey.symm heq
  have hsub : t.map.entries.map Prod.snd ⊆ slots := by
    intro i hi
    obtain ⟨e, he, rfl⟩ := List.mem_map.mp hi
    exact ((h.keyed e.1 e.2).mp (IndexMap.get?_eq_some_iff.mpr he)).1
  have hlen := (List.subperm_of_subset hnodup hsub).length_le
  rw [List.length_map] at hlen
  exact hlen

/-- What a lookup finds stands at one place of both lists. -/
theorem Holds.split (h : t.Holds slots entries) (hget : t.map.get? k = some idx) :
    ∃ before after front back v, slots = before ++ idx :: after ∧
      entries = front ++ (k, v) :: back ∧ t.content idx = some (k, v) ∧
      before.map t.content = front.map some ∧ after.map t.content = back.map some := by
  obtain ⟨hmem, v, hcontent⟩ := (h.keyed k idx).mp hget
  obtain ⟨before, after, rfl⟩ := List.append_of_mem hmem
  have hentries := h.entries
  rw [List.map_append, List.map_cons] at hentries
  obtain ⟨front, rest, rfl, hfront, hrest⟩ := List.map_eq_append_iff.mp hentries.symm
  obtain ⟨e, back, rfl, he, hback⟩ := List.map_eq_cons_iff.mp hrest
  rw [hcontent] at he
  obtain rfl := Option.some.inj he
  exact ⟨before, after, front, back, v, rfl, rfl, hcontent, hfront.symm, hback.symm⟩

theorem moveToFront_holds (h : t.Holds slots entries) (hget : t.map.get? k = some idx)
    {t₁ : LruTable Ident c} (hordered : t₁.Ordered slots)
    (hcontent : t₁.content = Function.update t.content idx (some (k, v)))
    (hmap : t₁.map = t.map) (hstack : t₁.freeStack = t.freeStack) :
    ∃ t' before after front back w, t₁.moveToFront idx = some t' ∧
      slots = before ++ idx :: after ∧ entries = front ++ (k, w) :: back ∧
      t'.Holds (idx :: (before ++ after)) ((k, v) :: (front ++ back)) ∧
      t'.freeLen = t₁.freeLen ∧ t'.content = Function.update t.content idx (some (k, v)) := by
  obtain ⟨before, after, front, back, w, rfl, rfl, hold, hbefore, hafter⟩ := h.split hget
  obtain ⟨t', hmove, hordered', hsame⟩ := moveToFront_spec hordered
  have hcontent' : t'.content = Function.update t.content idx (some (k, v)) := by
    rw [← hcontent]
    exact funext hsame.content
  have hself : t'.content idx = some (k, v) := by rw [hcontent', Function.update_self]
  have hfresh := (List.nodup_cons.mp hordered'.nodup).1
  have hkept : ∀ i ∈ before ++ after, t'.content i = t.content i := by
    intro i hi
    rw [hcontent', Function.update_of_ne]
    rintro rfl
    exact hfresh hi
  refine ⟨t', before, after, front, back, w, hmove, rfl, rfl, ⟨hordered', ?_, ?_, ?_⟩,
    hsame.freeLen, hcontent'⟩
  · rw [List.map_cons, List.map_cons, hself, List.map_congr_left hkept, List.map_append,
      List.map_append, hbefore, hafter]
  · intro k' i
    rw [hsame.map, hmap, h.keyed k' i, List.mem_cons, List.mem_append, List.mem_append,
      List.mem_cons]
    by_cases hi : i = idx
    · subst hi
      rw [hself, hold]
      simp
    · rw [hcontent', Function.update_of_ne hi]
      simp [hi]
  · rw [hsame.freeStack, hstack, h.stack]

theorem linkAtHead_holds (h : t.Holds slots entries) (hfresh : idx ∉ slots) (hidx : idx < c.cap)
    (hroom : slots.length < c.cap) (hkey : k ∉ entries.map Prod.fst) :
    ∃ t', { t.store idx ⟨k, v, noneIdx, noneIdx⟩ with map := t.map.insertD k idx }.linkAtHead idx =
        some t' ∧ t'.Holds (idx :: slots) ((k, v) :: entries) ∧ t'.freeLen = t.freeLen ∧
      t'.content = Function.update t.content idx (some (k, v)) := by
  have hlen := h.len_le
  obtain ⟨map', hinsert⟩ := IndexMap.insert_isSome (m := t.map) (k := k) (v := idx)
    (Or.inr (by omega))
  have hinsertD : t.map.insertD k idx = map' := by
    unfold IndexMap.insertD
    rw [hinsert]
    rfl
  have hordered : LruTable.Ordered (c := c)
      { t.store idx ⟨k, v, noneIdx, noneIdx⟩ with map := t.map.insertD k idx } slots := by
    refine ⟨?_, h.ordered.head, h.ordered.tail, h.ordered.nodup, h.ordered.bound⟩
    apply h.ordered.linked.congr
    intro j hj
    apply Function.update_of_ne
    rintro rfl
    exact hfresh hj
  obtain ⟨t', hlink, hordered', hsame⟩ := linkAtHead_spec hordered hfresh hidx
    (Function.update_self ..)
  have hcontent : t'.content = Function.update t.content idx (some (k, v)) := by
    funext i
    rw [hsame.content i]
    by_cases hi : i = idx
    · subst hi
      rw [Function.update_self]
      change Option.map _ (Function.update t.nodes i _ i) = _
      rw [Function.update_self]
      rfl
    · rw [Function.update_of_ne hi]
      change Option.map _ (Function.update t.nodes idx _ i) = _
      rw [Function.update_of_ne hi]
      rfl
  have hself : t'.content idx = some (k, v) := by rw [hcontent, Function.update_self]
  have hkept : ∀ i ∈ slots, t'.content i = t.content i := by
    intro i hi
    rw [hcontent, Function.update_of_ne]
    rintro rfl
    exact hfresh hi
  refine ⟨t', hlink, ⟨hordered', ?_, ?_, ?_⟩, hsame.freeLen, hcontent⟩
  · rw [List.map_cons, List.map_cons, hself, List.map_congr_left hkept, h.entries]
  · intro k' i
    have hmap : t'.map.get? k' = if k' = k then some idx else t.map.get? k' := by
      rw [hsame.map]
      change (t.map.insertD k idx).get? k' = _
      rw [hinsertD, IndexMap.get?_insert hinsert]
    rw [hmap, List.mem_cons]
    by_cases hi : i = idx
    · subst hi
      rw [hself]
      split
      · rename_i hk
        simp [hk]
      · rename_i hk
        rw [h.keyed k' i]
        constructor
        · intro hmem
          exact absurd hmem.1 hfresh
        · rintro ⟨_, w, hw⟩
          exact absurd (congrArg Prod.fst (Option.some.inj hw)).symm hk
    · rw [hcontent, Function.update_of_ne hi]
      split
      · rename_i hk
        subst hk
        constructor
        · intro heq
          exact absurd (Option.some.inj heq).symm hi
        · rintro ⟨hmem | hmem, w, hw⟩
          · exact absurd hmem hi
          · have hsome := (h.keyed k' i).mpr ⟨hmem, w, hw⟩
            rw [h.get?_eq_none.mpr hkey] at hsome
            cases hsome
      · rw [h.keyed k' i]
        simp [hi]
  · rw [hsame.freeStack]
    exact h.stack

/-! ### The operations -/

variable {m : Recency Ident Nat c.maxLive} {slot : Nat} {kept : List Nat}
  {rest : List (Ident × Nat)}

/-- Beside the list: which slots are taken, and that no other holds anything. -/
structure Models (t : LruTable Ident c) (slots : List Nat) (m : Recency Ident Nat c.maxLive) :
    Prop where
  holds : t.Holds slots m.toList
  used : ∀ i, i ∈ slots ↔ t.freeLen ≤ i ∧ i < c.maxLive
  occupied : ∀ i, i ∈ slots ↔ ∃ e, t.content i = some e
  room : t.freeLen + slots.length = c.maxLive

theorem models_new : (new : LruTable Ident c).Models [] Bounded.empty where
  holds :=
    { ordered := ⟨linked_nil, rfl, rfl, List.nodup_nil, fun _ h => absurd h List.not_mem_nil⟩
      entries := rfl
      keyed := by
        intro k i
        constructor
        · intro h
          cases h
        · intro h
          exact absurd h.1 List.not_mem_nil
      stack := rfl }
  used := by
    intro i
    constructor
    · intro h
      cases h
    · intro h
      exact absurd (Nat.lt_of_le_of_lt h.1 h.2) (Nat.lt_irrefl _)
  occupied := by
    intro i
    constructor
    · intro h
      cases h
    · rintro ⟨_, h⟩
      cases h
  room := rfl

omit [DecidableEq Ident] in
theorem clear_eq_new : t.clear = new := rfl

theorem Models.length_eq (h : t.Models slots m) : m.toList.length = slots.length := by
  have hlen := congrArg List.length h.holds.entries
  rw [List.length_map, List.length_map] at hlen
  exact hlen.symm

theorem Models.use (h : t.Models slots m) (hget : t.map.get? k = some idx)
    {t₁ : LruTable Ident c} (hordered : t₁.Ordered slots)
    (hcontent : t₁.content = Function.update t.content idx (some (k, v)))
    (hmap : t₁.map = t.map) (hstack : t₁.freeStack = t.freeStack)
    (hfree : t₁.freeLen = t.freeLen) :
    ∃ t' slots', t₁.moveToFront idx = some t' ∧ t'.Models slots' (m.put k v) ∧
      t'.content idx = some (k, v) := by
  obtain ⟨t', before, after, front, back, w, hmove, rfl, hsplit, hholds, hfree', hcontent'⟩ :=
    moveToFront_holds h.holds hget hordered hcontent hmap hstack
  have hmem : ∀ i, i ∈ idx :: (before ++ after) ↔ i ∈ before ++ idx :: after := by
    intro i
    exact List.perm_middle.symm.mem_iff
  refine ⟨t', idx :: (before ++ after), hmove, ⟨?_, ?_, ?_, ?_⟩, ?_⟩
  · rw [Recency.put_of_mem hsplit h.holds.keys_nodup]
    exact hholds
  · intro i
    rw [hmem, h.used, hfree', hfree]
  · intro i
    rw [hmem, h.occupied, hcontent']
    by_cases hi : i = idx
    · subst hi
      rw [Function.update_self]
      have hin := ((h.holds.keyed k i).mp hget).1
      exact iff_of_true ((h.occupied i).mp hin) ⟨_, rfl⟩
    · rw [Function.update_of_ne hi]
  · rw [hfree', hfree, List.perm_middle.symm.length_eq, h.room]
  · rw [hcontent', Function.update_self]

/-- A slot in no list, and a list that has room for one more. -/
structure Vacant (t : LruTable Ident c) (slot : Nat) (kept : List Nat)
    (rest : List (Ident × Nat)) : Prop where
  holds : t.Holds kept rest
  fresh : slot ∉ kept
  used : ∀ i, i ∈ slot :: kept ↔ t.freeLen ≤ i ∧ i < c.maxLive
  occupied : ∀ i, i ∈ slot :: kept ↔ i = slot ∨ ∃ e, t.content i = some e
  room : t.freeLen + (slot :: kept).length = c.maxLive

theorem takeSlot_of_room (h : t.Models slots m) (hroom : 0 < t.freeLen) :
    ∃ slot t', t.takeSlot = some (slot, t') ∧ t'.Vacant slot slots m.toList := by
  have hlive := h.room
  have hcap := c.live_le
  have hslot : t.freeStack[t.freeLen - 1]? = some (t.freeLen - 1) := by
    rw [h.holds.stack, List.getElem?_range]
    omega
  unfold takeSlot
  rw [if_pos hroom, hslot]
  refine ⟨_, _, rfl, ⟨⟨?_, h.holds.entries, h.holds.keyed, h.holds.stack⟩, ?_, ?_, ?_, ?_⟩⟩
  · have hordered := h.holds.ordered
    exact ⟨hordered.linked, hordered.head, hordered.tail, hordered.nodup, hordered.bound⟩
  · rw [h.used]
    omega
  · intro i
    rw [List.mem_cons, h.used]
    dsimp only
    omega
  · intro i
    rw [List.mem_cons, h.occupied]
    rfl
  · dsimp only
    rw [List.length_cons]
    omega

/-- The entry at the end makes room. -/
theorem takeSlot_of_full (h : t.Models slots m) (hfull : t.freeLen = 0) :
    ∃ slot t' kept, t.takeSlot = some (slot, t') ∧ t'.Vacant slot kept m.toList.dropLast := by
  have hroom := h.room
  have hpos := c.live_pos
  have hne : slots ≠ [] := by
    rintro rfl
    rw [List.length_nil] at hroom
    omega
  obtain ⟨kept, slot, hconcat⟩ := (List.eq_nil_or_concat slots).resolve_left hne
  rw [List.concat_eq_append] at hconcat
  subst hconcat
  have hentries := h.holds.entries
  rw [List.map_append] at hentries
  obtain ⟨rest, last, htoList, hrest, hlast⟩ := List.map_eq_append_iff.mp hentries.symm
  obtain ⟨e, back, rfl, he, hback⟩ := List.map_eq_cons_iff.mp hlast
  obtain rfl := List.map_eq_nil_iff.mp hback
  have hnot : slot ∉ kept := by
    intro hmem
    exact (List.nodup_append'.mp h.holds.ordered.nodup).2.2 hmem (List.mem_singleton_self _)
  have hslot : slot ∈ kept ++ [slot] := List.mem_append_right _ (List.mem_singleton_self _)
  obtain ⟨n, hnode, hn, _, _⟩ := h.holds.ordered.node
  have hcontent : t.content slot = some (n.key, n.ifaceIdx) := by
    unfold content
    rw [hn]
    rfl
  have htail : t.tail = slot := by
    rw [h.holds.ordered.tail, List.getLast?_concat]
    rfl
  subst htail
  have hordered : LruTable.Ordered { t with map := t.map.remove n.key } (kept ++ [t.tail]) := by
    have hordered := h.holds.ordered
    exact ⟨hordered.linked, hordered.head, hordered.tail, hordered.nodup, hordered.bound⟩
  obtain ⟨t', hunlink, hordered', hsame⟩ := unlink_spec hordered
  rw [List.append_nil] at hordered'
  have hcontent' : ∀ i, t'.content i = t.content i := hsame.content
  unfold takeSlot
  rw [if_neg (by omega), hnode]
  dsimp only [Option.bind_eq_bind, Option.bind_some]
  rw [hunlink, Option.bind_some, htoList, List.dropLast_concat]
  refine ⟨t.tail, t', kept, rfl, ⟨⟨hordered', ?_, ?_, ?_⟩, hnot, ?_, ?_, ?_⟩⟩
  · rw [hrest]
    exact List.map_congr_left fun i _ => hcontent' i
  · intro k i
    have hmap : t'.map.get? k = if k = n.key then none else t.map.get? k := by
      rw [hsame.map]
      exact IndexMap.get?_remove k
    rw [hmap, hcontent']
    split
    · rename_i hk
      subst hk
      constructor
      · intro heq
        cases heq
      · rintro ⟨hmem, v, hv⟩
        have hget := (h.holds.keyed n.key i).mpr ⟨List.mem_append_left _ hmem, v, hv⟩
        have hget' := (h.holds.keyed n.key t.tail).mpr ⟨hslot, _, hcontent⟩
        obtain rfl := Option.some.inj (hget.symm.trans hget')
        exact absurd hmem hnot
    · rename_i hk
      rw [h.holds.keyed k i, List.mem_append, List.mem_singleton]
      constructor
      · rintro ⟨hmem | rfl, v, hv⟩
        · exact ⟨hmem, v, hv⟩
        · rw [hcontent] at hv
          exact absurd (congrArg Prod.fst (Option.some.inj hv)).symm hk
      · rintro ⟨hmem, v, hv⟩
        exact ⟨Or.inl hmem, v, hv⟩
  · rw [hsame.freeStack]
    exact h.holds.stack
  · intro i
    rw [hsame.freeLen, List.mem_cons, or_comm, ← List.mem_singleton, ← List.mem_append]
    exact h.used i
  · intro i
    rw [hcontent', ← h.occupied i, List.mem_cons, List.mem_append, List.mem_singleton]
    constructor
    · rintro (rfl | hmem)
      · exact Or.inl rfl
      · exact Or.inr (Or.inl hmem)
    · rintro (rfl | hmem | rfl)
      · exact Or.inl rfl
      · exact Or.inr hmem
      · exact Or.inl rfl
  · rw [hsame.freeLen, List.length_cons]
    rw [List.length_append, List.length_singleton] at hroom
    exact hroom

theorem Vacant.fill (h : t.Vacant slot kept rest) (hkey : k ∉ rest.map Prod.fst)
    (hput : (m.put k v).toList = (k, v) :: rest) :
    slot < c.cap ∧ ∃ t', { t.store slot ⟨k, v, noneIdx, noneIdx⟩ with
        map := t.map.insertD k slot }.linkAtHead slot = some t' ∧
      t'.Models (slot :: kept) (m.put k v) := by
  have hcap := c.live_le
  have hroom := h.room
  rw [List.length_cons] at hroom
  have hslot : slot < c.cap := by
    have hused := (h.used slot).mp List.mem_cons_self
    omega
  obtain ⟨t', hlink, hholds, hfree, hcontent⟩ :=
    linkAtHead_holds (v := v) h.holds h.fresh hslot (by omega) hkey
  refine ⟨hslot, t', hlink, ⟨?_, ?_, ?_, ?_⟩⟩
  · rw [hput]
    exact hholds
  · intro i
    rw [hfree]
    exact h.used i
  · intro i
    rw [h.occupied, hcontent]
    by_cases hi : i = slot
    · rw [hi, Function.update_self]
      exact iff_of_true (Or.inl rfl) ⟨_, rfl⟩
    · rw [Function.update_of_ne hi]
      exact or_iff_right hi
  · rw [hfree]
    exact h.room

theorem addRecord_spec (h : t.Models slots m) (k : Ident) (v : Nat) :
    ∃ t' slots', t.addRecord v k = some t' ∧ t'.Models slots' (m.put k v) := by
  unfold addRecord
  cases hget : t.map.get? k with
  | some idx =>
    obtain ⟨hmem, w, hw⟩ := (h.holds.keyed k idx).mp hget
    obtain ⟨n, hn⟩ := h.holds.ordered.linked.occupied hmem
    have hidx := h.holds.ordered.bound idx hmem
    have hkey : n.key = k := by
      unfold content at hw
      rw [hn] at hw
      exact congrArg Prod.fst (Option.some.inj hw)
    have hordered : (t.store idx { n with ifaceIdx := v }).Ordered slots :=
      h.holds.ordered.store hn rfl rfl
    have hcontent : (t.store idx { n with ifaceIdx := v }).content =
        Function.update t.content idx (some (k, v)) := by
      funext i
      unfold content store
      dsimp only
      by_cases hi : i = idx
      · subst hi
        rw [Function.update_self, Function.update_self, ← hkey]
        rfl
      · rw [Function.update_of_ne hi, Function.update_of_ne hi]
    obtain ⟨t', slots', hmove, hmodels, _⟩ := h.use hget hordered hcontent rfl rfl rfl
    refine ⟨t', slots', ?_, hmodels⟩
    dsimp only
    rw [modifyNode_eq hidx hn, Option.bind_eq_bind, Option.bind_some, hmove]
  | none =>
    have hkey := h.holds.get?_eq_none.mp hget
    have hlen := h.length_eq
    have hroom := h.room
    dsimp only
    rcases Nat.eq_zero_or_pos t.freeLen with hfree | hfree
    · obtain ⟨slot, t₁, kept, htake, hvacant⟩ := takeSlot_of_full h hfree
      have hput : (m.put k v).toList = (k, v) :: m.toList.dropLast :=
        Recency.put_of_full hkey c.live_pos (by omega)
      have hkey' : k ∉ m.toList.dropLast.map Prod.fst := by
        intro hmem
        obtain ⟨e, he, heq⟩ := List.mem_map.mp hmem
        exact hkey (List.mem_map.mpr ⟨e, (List.dropLast_sublist _).subset he, heq⟩)
      obtain ⟨hslot, t', hlink, hmodels⟩ := hvacant.fill hkey' hput
      refine ⟨t', _, ?_, hmodels⟩
      rw [htake, Option.bind_eq_bind, Option.bind_some]
      dsimp only
      rw [if_pos hslot]
      exact hlink
    · obtain ⟨slot, t₁, htake, hvacant⟩ := takeSlot_of_room h hfree
      have hput : (m.put k v).toList = (k, v) :: m.toList :=
        Recency.put_of_room hkey (by omega)
      obtain ⟨hslot, t', hlink, hmodels⟩ := hvacant.fill hkey hput
      refine ⟨t', _, ?_, hmodels⟩
      rw [htake, Option.bind_eq_bind, Option.bind_some]
      dsimp only
      rw [if_pos hslot]
      exact hlink

omit [DecidableEq Ident] in
theorem node_of_content (hbound : idx < c.cap) (hcontent : t.content idx = some (k, v)) :
    ∃ n, t.node idx = some n ∧ n.ifaceIdx = v := by
  obtain ⟨n, hn, heq⟩ := Option.map_eq_some_iff.mp hcontent
  refine ⟨n, ?_, congrArg Prod.snd heq⟩
  unfold LruTable.node
  rw [if_pos hbound, hn]

theorem Models.get? (h : t.Models slots m) (k : Ident) :
    (t.map.get? k = none ∧ m.get? k = none) ∨
      ∃ idx v, t.map.get? k = some idx ∧ m.get? k = some v ∧ t.content idx = some (k, v) ∧
        idx < c.cap := by
  cases hget : t.map.get? k with
  | none => exact Or.inl ⟨rfl, Recency.get?_eq_none.mpr (h.holds.get?_eq_none.mp hget)⟩
  | some idx =>
    obtain ⟨_, _, front, back, v, hslots, hsplit, hcontent, _⟩ := h.holds.split hget
    have hlookup := Recency.get?_of_split hsplit h.holds.keys_nodup
    have hmem := ((h.holds.keyed k idx).mp hget).1
    exact Or.inr ⟨idx, v, rfl, hlookup, hcontent, h.holds.ordered.bound idx hmem⟩

theorem getEgressInterface_spec (h : t.Models slots m) (k : Ident) :
    ∃ t' slots', t.getEgressInterface k = some ((m.use k).1, t') ∧
      t'.Models slots' (m.use k).2 := by
  unfold getEgressInterface Recency.use
  rcases h.get? k with ⟨hget, hlookup⟩ | ⟨idx, v, hget, hlookup, hcontent, hbound⟩
  · rw [hget, hlookup]
    exact ⟨t, slots, rfl, h⟩
  · have hsame : t.content = Function.update t.content idx (some (k, v)) := by
      rw [← hcontent, Function.update_eq_self]
    obtain ⟨t', slots', hmove, hmodels, hcontent'⟩ :=
      h.use hget h.holds.ordered hsame rfl rfl rfl
    obtain ⟨n, hnode, hiface⟩ := node_of_content hbound hcontent'
    rw [hget, hlookup]
    refine ⟨t', slots', ?_, hmodels⟩
    dsimp only
    rw [hmove, Option.bind_eq_bind, Option.bind_some, hnode, Option.bind_eq_bind,
      Option.bind_some, hiface]

theorem peekEgressInterface_spec (h : t.Models slots m) (k : Ident) :
    t.peekEgressInterface k = some (m.get? k) := by
  unfold peekEgressInterface
  rcases h.get? k with ⟨hget, hlookup⟩ | ⟨idx, v, hget, hlookup, hcontent, hbound⟩
  · rw [hget, hlookup]
  · obtain ⟨n, hnode, hiface⟩ := node_of_content hbound hcontent
    rw [hget, hlookup]
    dsimp only
    rw [hnode, Option.map_some, hiface]

end LruTable

/-! ### Runs -/

inductive IdentOp (Ident : Type)
  | addRecord (ifaceIdx : Nat) (dest : Ident)
  | getEgressInterface (dest : Ident)
  | peekEgressInterface (dest : Ident)
  | clear

namespace IdentOp

variable {Ident : Type} [DecidableEq Ident] {c : IdentCaps} {cap : Nat}

/-- What an operation gives back and leaves. Nothing, where the program would stop. -/
def onTable (op : IdentOp Ident) (t : LruTable Ident c) : Option (Option Nat × LruTable Ident c) :=
  match op with
  | .addRecord ifaceIdx dest => (t.addRecord ifaceIdx dest).map fun t => (none, t)
  | .getEgressInterface dest => t.getEgressInterface dest
  | .peekEgressInterface dest => (t.peekEgressInterface dest).map fun found => (found, t)
  | .clear => some (none, t.clear)

/-- The same on the map that forgets. -/
def onMap (op : IdentOp Ident) (m : Recency Ident Nat cap) : Option Nat × Recency Ident Nat cap :=
  match op with
  | .addRecord ifaceIdx dest => (none, m.put dest ifaceIdx)
  | .getEgressInterface dest => m.use dest
  | .peekEgressInterface dest => (m.get? dest, m)
  | .clear => (none, Bounded.empty)

def tableStep (t : Option (LruTable Ident c)) (op : IdentOp Ident) : Option (LruTable Ident c) :=
  (t.bind op.onTable).map Prod.snd

def mapStep (m : Recency Ident Nat cap) (op : IdentOp Ident) : Recency Ident Nat cap :=
  (op.onMap m).2

/-- The interface that was recorded last for an identifier, since all were dropped. -/
def noteRecord (dest : Ident) (last : Option Nat) : IdentOp Ident → Option Nat
  | .addRecord ifaceIdx dest' => if dest' = dest then some ifaceIdx else last
  | .clear => none
  | _ => last

def lastRecorded (ops : List (IdentOp Ident)) (dest : Ident) : Option Nat :=
  Run.run (noteRecord dest) none ops

end IdentOp

open IdentOp

section Runs
variable {Ident : Type} [DecidableEq Ident] {c : IdentCaps} {cap : Nat}
  {t : LruTable Ident c} {slots : List Nat} {m : Recency Ident Nat c.maxLive}

theorem onTable_spec (h : t.Models slots m) (op : IdentOp Ident) :
    ∃ t' slots', op.onTable t = some ((op.onMap m).1, t') ∧ t'.Models slots' (op.onMap m).2 := by
  cases op with
  | addRecord ifaceIdx dest =>
    obtain ⟨t', slots', heq, hmodels⟩ := LruTable.addRecord_spec h dest ifaceIdx
    refine ⟨t', slots', ?_, hmodels⟩
    unfold onTable
    dsimp only
    rw [heq]
    rfl
  | getEgressInterface dest => exact LruTable.getEgressInterface_spec h dest
  | peekEgressInterface dest =>
    refine ⟨t, slots, ?_, h⟩
    unfold onTable
    dsimp only
    rw [LruTable.peekEgressInterface_spec h dest]
    rfl
  | clear => exact ⟨LruTable.new, [], rfl, LruTable.models_new⟩

theorem run_models (c : IdentCaps) (ops : List (IdentOp Ident)) :
    ∃ t slots, Run.run tableStep (some (LruTable.new : LruTable Ident c)) ops = some t ∧
      t.Models slots (Run.run mapStep Bounded.empty ops) := by
  induction ops using List.reverseRecOn with
  | nil => exact ⟨LruTable.new, [], rfl, LruTable.models_new⟩
  | append_singleton ops op ih =>
    obtain ⟨t, slots, hrun, hmodels⟩ := ih
    obtain ⟨t', slots', hstep, hmodels'⟩ := onTable_spec hmodels op
    refine ⟨t', slots', ?_, ?_⟩
    · rw [Run.run_append_singleton, hrun]
      unfold tableStep
      rw [Option.bind_some, hstep]
      rfl
    · rw [Run.run_append_singleton]
      exact hmodels'

/-- An answer is what was recorded last, whatever was pushed out since. -/
theorem get?_lastRecorded (ops : List (IdentOp Ident)) {dest : Ident} {ifaceIdx : Nat}
    (h : (dest, ifaceIdx) ∈ (Run.run mapStep (Bounded.empty : Recency Ident Nat cap) ops).toList) :
    lastRecorded ops dest = some ifaceIdx := by
  unfold lastRecorded
  induction ops using List.reverseRecOn with
  | nil => cases h
  | append_singleton ops op ih =>
    rw [Run.run_append_singleton] at h ⊢
    generalize Run.run mapStep Bounded.empty ops = m at h ih
    cases op with
    | addRecord ifaceIdx' dest' =>
      rcases Recency.mem_put h with heq | ⟨hmem, hne⟩
      · obtain ⟨rfl, rfl⟩ := Prod.mk.inj heq
        exact if_pos rfl
      · exact (if_neg (Ne.symm hne)).trans (ih hmem)
    | getEgressInterface dest' =>
      apply ih
      unfold mapStep onMap Recency.use at h
      dsimp only at h
      cases hget : m.get? dest' with
      | none =>
        rw [hget] at h
        exact h
      | some v =>
        rw [hget] at h
        rcases Recency.mem_put h with heq | ⟨hmem, _⟩
        · rw [heq]
          exact Recency.mem_of_get? hget
        · exact hmem
    | peekEgressInterface dest' => exact ih h
    | clear => cases h

/-- From end to end and back: the slots that the map leads to, each once. -/
structure LruTable.Visits (t : LruTable Ident c) (slots : List Nat) : Prop where
  forward : walk t.nodes LruNode.next noneIdx c.cap t.head = some slots
  backward : walk t.nodes LruNode.prev noneIdx c.cap t.tail = some slots.reverse
  once : slots.Nodup
  mapped : ∀ i, i ∈ slots ↔ ∃ dest, t.map.get? dest = some i
  occupied : ∀ i, i ∈ slots ↔ ∃ n, t.nodes i = some n

theorem LruTable.Models.visits (h : t.Models slots m) : t.Visits slots := by
  have hordered := h.holds.ordered
  have hnil : noneIdx ∉ slots := fun hmem => hordered.ne_none hmem rfl
  have hlen : slots.length ≤ c.cap := by
    have hroom := h.room
    have hcap := c.live_le
    omega
  refine ⟨?_, ?_, hordered.nodup, ?_, ?_⟩
  · rw [hordered.head]
    have hlinked : Linked LruNode.prev LruNode.next noneIdx t.nodes ([] ++ slots) :=
      hordered.linked
    exact walk_next hlinked hnil hlen
  · rw [hordered.tail]
    have hlinked : Linked LruNode.prev LruNode.next noneIdx t.nodes (slots ++ []) := by
      rw [List.append_nil]
      exact hordered.linked
    exact walk_prev hlinked (by rw [List.append_nil]; exact hnil) hlen
  · intro i
    constructor
    · intro hi
      obtain ⟨e, _, hcontent⟩ := h.holds.content_of_mem hi
      exact ⟨e.1, (h.holds.keyed e.1 i).mpr ⟨hi, e.2, hcontent⟩⟩
    · rintro ⟨dest, hget⟩
      exact ((h.holds.keyed dest i).mp hget).1
  · intro i
    rw [h.occupied i]
    constructor
    · rintro ⟨e, hcontent⟩
      obtain ⟨n, hn, _⟩ := Option.map_eq_some_iff.mp hcontent
      exact ⟨n, hn⟩
    · rintro ⟨n, hn⟩
      exact ⟨_, congrArg (Option.map _) hn⟩

/-- No operation stops the program, and each answers as the map that forgets does. The list
visits the slots of its keys, and only a new key in a full table makes one of them leave. -/
theorem identTable_recency (c : IdentCaps) (ops : List (IdentOp Ident)) :
    let m : Recency Ident Nat c.maxLive := Run.run mapStep Bounded.empty ops
    ∃ t slots, Run.run tableStep (some (LruTable.new : LruTable Ident c)) ops = some t ∧
      t.Visits slots ∧ slots.map t.content = m.toList.map some ∧
      t.clear = LruTable.new ∧
      (∀ op : IdentOp Ident, ∃ t' slots', op.onTable t = some ((op.onMap m).1, t') ∧
        t'.Visits slots' ∧ slots'.map t'.content = (op.onMap m).2.toList.map some) ∧
      (∀ dest, t.peekEgressInterface dest = some (m.get? dest) ∧
        (dest ∈ m.keys → m.get? dest = lastRecorded ops dest) ∧
        (dest ∉ m.keys → m.get? dest = none)) ∧
      (∀ dest ifaceIdx, (mapStep m (.addRecord ifaceIdx dest)).keys =
        dest :: if dest ∈ m.keys then m.keys.erase dest
          else if m.keys.length = c.maxLive then m.keys.dropLast else m.keys) ∧
      (∀ dest, (mapStep m (.getEgressInterface dest)).keys =
        if dest ∈ m.keys then dest :: m.keys.erase dest else m.keys) ∧
      ∀ op, ∀ dest ∈ m.keys, dest ∉ (mapStep m op).keys → op = .clear ∨
        ∃ ifaceIdx dest', op = .addRecord ifaceIdx dest' ∧ dest' ∉ m.keys ∧
          m.keys.length = c.maxLive ∧ m.keys.getLast? = some dest := by
  intro m
  obtain ⟨t, slots, hrun, hmodels⟩ := run_models c ops
  have hnodup : m.keys.Nodup := hmodels.holds.keys_nodup
  have hlen : m.keys.length = m.toList.length := List.length_map _
  have hput : ∀ (dest : Ident) (ifaceIdx : Nat), (m.put dest ifaceIdx).keys =
      dest :: if dest ∈ m.keys then m.keys.erase dest
        else if m.keys.length = c.maxLive then m.keys.dropLast else m.keys := by
    intro dest ifaceIdx
    rw [hlen]
    exact Recency.keys_put hnodup c.live_pos
  have huse : ∀ dest, (m.use dest).2.keys =
      if dest ∈ m.keys then dest :: m.keys.erase dest else m.keys := by
    intro dest
    unfold Recency.use
    cases hget : m.get? dest with
    | none => rw [if_neg (Recency.get?_eq_none.mp hget)]
    | some v =>
      have hmem : dest ∈ m.keys := List.mem_map_of_mem (Recency.mem_of_get? hget)
      dsimp only
      rw [hput, if_pos hmem, if_pos hmem]
  refine ⟨t, slots, hrun, hmodels.visits, hmodels.holds.entries, rfl, ?_, ?_, ?_, huse, ?_⟩
  · intro op
    obtain ⟨t', slots', heq, hmodels'⟩ := onTable_spec hmodels op
    exact ⟨t', slots', heq, hmodels'.visits, hmodels'.holds.entries⟩
  · intro dest
    refine ⟨LruTable.peekEgressInterface_spec hmodels dest, ?_, Recency.get?_eq_none.mpr⟩
    intro hmem
    cases hget : m.get? dest with
    | none => exact absurd hmem (Recency.get?_eq_none.mp hget)
    | some v => rw [get?_lastRecorded ops (Recency.mem_of_get? hget)]
  · exact fun dest ifaceIdx => hput dest ifaceIdx
  · intro op dest hmem hgone
    cases op with
    | addRecord ifaceIdx dest' =>
      obtain ⟨hnew, hfull, hlast⟩ := Recency.forgotten_by_put hnodup c.live_pos hmem hgone
      exact Or.inr ⟨ifaceIdx, dest', rfl, hnew, hlen.trans hfull, hlast⟩
    | getEgressInterface dest' =>
      exfalso
      apply hgone
      change dest ∈ (m.use dest').2.keys
      rw [huse]
      split
      · by_cases heq : dest = dest'
        · rw [heq]
          exact List.mem_cons_self
        · exact List.mem_cons_of_mem _ ((List.mem_erase_of_ne heq).mpr hmem)
      · exact hmem
    | peekEgressInterface dest' => exact absurd hmem hgone
    | clear => exact Or.inl rfl

end Runs

/-- The table of link destinations is the map that forgets. -/
theorem identTable_eq {maxLive : Nat} (t : IdentTable maxLive) (ifaceIdx : Nat) (dest : Mac) :
    t.addRecord ifaceIdx dest = Recency.put t dest ifaceIdx ∧
      t.peekEgressInterface dest = Recency.get? t dest ∧
      t.getEgressInterface dest = Recency.use t dest := by
  have hpeek : t.peekEgressInterface dest = Recency.get? t dest := rfl
  refine ⟨rfl, hpeek, ?_⟩
  unfold IdentTable.getEgressInterface Recency.use
  rw [hpeek]
  cases Recency.get? t dest with
  | none => rfl
  | some ifaceIdx => rfl

end Wayfinder
