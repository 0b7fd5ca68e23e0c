import Mathlib.Data.Finset.Image
import Mathlib.Data.Finset.Sort
import Wayfinder.Frame
import Wayfinder.Lib.Change

/-!
# Snooping multicast membership

The groups that the local host listens to are read off the messages it sends. A message says
of IPv4 groups that the host joins or leaves them. What is kept are the link addresses of the
groups, and thirty-two groups share one.
-/

namespace Wayfinder

set_option autoImplicit false

structure Ipv4Addr where
  o0 : U8
  o1 : U8
  o2 : U8
  o3 : U8
  deriving DecidableEq

/-- `Mac::from_ipv4_multicast`: the low 23 bits of the group. -/
def Mac.fromIpv4Multicast (group : Ipv4Addr) : Mac :=
  ⟨0x01, 0x00, 0x5e, group.o1 &&& 0x7f, group.o2, group.o3⟩

/-- The octets as one number, which orders addresses as their octets do. -/
def Mac.key (m : Mac) : Nat :=
  ((((m.o0.toNat * 256 + m.o1.toNat) * 256 + m.o2.toNat) * 256 + m.o3.toNat) * 256 +
    m.o4.toNat) * 256 + m.o5.toNat

theorem Mac.key_injective {m m' : Mac} (h : m.key = m'.key) : m = m' := by
  obtain ⟨a0, a1, a2, a3, a4, a5⟩ := m
  obtain ⟨b0, b1, b2, b3, b4, b5⟩ := m'
  unfold key at h
  dsimp only at h
  have := a0.isLt; have := a1.isLt; have := a2.isLt; have := a3.isLt; have := a4.isLt
  have := a5.isLt; have := b0.isLt; have := b1.isLt; have := b2.isLt; have := b3.isLt
  have := b4.isLt; have := b5.isLt
  rw [Mac.mk.injEq]
  refine ⟨?_, ?_, ?_, ?_, ?_, ?_⟩
  all_goals
    apply BitVec.eq_of_toNat_eq
    omega

def Mac.KeyLe (m m' : Mac) : Prop := m.key ≤ m'.key

instance : DecidableRel Mac.KeyLe := fun m m' => inferInstanceAs (Decidable (m.key ≤ m'.key))

instance : IsTrans Mac Mac.KeyLe := ⟨fun _ _ _ h h' => Nat.le_trans h h'⟩

instance : Std.Antisymm Mac.KeyLe := ⟨fun _ _ h h' => Mac.key_injective (Nat.le_antisymm h h')⟩

instance : Std.Total Mac.KeyLe := ⟨fun m m' => Nat.le_total m.key m'.key⟩

def ipProtoIgmp : U8 := 2

/-- The link address of the group at an offset of a message, if the message reaches that
far. -/
def groupAt (igmp : Bytes) (off : Nat) : Option Mac :=
  match igmp.drop off with
  | a :: b :: c :: d :: _ => some (Mac.fromIpv4Multicast ⟨a, b, c, d⟩)
  | _ => none

structure McastSnooper where
  groups : Finset Mac

namespace McastSnooper

open Run

def new : McastSnooper := ⟨∅⟩

/-- Whether the group was not there. -/
def join (s : McastSnooper) (group : Mac) : McastSnooper × Bool :=
  (⟨insert group s.groups⟩, decide (group ∉ s.groups))

/-- Whether the group was there. -/
def leave (s : McastSnooper) (group : Mac) : McastSnooper × Bool :=
  (⟨s.groups.erase group⟩, decide (group ∈ s.groups))

/-- An INCLUDE-mode record with no sources. -/
def isLeave (recType : U8) (numSources : Nat) : Bool :=
  (recType = 1 ∨ recType = 3) ∧ numSources = 0

/-- The loop over the records of a report. -/
def applyRecords (igmp : Bytes) : Nat → Nat → McastSnooper → Bool → McastSnooper × Bool
  | 0, _, s, changed => (s, changed)
  | n + 1, off, s, changed =>
    if igmp.length < off + 8 then (s, changed)
    else
      let recType := igmp.getD off 0
      let auxWords := (igmp.getD (off + 1) 0).toNat
      let numSources := (Be16.mk (igmp.getD (off + 2) 0) (igmp.getD (off + 3) 0)).get
      match groupAt igmp (off + 4) with
      | none => (s, changed)
      | some group =>
        let r := if isLeave recType numSources then s.leave group else s.join group
        applyRecords igmp n (off + (8 + numSources * 4 + auxWords * 4)) r.1 (changed || r.2)

def applyIgmpV3 (s : McastSnooper) (igmp : Bytes) : McastSnooper × Bool :=
  if igmp.length < 8 then (s, false)
  else applyRecords igmp (Be16.mk (igmp.getD 6 0) (igmp.getD 7 0)).get 8 s false

def applyIgmp (s : McastSnooper) (igmp : Bytes) : McastSnooper × Bool :=
  match igmp.head? with
  | none => (s, false)
  | some ty =>
    if ty = 0x12 ∨ ty = 0x16 then ((groupAt igmp 4).map s.join).getD (s, false)
    else if ty = 0x17 then ((groupAt igmp 4).map s.leave).getD (s, false)
    else if ty = 0x22 then s.applyIgmpV3 igmp
    else (s, false)

section

-- The parser of the headers: the protocol and the payload of a frame that carries IPv4.
variable (sliced : Bytes → Option (U8 × Bytes))

def igmpPayload (eth : Bytes) : Option Bytes :=
  (sliced eth).bind fun ip => if ip.1 = ipProtoIgmp then some ip.2 else none

def observe (s : McastSnooper) (eth : Bytes) : McastSnooper × Bool :=
  match igmpPayload sliced eth with
  | some igmp => s.applyIgmp igmp
  | none => (s, false)

/-- The snooper behind the frames it saw. -/
def watch (s : McastSnooper) (eth : Bytes) : McastSnooper := (s.observe sliced eth).1

end

/-- `groups`, in the order of the octets. -/
def sortedGroups (s : McastSnooper) : List Mac := s.groups.sort Mac.KeyLe

/-! ### What the messages say

A record is complete once its type, its counts and its group are there: the sources and the
data behind them are not looked at. -/

/-- At most `n` records, one behind the other. -/
def reportRecords : Nat → Bytes → List (Change Ipv4Addr)
  | n + 1, ty :: aux :: s1 :: s0 :: a :: b :: c :: d :: rest =>
    ⟨⟨a, b, c, d⟩, !isLeave ty (Be16.mk s1 s0).get⟩ ::
      reportRecords n (rest.drop ((Be16.mk s1 s0).get * 4 + aux.toNat * 4))
  | _, _ => []

def messageRecords (igmp : Bytes) : List (Change Ipv4Addr) :=
  match igmp with
  | ty :: _ :: _ :: _ :: a :: b :: c :: d :: rest =>
    if ty = 0x12 ∨ ty = 0x16 then [⟨⟨a, b, c, d⟩, true⟩]
    else if ty = 0x17 then [⟨⟨a, b, c, d⟩, false⟩]
    else if ty = 0x22 then reportRecords (Be16.mk c d).get rest
    else []
  | _ => []

def frameRecords (sliced : Bytes → Option (U8 × Bytes)) (eth : Bytes) : List (Change Ipv4Addr) :=
  (igmpPayload sliced eth).elim [] messageRecords

/-- The records as the snooper takes them, from a set and from whether it has changed. -/
def taken (groups : Finset Mac) (changed : Bool) (records : List (Change Ipv4Addr)) :
    McastSnooper × Bool :=
  let noted := run Change.note (groups, changed)
    (records.map (Change.map Mac.fromIpv4Multicast))
  (⟨noted.1⟩, noted.2)

theorem taken_nil (groups : Finset Mac) (changed : Bool) :
    taken groups changed [] = (⟨groups⟩, changed) := rfl

theorem taken_cons (groups : Finset Mac) (changed : Bool) (r : Change Ipv4Addr)
    (records : List (Change Ipv4Addr)) :
    taken groups changed (r :: records) =
      taken (Change.apply groups (r.map Mac.fromIpv4Multicast))
        (changed || decide (Change.apply groups (r.map Mac.fromIpv4Multicast) ≠ groups))
        records := rfl

theorem join_eq (s : McastSnooper) (g : Mac) :
    s.join g = (⟨Change.apply s.groups ⟨g, true⟩⟩,
      decide (Change.apply s.groups ⟨g, true⟩ ≠ s.groups)) := by
  have happly : Change.apply s.groups ⟨g, true⟩ = insert g s.groups := Change.apply_join rfl
  rw [happly, join]
  congr 1
  exact decide_eq_decide.mpr (not_congr Finset.insert_eq_self).symm

theorem leave_eq (s : McastSnooper) (g : Mac) :
    s.leave g = (⟨Change.apply s.groups ⟨g, false⟩⟩,
      decide (Change.apply s.groups ⟨g, false⟩ ≠ s.groups)) := by
  have happly : Change.apply s.groups ⟨g, false⟩ = s.groups.erase g := Change.apply_leave rfl
  rw [happly, leave]
  congr 1
  apply decide_eq_decide.mpr
  rw [Ne, Finset.erase_eq_self, not_not]

theorem drop_eight {a b c d e f g h : U8} {rest : Bytes} (k : Nat) :
    (a :: b :: c :: d :: e :: f :: g :: h :: rest).drop (8 + k) = rest.drop k := by
  rw [← List.drop_drop]
  rfl

theorem exists_eight {bytes : Bytes} (h : 8 ≤ bytes.length) :
    ∃ b0 b1 b2 b3 b4 b5 b6 b7 rest,
      bytes = b0 :: b1 :: b2 :: b3 :: b4 :: b5 :: b6 :: b7 :: rest := by
  match bytes, h with
  | b0 :: b1 :: b2 :: b3 :: b4 :: b5 :: b6 :: b7 :: rest, _ =>
    exact ⟨b0, b1, b2, b3, b4, b5, b6, b7, rest, rfl⟩

theorem reportRecords_short {bytes : Bytes} (n : Nat) (h : bytes.length < 8) :
    reportRecords n bytes = [] := by
  unfold reportRecords
  split
  · simp only [List.length_cons] at h
    omega
  · rfl

theorem messageRecords_short {bytes : Bytes} (h : bytes.length < 8) :
    messageRecords bytes = [] := by
  unfold messageRecords
  split
  · simp only [List.length_cons] at h
    omega
  · rfl

theorem applyRecords_eq (igmp : Bytes) (n off : Nat) (s : McastSnooper) (changed : Bool) :
    applyRecords igmp n off s changed =
      taken s.groups changed (reportRecords n (igmp.drop off)) := by
  induction n generalizing off s changed with
  | zero => rfl
  | succ n ih =>
    have hlength : (igmp.drop off).length = igmp.length - off := List.length_drop ..
    rw [applyRecords]
    by_cases hshort : igmp.length < off + 8
    · rw [if_pos hshort, reportRecords_short _ (by omega)]
      rfl
    · obtain ⟨ty, aux, s1, s0, a, b, c, d, rest, hdrop⟩ :=
        exists_eight (show 8 ≤ (igmp.drop off).length by omega)
      have hget : ∀ i, igmp.getD (off + i) 0 = (igmp.drop off).getD i 0 := by
        intro i
        rw [List.getD_eq_getElem?_getD, List.getD_eq_getElem?_getD, List.getElem?_drop]
      have hget0 : igmp.getD off 0 = (igmp.drop off).getD 0 0 := hget 0
      have hgroup : groupAt igmp (off + 4) = some (Mac.fromIpv4Multicast ⟨a, b, c, d⟩) := by
        unfold groupAt
        rw [← List.drop_drop, hdrop]
        rfl
      have hnext : ∀ k, igmp.drop (off + (8 + k)) = rest.drop k := by
        intro k
        rw [← List.drop_drop, hdrop, drop_eight]
      rw [if_neg hshort, hget0, hget 1, hget 2, hget 3, hgroup, hdrop, reportRecords,
        taken_cons]
      simp only [ih, Nat.add_assoc, hnext, List.getD_cons_zero, List.getD_cons_succ]
      cases hleave : isLeave ty (Be16.mk s1 s0).get with
      | true =>
        rw [if_pos rfl, leave_eq]
        rfl
      | false =>
        rw [if_neg Bool.false_ne_true, join_eq]
        rfl

theorem applyIgmp_eq (s : McastSnooper) (igmp : Bytes) :
    s.applyIgmp igmp = taken s.groups false (messageRecords igmp) := by
  unfold applyIgmp
  by_cases hshort : igmp.length < 8
  · have hgroup : groupAt igmp 4 = none := by
      unfold groupAt
      split
      · rename_i heq
        have hlen := congrArg List.length heq
        rw [List.length_drop] at hlen
        simp only [List.length_cons] at hlen
        omega
      · rfl
    rw [messageRecords_short hshort, hgroup, applyIgmpV3, if_pos hshort]
    cases igmp.head? with
    | none => rfl
    | some ty => simp [taken_nil]
  · obtain ⟨ty, m1, m2, m3, a, b, c, d, rest, rfl⟩ := exists_eight (Nat.le_of_not_lt hshort)
    have hgroup : groupAt (ty :: m1 :: m2 :: m3 :: a :: b :: c :: d :: rest) 4 =
        some (Mac.fromIpv4Multicast ⟨a, b, c, d⟩) := rfl
    rw [List.head?_cons, hgroup, applyIgmpV3, if_neg hshort, applyRecords_eq, messageRecords]
    change (if ty = 0x12 ∨ ty = 0x16 then s.join _ else if ty = 0x17 then s.leave _ else _) = _
    by_cases hjoin : ty = 0x12 ∨ ty = 0x16
    · rw [if_pos hjoin, if_pos hjoin, taken_cons, join_eq]
      rfl
    · rw [if_neg hjoin, if_neg hjoin]
      by_cases hleave : ty = 0x17
      · rw [if_pos hleave, if_pos hleave, taken_cons, leave_eq]
        rfl
      · rw [if_neg hleave, if_neg hleave]
        by_cases hreport : ty = 0x22
        · rw [if_pos hreport, if_pos hreport]
          rfl
        · rw [if_neg hreport, if_neg hreport]
          rfl

theorem observe_eq (sliced : Bytes → Option (U8 × Bytes)) (s : McastSnooper) (eth : Bytes) :
    s.observe sliced eth = taken s.groups false (frameRecords sliced eth) := by
  unfold observe frameRecords
  cases igmpPayload sliced eth with
  | none => rfl
  | some igmp => exact applyIgmp_eq s igmp

theorem taken_snd (groups : Finset Mac) (records : List (Change Ipv4Addr)) :
    (taken groups false records).2 =
      !decide (AllSafe Change.apply Change.Idle groups
        (records.map (Change.map Mac.fromIpv4Multicast))) := by
  unfold taken
  rw [Change.run_note]
  exact Bool.false_or _

theorem taken_fst (groups : Finset Mac) (records : List (Change Ipv4Addr)) :
    (taken groups false records).1.groups =
      run Change.apply groups (records.map (Change.map Mac.fromIpv4Multicast)) := by
  unfold taken
  rw [Change.run_note]

/-! ### Following the host -/

theorem sortedGroups_pairwise (s : McastSnooper) :
    s.sortedGroups.Pairwise fun m m' => m.key < m'.key := by
  have hle : s.sortedGroups.Pairwise Mac.KeyLe := Finset.pairwise_sort ..
  have hne : s.sortedGroups.Pairwise (· ≠ ·) := Finset.sort_nodup ..
  apply (hle.and hne).imp
  intro m m' h
  apply Nat.lt_of_le_of_ne h.1
  intro hkey
  exact h.2 (Mac.key_injective hkey)

theorem mem_sortedGroups {s : McastSnooper} {m : Mac} : m ∈ s.sortedGroups ↔ m ∈ s.groups :=
  Finset.mem_sort ..

theorem sortedGroups_inj {s s' : McastSnooper} :
    s.sortedGroups = s'.sortedGroups ↔ s.groups = s'.groups := by
  constructor
  · intro h
    ext m
    rw [← mem_sortedGroups, ← mem_sortedGroups, h]
  · intro h
    rw [sortedGroups, sortedGroups, h]

def macs (joined : Finset Ipv4Addr) : Finset Mac := joined.image Mac.fromIpv4Multicast

section

variable (sliced : Bytes → Option (U8 × Bytes))

/-- The groups that the host is in behind a frame. -/
def hostJoined (joined : Finset Ipv4Addr) (eth : Bytes) : Finset Ipv4Addr :=
  run Change.apply joined (frameRecords sliced eth)

/-- No group leaves while the host is in another one of the same link address, and the records
of the frame do not undo each other. -/
structure Apart (joined : Finset Ipv4Addr) (eth : Bytes) : Prop where
  alone : AllSafe Change.apply (Change.Alone Mac.fromIpv4Multicast) joined
    (frameRecords sliced eth)
  lasting : macs (hostJoined sliced joined eth) = macs joined →
    AllSafe Change.apply Change.Idle (macs joined)
      ((frameRecords sliced eth).map (Change.map Mac.fromIpv4Multicast))

theorem apart_iff (joined : Finset Ipv4Addr) (eth : Bytes) :
    Apart sliced joined eth ↔
      AllSafe Change.apply (Change.Alone Mac.fromIpv4Multicast) joined
          (frameRecords sliced eth) ∧
        (macs (hostJoined sliced joined eth) = macs joined →
          AllSafe Change.apply Change.Idle (macs joined)
            ((frameRecords sliced eth).map (Change.map Mac.fromIpv4Multicast))) :=
  ⟨fun h => ⟨h.alone, h.lasting⟩, fun h => ⟨h.1, h.2⟩⟩

instance (joined : Finset Ipv4Addr) (eth : Bytes) : Decidable (Apart sliced joined eth) :=
  decidable_of_iff' _ (apart_iff sliced joined eth)

variable {sliced} {joined : Finset Ipv4Addr} {s : McastSnooper} {eth : Bytes} {eths : List Bytes}

/-- One frame: the link addresses stay those of the groups that the host is in. -/
theorem watch_groups (hs : s.groups = macs joined) (h : Apart sliced joined eth) :
    (s.watch sliced eth).groups = macs (hostJoined sliced joined eth) := by
  rw [watch, observe_eq, taken_fst, hs]
  exact (Change.image_run h.alone).symm

theorem observe_snd (hs : s.groups = macs joined) (h : Apart sliced joined eth) :
    (s.observe sliced eth).2 = true ↔
      (s.watch sliced eth).sortedGroups ≠ s.sortedGroups := by
  rw [Ne, sortedGroups_inj, watch_groups hs h, hs, observe_eq, taken_snd, hs,
    Bool.not_eq_true', decide_eq_false_iff_not]
  apply not_congr
  constructor
  · intro hidle
    rw [← Change.run_of_idle hidle]
    exact Change.image_run h.alone
  · exact h.lasting

theorem run_watch_groups (hs : s.groups = macs joined)
    (h : AllSafe (hostJoined sliced) (Apart sliced) joined eths) :
    (run (watch sliced) s eths).groups = macs (run (hostJoined sliced) joined eths) := by
  induction eths generalizing s joined with
  | nil => exact hs
  | cons eth eths ih =>
    obtain ⟨heth, heths⟩ := allSafe_cons.mp h
    exact ih (watch_groups hs heth) heths

theorem run_hostJoined :
    run (hostJoined sliced) joined eths =
      run Change.apply joined (eths.flatMap (frameRecords sliced)) :=
  List.foldl_flatMap.symm

/-- In every run whose frames are apart, the groups are in order and without duplicates the
link addresses of the groups whose latest record was a join, and a frame is said to change
them when it does. -/
theorem observe_follows_host (eths : List Bytes)
    (h : AllSafe (hostJoined sliced) (Apart sliced) ∅ eths) :
    (run (watch sliced) new eths).sortedGroups.Pairwise (fun m m' => m.key < m'.key) ∧
      (∀ m, m ∈ (run (watch sliced) new eths).sortedGroups ↔
        ∃ g, Mac.fromIpv4Multicast g = m ∧
          (Change.latest (eths.flatMap (frameRecords sliced)) g).map Change.joins =
            some true) ∧
      ∀ pre eth, pre ++ [eth] <+: eths →
        (((run (watch sliced) new pre).observe sliced eth).2 = true ↔
          (run (watch sliced) new (pre ++ [eth])).sortedGroups ≠
            (run (watch sliced) new pre).sortedGroups) := by
  have hnew : new.groups = macs ∅ := rfl
  refine ⟨sortedGroups_pairwise _, ?_, ?_⟩
  · intro m
    rw [mem_sortedGroups, run_watch_groups hnew h, macs, Finset.mem_image]
    simp only [run_hostJoined, Change.mem_run]
    constructor
    · rintro ⟨g, hlatest, hm⟩
      exact ⟨g, hm, hlatest⟩
    · rintro ⟨g, hm, hlatest⟩
      exact ⟨g, hlatest, hm⟩
  · intro pre eth hpre
    have hbefore : AllSafe (hostJoined sliced) (Apart sliced) ∅ pre := by
      intro pre' eth' hpre'
      exact h pre' eth' (hpre'.trans ((List.prefix_append pre [eth]).trans hpre))
    rw [run_append_singleton]
    exact observe_snd (run_watch_groups hnew hbefore) (h pre eth hpre)

end

/-- An Ethernet frame with an IPv4 header that has no options. -/
def plainIpv4 (eth : Bytes) : Option (U8 × Bytes) :=
  let total := (Be16.mk (eth.getD 16 0) (eth.getD 17 0)).get
  if 34 ≤ eth.length ∧ (eth.getD 12 0, eth.getD 13 0, eth.getD 14 0) = (0x08, 0x00, 0x45) ∧
      20 ≤ total ∧ 14 + total ≤ eth.length then
    some (eth.getD 23 0, (eth.drop 34).take (total - 20))
  else none

/-- A message behind the headers of such a frame. -/
def igmpEth (igmp : Bytes) : Bytes :=
  [0x01, 0x00, 0x5e, 0x00, 0x00, 0x16, 0x02, 0, 0, 0, 0, 0x09, 0x08, 0x00, 0x45, 0x00,
    0, BitVec.ofNat 8 (20 + igmp.length), 0, 0, 0, 0, 1, 2, 0, 0, 10, 0, 0, 9,
    224, 0, 0, 22] ++ igmp

theorem observe_follows_host_run :
    (∀ m, m ∈ (run (watch plainIpv4) new [igmpEth [0x16, 0, 0, 0, 239, 1, 1, 1],
        igmpEth [0x16, 0, 0, 0, 239, 2, 2, 2],
        igmpEth [0x17, 0, 0, 0, 239, 1, 1, 1]]).sortedGroups ↔
      ∃ g, Mac.fromIpv4Multicast g = m ∧
        (Change.latest ([igmpEth [0x16, 0, 0, 0, 239, 1, 1, 1],
          igmpEth [0x16, 0, 0, 0, 239, 2, 2, 2],
          igmpEth [0x17, 0, 0, 0, 239, 1, 1, 1]].flatMap (frameRecords plainIpv4)) g).map
            Change.joins = some true) ∧
      Mac.fromIpv4Multicast ⟨239, 2, 2, 2⟩ ∈
        (run (watch plainIpv4) new [igmpEth [0x16, 0, 0, 0, 239, 1, 1, 1],
          igmpEth [0x16, 0, 0, 0, 239, 2, 2, 2],
          igmpEth [0x17, 0, 0, 0, 239, 1, 1, 1]]).groups :=
  ⟨(observe_follows_host _ (by decide +kernel)).2.1, by decide +kernel⟩

/-- The host leaves one of two groups that share a link address, and the other one goes too.
A report that leaves a group and joins it again is said to change the set. -/
theorem observe_shared_address :
    ((Change.latest ([igmpEth [0x16, 0, 0, 0, 239, 1, 1, 1],
        igmpEth [0x16, 0, 0, 0, 239, 129, 1, 1],
        igmpEth [0x17, 0, 0, 0, 239, 1, 1, 1]].flatMap (frameRecords plainIpv4))
          ⟨239, 129, 1, 1⟩).map Change.joins = some true ∧
      Mac.fromIpv4Multicast ⟨239, 129, 1, 1⟩ ∉
        (run (watch plainIpv4) new [igmpEth [0x16, 0, 0, 0, 239, 1, 1, 1],
          igmpEth [0x16, 0, 0, 0, 239, 129, 1, 1],
          igmpEth [0x17, 0, 0, 0, 239, 1, 1, 1]]).sortedGroups) ∧
    (((new.watch plainIpv4 (igmpEth [0x16, 0, 0, 0, 239, 1, 1, 1])).observe plainIpv4
        (igmpEth [0x22, 0, 0, 0, 0, 0, 0, 2, 3, 0, 0, 0, 239, 1, 1, 1,
          4, 0, 0, 0, 239, 1, 1, 1])).2 = true ∧
      ((new.watch plainIpv4 (igmpEth [0x16, 0, 0, 0, 239, 1, 1, 1])).watch plainIpv4
        (igmpEth [0x22, 0, 0, 0, 0, 0, 0, 2, 3, 0, 0, 0, 239, 1, 1, 1,
          4, 0, 0, 0, 239, 1, 1, 1])).sortedGroups =
        (new.watch plainIpv4 (igmpEth [0x16, 0, 0, 0, 239, 1, 1, 1])).sortedGroups) := by
  rw [mem_sortedGroups, sortedGroups_inj]
  decide +kernel

end McastSnooper

end Wayfinder
