import Wayfinder.Driver.HopProof

/-!
# Planning a transmission

The transmit decision every driver shares: the bytes that go out, with their trailer, and
the interfaces they go out on. What the router picks is gated for each interface; an
interface the caller names is not.
-/

namespace Wayfinder

set_option autoImplicit false

/-- Taking one off a number changes its lowest set bit and those below. -/
theorem testBit_and_pred {x c : Nat} (hc : x.testBit c = true)
    (hlow : ∀ i < c, x.testBit i = false) (i : Nat) :
    (x &&& (x - 1)).testBit i = (x.testBit i && decide (i ≠ c)) := by
  have hmod : x % 2 ^ c = 0 := by
    apply Nat.eq_of_testBit_eq
    intro j
    rw [Nat.testBit_mod_two_pow, Nat.zero_testBit]
    by_cases hj : j < c
    · rw [hlow j hj, Bool.and_false]
    · rw [decide_eq_false hj, Bool.false_and]
  obtain ⟨q, hq⟩ := Nat.dvd_of_mod_eq_zero hmod
  have hodd : q % 2 = 1 := by
    rw [hq, Nat.testBit_two_pow_mul] at hc
    simpa [Nat.testBit_zero] using hc
  have hpred : x - 1 = 2 ^ c * (2 * (q / 2)) + (2 ^ c - 1) := by
    have hsplit : q = 2 * (q / 2) + 1 := by omega
    have hpos : 0 < 2 ^ c := Nat.two_pow_pos c
    rw [hq]
    conv_lhs => rw [hsplit, Nat.mul_add, Nat.mul_one]
    omega
  have hless : 2 ^ c - 1 < 2 ^ c := Nat.sub_lt (Nat.two_pow_pos c) Nat.one_pos
  rw [Nat.testBit_and, hpred, Nat.testBit_two_pow_mul_add _ hless]
  by_cases hi : i < c
  · rw [hlow i hi, Bool.false_and, Bool.false_and]
  · rw [if_neg hi, hq, Nat.testBit_two_pow_mul]
    have hle : c ≤ i := Nat.le_of_not_lt hi
    cases hd : i - c with
    | zero =>
      have heq : i = c := by omega
      simp [heq]
    | succ d =>
      have hne : i ≠ c := by omega
      have hhalf : q.testBit (d + 1) = (q / 2).testBit d := Nat.testBit_succ ..
      have hdouble : (2 * (q / 2)).testBit (d + 1) = (q / 2).testBit d := by
        rw [Nat.testBit_succ, Nat.mul_div_cancel_left _ (by decide)]
      simp [hle, hne, hhalf, hdouble]

/-- A set of interface indices, as a bitmask. -/
structure InterfaceSet where
  bits : U32
  deriving DecidableEq, Repr

namespace InterfaceSet

def capacity : Nat := 32

def empty : InterfaceSet := ⟨0⟩

/-- An index past the capacity is ignored. -/
def insert (s : InterfaceSet) (idx : Nat) : InterfaceSet :=
  if idx < capacity then ⟨s.bits ||| (1#32 <<< idx)⟩ else s

def contains (s : InterfaceSet) (idx : Nat) : Bool :=
  decide (idx < capacity) && s.bits &&& (1#32 <<< idx) != 0

def isEmpty (s : InterfaceSet) : Bool := s.bits = 0

theorem clear_lowest_lt {bits : U32} (h : bits ≠ 0) : (bits &&& (bits - 1)).toNat < bits.toNat := by
  have hpos : 0 < bits.toNat := by
    rw [Nat.pos_iff_ne_zero]
    exact fun hzero => h (BitVec.eq_of_toNat_eq hzero)
  calc (bits &&& (bits - 1)).toNat
      ≤ (bits - 1).toNat := by
        rw [BitVec.toNat_and]
        exact Nat.and_le_right
    _ < bits.toNat := by bv_omega

/-- The lowest bit set, until none is. -/
def iterBits (bits : U32) : List Nat :=
  if h : bits = 0 then [] else bits.ctz.toNat :: iterBits (bits &&& (bits - 1))
termination_by bits.toNat
decreasing_by exact clear_lowest_lt h

def iter (s : InterfaceSet) : List Nat := iterBits s.bits

theorem getLsbD_clear_lowest {bits : U32} (h : bits ≠ 0) (i : Nat) :
    (bits &&& (bits - 1)).getLsbD i = (bits.getLsbD i && decide (i ≠ bits.ctz.toNat)) := by
  have hpred : (bits - 1).toNat = bits.toNat - 1 := by
    have hpos : 0 < bits.toNat := by
      rw [Nat.pos_iff_ne_zero]
      exact fun hzero => h (BitVec.eq_of_toNat_eq hzero)
    bv_omega
  have hset : bits.toNat.testBit bits.ctz.toNat = true := by
    rw [← BitVec.getLsbD]
    exact BitVec.getLsbD_true_ctz_of_ne_zero h
  have hlow : ∀ j < bits.ctz.toNat, bits.toNat.testBit j = false := by
    intro j hj
    rw [← BitVec.getLsbD]
    exact BitVec.getLsbD_false_of_lt_ctz hj
  unfold BitVec.getLsbD
  rw [BitVec.toNat_and, hpred, testBit_and_pred hset hlow]

theorem mem_iterBits (bits : U32) (i : Nat) : i ∈ iterBits bits ↔ bits.getLsbD i = true := by
  induction bits using iterBits.induct with
  | case1 => simp [iterBits]
  | case2 bits h ih =>
    rw [iterBits, dif_neg h, List.mem_cons, ih, getLsbD_clear_lowest h]
    by_cases hi : i = bits.ctz.toNat
    · rw [hi]
      simp [BitVec.getLsbD_true_ctz_of_ne_zero h]
    · simp [hi]

theorem iterBits_ascending (bits : U32) : (iterBits bits).Pairwise (· < ·) := by
  induction bits using iterBits.induct with
  | case1 =>
    rw [iterBits, dif_pos rfl]
    exact List.Pairwise.nil
  | case2 bits h ih =>
    rw [iterBits, dif_neg h]
    refine List.Pairwise.cons ?_ ih
    intro i hi
    rw [mem_iterBits, getLsbD_clear_lowest h] at hi
    have hbit : bits.getLsbD i = true ∧ i ≠ bits.ctz.toNat := by simpa using hi
    by_contra hlt
    rcases Nat.lt_or_eq_of_le (Nat.le_of_not_lt hlt) with hless | heq
    · rw [BitVec.getLsbD_false_of_lt_ctz hless] at hbit
      exact absurd hbit.1 Bool.false_ne_true
    · exact hbit.2 heq

theorem iter_nodup (s : InterfaceSet) : s.iter.Nodup :=
  (iterBits_ascending s.bits).imp Nat.ne_of_lt

end InterfaceSet

/-- The bytes to put on the wire and the interfaces to put them on. -/
structure DispatchPlan where
  payload : Bytes
  targets : InterfaceSet
  deriving DecidableEq, Repr

/-- The sub-type of a frame to send, for the gates of the links it may leave by. -/
def bodyType (protocol : U16) (body : Bytes) : Option BatmanPacketType :=
  if protocol = ethPBatman then body.head? >>= BatmanPacketType.fromU8 else none

namespace NodeRouter

variable {e : Capacities} {a : AuthCapacities} {t : TableCapacities}

/-- Every interface but those whose gate holds this class back. -/
def floodTargets (n : NodeRouter e a t) (pktType : Option BatmanPacketType)
    (numInterfaces : Nat) : InterfaceSet :=
  (List.range numInterfaces).foldl
    (fun targets idx => if n.linkMayTx idx pktType then targets.insert idx else targets) .empty

/-- The interfaces a frame leaves by. One the caller names is not gated again. -/
def planTargets (n : NodeRouter e a t) (now : Duration) (dst : Mac)
    (pktType : Option BatmanPacketType) (egress : Egress) (numInterfaces : Nat) :
    NodeRouter e a t × InterfaceSet :=
  match egress with
  | .iface idx => (n, if idx < numInterfaces then InterfaceSet.empty.insert idx else .empty)
  | .auto =>
    match n.getEgressInterface now dst with
    | (n, some .all) => (n, n.floodTargets pktType numInterfaces)
    | (n, some (.interface idx)) =>
      (n, if idx < numInterfaces ∧ n.linkMayTx idx pktType = true then
        InterfaceSet.empty.insert idx else .empty)
    | (n, none) => (n, .empty)

/-- `none` drops the frame: it must carry a trailer, and none can be written. -/
def planDispatch (k : Crypto) (n : NodeRouter e a t) (now : Duration) (dst : Mac)
    (protocol : U16) (egress : Egress) (body : Bytes) (bufLen numInterfaces : Nat) :
    NodeRouter e a t × Option DispatchPlan :=
  match n.tagDirectedInto k dst protocol body bufLen with
  | (n, none) => (n, none)
  | (n, some payload) =>
    let (n, targets) := n.planTargets now dst (bodyType protocol body) egress numInterfaces
    (n, some ⟨payload, targets⟩)

section Targets
variable {n : NodeRouter e a t} {now : Duration} {dst : Mac} {pktType : Option BatmanPacketType}
  {egress : Egress} {numInterfaces : Nat}

end Targets

end NodeRouter

end Wayfinder
