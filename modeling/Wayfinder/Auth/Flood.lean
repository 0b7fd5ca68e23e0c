import Mathlib.Algebra.Order.BigOperators.Group.Finset
import Wayfinder.Auth.Steps

/-!
# The flooding of revocations

A node that takes a revocation in attaches it to its next OGMs, a few times, and asks
for a Trickle reset. What bounds the flood is a ledger: each time a record is taken in
pays for one budget of attachments. A record is taken in once as long as the table
remembers it while it lives: by its own row, or by that of a later record for the same
node that lives as long.
-/

namespace Wayfinder

set_option autoImplicit false

open Table
open scoped BigOperators

inductive FloodOp where
  | emit (base : Bytes) (bufLen : Nat) (lazy : Bool)
  | receive (record : RevocationRecord)
  | setTime (now : Duration) (wall : Clocked)

namespace OgmAuth

variable {c : AuthCapacities}

def floodStep (k : Crypto) (s : OgmAuth c) : FloodOp → OgmAuth c
  | .emit base bufLen lazy => (s.augmentOgmWithCertRecord k base bufLen lazy).1
  | .receive record => (s.ingestRevocation k record).1
  | .setTime now wall => s.setTime now wall

/-- The rows whose records ride on the OGM that is signed, if it is. -/
def attached (k : Crypto) (s : OgmAuth c) (base : Bytes) (bufLen : Nat) (lazy : Bool) :
    List KnownRevocation :=
  match BatmanOgmPacket.readFromPrefix base with
  | none => []
  | some (ogm, _) =>
    if (s.augmentOgmWithCertRecord k base bufLen lazy).2.isNone then []
    else
      let added := (s.certRecord k lazy).length + (tvlvHdrLen + sigLen)
      attachRevocations bufLen s.revocations.toList 0 (base.length + added)
        (ogm.tvlvLen.get + added)

def attaches (k : Crypto) (s : OgmAuth c) : FloodOp → Option (List RevocationRecord)
  | .emit base bufLen lazy => some ((s.attached k base bufLen lazy).map KnownRevocation.record)
  | _ => none

def resets (k : Crypto) (s : OgmAuth c) : FloodOp → Option RevocationRecord
  | .receive record => if (s.ingestRevocation k record).2 then some record else none
  | _ => none

def attachments (k : Crypto) (s : OgmAuth c) (ops : List FloodOp) : List RevocationRecord :=
  (Run.trace (floodStep k) (attaches k) s ops).flatten

/-- Every record taken in, as often as it is. -/
def resetRequests (k : Crypto) (s : OgmAuth c) (ops : List FloodOp) : List RevocationRecord :=
  Run.trace (floodStep k) (resets k) s ops

/-! ### One OGM -/

section Emit
variable {k : Crypto} {s : OgmAuth c}

theorem attachRevocations_sublist (bufLen : Nat) (rows : List KnownRevocation)
    (n off tvlvLen : Nat) : (attachRevocations bufLen rows n off tvlvLen).Sublist rows := by
  induction rows generalizing n off tvlvLen with
  | nil => exact List.Sublist.refl _
  | cons kr rest ih =>
    unfold attachRevocations
    dsimp only
    split
    · exact List.nil_sublist _
    split
    · exact (ih n off tvlvLen).cons kr
    split
    · exact List.nil_sublist _
    · exact (ih _ _ _).cons_cons kr

theorem floodsLeft_of_mem_attachRevocations {bufLen : Nat} {rows : List KnownRevocation}
    {n off tvlvLen : Nat} {kr : KnownRevocation}
    (h : kr ∈ attachRevocations bufLen rows n off tvlvLen) : 0 < kr.floodsLeft := by
  induction rows generalizing n off tvlvLen with
  | nil => cases h
  | cons first rest ih =>
    unfold attachRevocations at h
    dsimp only at h
    split at h
    · cases h
    split at h
    · exact ih h
    rename_i hleft
    split at h
    · cases h
    · rcases List.mem_cons.mp h with rfl | h
      · exact Nat.pos_of_ne_zero hleft
      · exact ih h

theorem tvlvRecordBytes_length (ty : TvlvType) (value : Bytes) :
    (tvlvRecordBytes ty value).length = tvlvHdrLen + value.length := by
  rw [tvlvRecordBytes, List.length_append]
  rfl

theorem records_length (k : Crypto) (s : OgmAuth c) (lazy : Bool) (msg : Bytes) :
    (s.certRecord k lazy ++ tvlvRecordBytes .ogmSig (k.sign s.keypair msg).toList).length =
      (s.certRecord k lazy).length + (tvlvHdrLen + sigLen) := by
  rw [List.length_append, tvlvRecordBytes_length, (k.sign s.keypair msg).2]
  rfl

theorem augmentOgm_front (k : Crypto) (s : OgmAuth c) (base : Bytes) (bufLen : Nat) (lazy : Bool) :
    s.augmentOgmWithCertRecord k base bufLen lazy = (s, none) ∨
      ∃ ogm tail front, BatmanOgmPacket.readFromPrefix base = some (ogm, tail) ∧
        let added := (s.certRecord k lazy).length + (tvlvHdrLen + sigLen)
        let sent := attachRevocations bufLen s.revocations.toList 0 (base.length + added)
          (ogm.tvlvLen.get + added)
        s.augmentOgmWithCertRecord k base bufLen lazy =
          (s.spendFloods sent, some (front ++ sent.flatMap fun kr =>
            tvlvRecordBytes .revoke kr.record.asBytes)) := by
  unfold augmentOgmWithCertRecord
  split
  · exact Or.inl rfl
  rename_i ogm tail hread
  split
  · exact Or.inl rfl
  dsimp only
  rw [records_length]
  split
  · exact Or.inl rfl
  · exact Or.inr ⟨ogm, tail, _, hread, rfl⟩

/-- An OGM is refused and nothing is attached, or it ends in the records attached and
each of them has one flood spent. -/
theorem augmentOgm_attached (k : Crypto) (s : OgmAuth c) (base : Bytes) (bufLen : Nat)
    (lazy : Bool) :
    (s.augmentOgmWithCertRecord k base bufLen lazy = (s, none) ∧
        s.attached k base bufLen lazy = []) ∨
      ∃ front, s.augmentOgmWithCertRecord k base bufLen lazy =
        (s.spendFloods (s.attached k base bufLen lazy),
          some (front ++ (s.attached k base bufLen lazy).flatMap fun kr =>
            tvlvRecordBytes .revoke kr.record.asBytes)) := by
  unfold attached
  rcases augmentOgm_front k s base bufLen lazy with heq | ⟨ogm, tail, front, hread, heq⟩
  · rw [heq]
    refine Or.inl ⟨rfl, ?_⟩
    split
    · rfl
    · rfl
  · rw [heq, hread]
    exact Or.inr ⟨front, rfl⟩

theorem attached_sublist (base : Bytes) (bufLen : Nat) (lazy : Bool) :
    (s.attached k base bufLen lazy).Sublist s.revocations.toList := by
  unfold attached
  split
  · exact List.nil_sublist _
  split
  · exact List.nil_sublist _
  · exact attachRevocations_sublist _ _ _ _ _

theorem floodsLeft_of_mem_attached {base : Bytes} {bufLen : Nat} {lazy : Bool}
    {kr : KnownRevocation} (h : kr ∈ s.attached k base bufLen lazy) : 0 < kr.floodsLeft := by
  unfold attached at h
  split at h
  · cases h
  split at h
  · cases h
  · exact floodsLeft_of_mem_attachRevocations h

end Emit

/-! ### The ledger -/

/-- Every attachment, and every one a row may still make, is paid for by a time its
record was taken in. -/
structure Paid (s : OgmAuth c) (sent taken : List RevocationRecord) : Prop where
  spent : ∀ r, sent.count r ≤ revokeFloodBudget * taken.count r
  left : ∀ row ∈ s.revocations.toList,
    sent.count row.record + row.floodsLeft ≤ revokeFloodBudget * taken.count row.record

section Ledger
variable {k : Crypto} {s s' : OgmAuth c} {sent taken : List RevocationRecord}

theorem Paid.of_subset (h : Paid s sent taken)
    (hsub : ∀ row ∈ s'.revocations.toList, row ∈ s.revocations.toList) : Paid s' sent taken :=
  ⟨h.spent, fun row hrow => h.left row (hsub row hrow)⟩

/-- A record rides at most once on one OGM. -/
theorem nodup_attached_records {rows : List KnownRevocation}
    (hsub : rows.Sublist s.revocations.toList) : (rows.map KnownRevocation.record).Nodup := by
  have hmacs : (rows.map KnownRevocation.mac).Nodup :=
    s.revocations.nodup.sublist (hsub.map KnownRevocation.mac)
  apply List.Nodup.of_map RevocationRecord.nodeMac
  rw [List.map_map]
  exact hmacs

theorem Paid.spendFloods (h : Paid s sent taken) {rows : List KnownRevocation}
    (hsub : rows.Sublist s.revocations.toList) (hleft : ∀ kr ∈ rows, 0 < kr.floodsLeft) :
    Paid (s.spendFloods rows) (sent ++ rows.map KnownRevocation.record) taken := by
  have hnodup := nodup_attached_records hsub
  constructor
  · intro r
    rw [List.count_append]
    by_cases hmem : r ∈ rows.map KnownRevocation.record
    · obtain ⟨kr, hkr, rfl⟩ := List.mem_map.mp hmem
      have hrow := h.left kr (hsub.subset hkr)
      have hpos := hleft kr hkr
      rw [List.count_eq_one_of_mem hnodup hmem]
      omega
    · rw [List.count_eq_zero_of_not_mem hmem]
      exact h.spent r
  · intro row' hrow'
    obtain ⟨row, hrow, rfl⟩ := List.mem_map.mp hrow'
    have hpaid := h.left row hrow
    rw [row.spend_record rows, List.count_append]
    unfold KnownRevocation.spend
    by_cases hin : row ∈ rows
    · have hpos := hleft row hin
      rw [if_pos hin, List.count_eq_one_of_mem hnodup (List.mem_map_of_mem hin)]
      dsimp only
      omega
    · have hother : row.record ∉ rows.map KnownRevocation.record := by
        intro hmem
        obtain ⟨kr, hkr, hrecord⟩ := List.mem_map.mp hmem
        have hmac : kr.mac = row.mac := congrArg RevocationRecord.nodeMac hrecord
        obtain rfl := KeyedVec.eq_of_key (hsub.subset hkr) hrow hmac
        exact hin hkr
      rw [if_neg hin, List.count_eq_zero_of_not_mem hother]
      exact hpaid

theorem Paid.hold (h : Paid s sent taken) (record : RevocationRecord) :
    Paid (s.holdRevocation record record.nodeMac) sent (taken ++ [record]) := by
  have hmore : ∀ r, taken.count r ≤ (taken ++ [record]).count r := by
    intro r
    rw [List.count_append]
    exact Nat.le_add_right _ _
  constructor
  · intro r
    exact (h.spent r).trans (Nat.mul_le_mul_left _ (hmore r))
  · intro row hrow
    rcases KeyedVec.mem_put hrow with rfl | ⟨hold, _⟩
    · have hspent := h.spent record
      have hone : (taken ++ [record]).count record = taken.count record + 1 := by
        rw [List.count_append, List.count_singleton_self]
      dsimp only
      rw [hone, Nat.mul_add, Nat.mul_one]
      exact Nat.add_le_add_right hspent _
    · exact (h.left row hold).trans (Nat.mul_le_mul_left _ (hmore _))

end Ledger

/-! ### Records a node remembers -/

/-- The record will not be taken in again: it has expired, or a row for its node is no
earlier and lives as long. -/
def Settled (s : OgmAuth c) (r : RevocationRecord) : Prop :=
  r.notAfter.get ≤ s.wall.unixOrZero ∨ ∃ row ∈ s.revocations.toList, row.mac = r.nodeMac ∧
    r.notBefore.get ≤ row.record.notBefore.get ∧ r.notAfter.get ≤ row.record.notAfter.get

/-- Making room for the record forgets none that is alive: the one it supersedes lives no
longer, and a full table gives up an expired row. -/
structure ForgetsNone (s : OgmAuth c) (record : RevocationRecord) : Prop where
  superseded : ∀ slot ∈ s.revocations.toList, slot.mac = record.nodeMac →
    slot.record.notAfter.get ≤ record.notAfter.get ∨
      slot.record.notAfter.get ≤ s.wall.unixOrZero
  displaced : s.HasRoom record ∨
    ∃ slot, quiescentSlot s.wall.unixOrZero s.revocations.toList = some slot ∧
      slot.record.notAfter.get ≤ s.wall.unixOrZero

/-- The step forgets no live record: one taken in makes no live one forgotten, and the
clock does not go back. -/
def KeepsLive (k : Crypto) (s : OgmAuth c) : FloodOp → Prop
  | .emit _ _ _ => True
  | .receive record => s.enforceable k record = true → s.IsNews record → s.ForgetsNone record
  | .setTime _ wall => s.wall.unixOrZero ≤ wall.unixOrZero

instance (s : OgmAuth c) (record : RevocationRecord) : Decidable (s.ForgetsNone record) :=
  decidable_of_iff ((∀ slot ∈ s.revocations.toList, slot.mac = record.nodeMac →
      slot.record.notAfter.get ≤ record.notAfter.get ∨
        slot.record.notAfter.get ≤ s.wall.unixOrZero) ∧
      (((∃ slot ∈ s.revocations.toList, slot.mac = record.nodeMac) ∨
        s.revocations.toList.length < c.maxRevoked) ∨
        ∃ slot ∈ quiescentSlot s.wall.unixOrZero s.revocations.toList,
          slot.record.notAfter.get ≤ s.wall.unixOrZero))
    ⟨fun h => ⟨h.1, h.2⟩, fun h => ⟨h.superseded, h.displaced⟩⟩

instance (k : Crypto) (s : OgmAuth c) : (op : FloodOp) → Decidable (s.KeepsLive k op)
  | .emit _ _ _ => .isTrue trivial
  | .receive record => inferInstanceAs (Decidable (s.enforceable k record = true →
      (∀ slot ∈ s.revocations.toList, slot.mac = record.nodeMac →
        slot.record.notBefore.get < record.notBefore.get) → s.ForgetsNone record))
  | .setTime _ wall => inferInstanceAs (Decidable (s.wall.unixOrZero ≤ wall.unixOrZero))

section Settled
variable {k : Crypto} {s s' : OgmAuth c} {record r : RevocationRecord}

theorem not_settled_of_news (hlive : s.wall.unixOrZero < record.notAfter.get)
    (hnews : s.IsNews record) : ¬ s.Settled record := by
  rintro (hexpired | ⟨row, hrow, hmac, hbefore, _⟩)
  · exact Nat.not_lt.mpr hexpired hlive
  · exact Nat.not_lt.mpr hbefore (hnews row hrow hmac)

theorem mem_hold (hforgets : s.ForgetsNone record) {row : KnownRevocation} :
    (row = ⟨record, revokeFloodBudget⟩ ∨ row ∈ s.revocations.toList ∧
        row.mac ≠ record.nodeMac ∧ s.wall.unixOrZero < row.record.notAfter.get) →
      row ∈ (s.holdRevocation record record.nodeMac).revocations.toList := by
  intro hrow
  by_cases hroom : s.HasRoom record
  · apply (mem_holdRevocation hroom).mpr
    exact hrow.imp_right fun h => ⟨h.1, h.2.1⟩
  · obtain ⟨slot, hslot, hexpired⟩ := hforgets.displaced.resolve_left hroom
    have hkey : ∀ z ∈ s.revocations.toList, z.mac ≠ record.nodeMac := by
      intro z hz hmac
      exact hroom (Or.inl ⟨z, hz, hmac⟩)
    have hfull : c.maxRevoked ≤ s.revocations.toList.length := by
      apply Nat.not_lt.mp
      intro hlt
      exact hroom (Or.inr hlt)
    apply (KeyedVec.mem_put_displacing (x := (⟨record, revokeFloodBudget⟩ : KnownRevocation))
      hkey hfull hslot (mem_of_minByKey hslot)).mpr
    rcases hrow with rfl | ⟨hrow, _, hlive⟩
    · exact Or.inl rfl
    · refine Or.inr ⟨hrow, ?_⟩
      intro hmac
      obtain rfl := KeyedVec.eq_of_key hrow (mem_of_minByKey hslot) hmac
      exact Nat.not_lt.mpr hexpired hlive

theorem Settled.hold (h : s.Settled r) (hnews : s.IsNews record)
    (hforgets : s.ForgetsNone record) :
    (s.holdRevocation record record.nodeMac).Settled r := by
  rcases h with hexpired | ⟨row, hrow, hmac, hbefore, hafter⟩
  · exact Or.inl hexpired
  by_cases hsame : row.mac = record.nodeMac
  · rcases hforgets.superseded row hrow hsame with hlonger | hexpired
    · exact Or.inr ⟨⟨record, revokeFloodBudget⟩, mem_hold hforgets (Or.inl rfl),
        hsame.symm.trans hmac, hbefore.trans (Nat.le_of_lt (hnews row hrow hsame)),
        hafter.trans hlonger⟩
    · exact Or.inl (hafter.trans hexpired)
  · by_cases hlive : s.wall.unixOrZero < row.record.notAfter.get
    · exact Or.inr ⟨row, mem_hold hforgets (Or.inr ⟨hrow, hsame, hlive⟩), hmac, hbefore, hafter⟩
    · exact Or.inl (hafter.trans (Nat.not_lt.mp hlive))

theorem settled_hold_self (hforgets : s.ForgetsNone record) :
    (s.holdRevocation record record.nodeMac).Settled record :=
  Or.inr ⟨⟨record, revokeFloodBudget⟩, mem_hold hforgets (Or.inl rfl), rfl, Nat.le_refl _,
    Nat.le_refl _⟩

theorem Settled.spendFloods (h : s.Settled r) (rows : List KnownRevocation) :
    (s.spendFloods rows).Settled r := by
  rcases h with hexpired | ⟨row, hrow, hmac, hbefore, hafter⟩
  · exact Or.inl hexpired
  · refine Or.inr ⟨row.spend rows, List.mem_map_of_mem hrow, ?_, ?_, ?_⟩
    · rw [KnownRevocation.mac, row.spend_record rows]
      exact hmac
    · rw [row.spend_record rows]
      exact hbefore
    · rw [row.spend_record rows]
      exact hafter

theorem mem_setTime {now : Duration} {wall : Clocked} {row : KnownRevocation} :
    row ∈ (s.setTime now wall).revocations.toList ↔ row ∈ s.revocations.toList ∧
      (wall.judgesWindows = true → wall.unixOrZero < row.record.notAfter.get) := by
  unfold setTime
  dsimp only
  obtain ⟨_, _, hevict⟩ := evictExpiredNeighbors_frame
    (reclaimBookkeeping { s with now := now, wall := wall }).pruneExpired
  rw [hevict]
  exact mem_pruneExpired

theorem Settled.setTime (h : s.Settled r) {now : Duration} {wall : Clocked}
    (hforward : s.wall.unixOrZero ≤ wall.unixOrZero) : (s.setTime now wall).Settled r := by
  have hwall : (s.setTime now wall).wall = wall := by
    obtain ⟨_, _, _, heq⟩ := s.setTime_frame now wall
    rw [heq]
    rfl
  unfold Settled
  rw [hwall]
  rcases h with hexpired | ⟨row, hrow, hmac, hbefore, hafter⟩
  · exact Or.inl (hexpired.trans hforward)
  · by_cases hlive : wall.unixOrZero < row.record.notAfter.get
    · exact Or.inr ⟨row, mem_setTime.mpr ⟨hrow, fun _ => hlive⟩, hmac, hbefore, hafter⟩
    · exact Or.inl (hafter.trans (Nat.not_lt.mp hlive))

end Settled

/-! ### Runs -/

section Runs
variable {k : Crypto} {s : OgmAuth c}

/-- The step lemma of the ledger, with no condition: what a step attaches is paid for. -/
theorem paid_step {sent taken : List RevocationRecord} (h : Paid s sent taken) (op : FloodOp) :
    Paid (s.floodStep k op) (sent ++ ((s.attaches k op).toList).flatten)
      (taken ++ (s.resets k op).toList) := by
  cases op with
  | emit base bufLen lazy =>
    have hsent : ((s.attaches k (.emit base bufLen lazy)).toList).flatten =
        (s.attached k base bufLen lazy).map KnownRevocation.record := List.append_nil _
    rw [hsent]
    change Paid _ _ (taken ++ [])
    rw [List.append_nil, floodStep]
    rcases augmentOgm_attached k s base bufLen lazy with ⟨heq, hnone⟩ | ⟨front, heq⟩
    · rw [heq, hnone, List.map_nil, List.append_nil]
      exact h
    · rw [heq]
      exact h.spendFloods (attached_sublist base bufLen lazy) fun kr => floodsLeft_of_mem_attached
  | receive record =>
    change Paid _ (sent ++ []) _
    rw [List.append_nil, floodStep, resets]
    rcases ingestRevocation_cases k s record with ⟨_, _, heq⟩ | ⟨_, latch, heq⟩
    · rw [heq]
      exact h.hold record
    · rw [heq]
      change Paid _ sent (taken ++ [])
      rw [List.append_nil]
      exact h.of_subset fun row hrow => hrow
  | setTime now wall =>
    change Paid _ (sent ++ []) (taken ++ [])
    rw [List.append_nil, List.append_nil]
    exact h.of_subset fun row hrow => (mem_setTime.mp hrow).1

/-- What was taken in is settled, and was taken in once. -/
structure TakenOnce (s : OgmAuth c) (taken : List RevocationRecord) : Prop where
  nodup : taken.Nodup
  settled : ∀ r ∈ taken, s.Settled r

theorem takenOnce_step {taken : List RevocationRecord} (h : TakenOnce s taken) {op : FloodOp}
    (hsafe : s.KeepsLive k op) :
    TakenOnce (s.floodStep k op) (taken ++ (s.resets k op).toList) := by
  cases op with
  | emit base bufLen lazy =>
    change TakenOnce _ (taken ++ [])
    rw [List.append_nil, floodStep]
    rcases augmentOgm_attached k s base bufLen lazy with ⟨heq, _⟩ | ⟨front, heq⟩
    · rw [heq]
      exact h
    · rw [heq]
      exact ⟨h.nodup, fun r hr => (h.settled r hr).spendFloods _⟩
  | receive record =>
    rw [floodStep, resets]
    rcases ingestRevocation_cases k s record with ⟨henf, hnews, heq⟩ | ⟨_, latch, heq⟩
    · have hforgets := hsafe henf hnews
      have hlive := (enforceable_iff.mp henf).2.1
      rw [heq]
      constructor
      · apply h.nodup.append (List.nodup_singleton record)
        apply List.disjoint_singleton.mpr
        intro hmem
        exact not_settled_of_news hlive hnews (h.settled record hmem)
      · intro r hr
        rcases List.mem_append.mp hr with hr | hr
        · exact (h.settled r hr).hold hnews hforgets
        · obtain rfl := List.mem_singleton.mp hr
          exact settled_hold_self hforgets
    · rw [heq]
      change TakenOnce _ (taken ++ [])
      rw [List.append_nil]
      exact ⟨h.nodup, h.settled⟩
  | setTime now wall =>
    change TakenOnce _ (taken ++ [])
    rw [List.append_nil]
    exact ⟨h.nodup, fun r hr => (h.settled r hr).setTime hsafe⟩

theorem paid_run (hfresh : s.revocations = .empty) (ops : List FloodOp) :
    Paid (Run.run (floodStep k) s ops) (s.attachments k ops) (s.resetRequests k ops) := by
  induction ops using List.reverseRecOn with
  | nil =>
    constructor
    · intro r
      exact Nat.zero_le _
    · intro row hrow
      rw [Run.run_nil, hfresh] at hrow
      cases hrow
  | append_singleton ops op ih =>
    rw [attachments, resetRequests, Run.run_append_singleton, Run.trace_append_singleton,
      Run.trace_append_singleton, List.flatten_append]
    exact paid_step ih op

theorem takenOnce_run {ops : List FloodOp}
    (hsafe : Run.AllSafe (floodStep k) (KeepsLive k) s ops) :
    TakenOnce (Run.run (floodStep k) s ops) (s.resetRequests k ops) := by
  induction ops using List.reverseRecOn with
  | nil =>
    constructor
    · exact List.nodup_nil
    · intro r hr
      cases hr
  | append_singleton ops op ih =>
    rw [resetRequests, Run.run_append_singleton, Run.trace_append_singleton]
    apply takenOnce_step
    · apply ih
      intro pre op' hpre
      exact hsafe pre op' (hpre.trans (List.prefix_append ops [op]))
    · exact hsafe ops op List.prefix_rfl

theorem mem_resetRequests {r : RevocationRecord} {ops : List FloodOp}
    (h : r ∈ s.resetRequests k ops) : .receive r ∈ ops := by
  unfold resetRequests at h
  induction ops generalizing s with
  | nil => cases h
  | cons op ops ih =>
    rw [Run.trace] at h
    rcases List.mem_append.mp h with h | h
    · unfold resets at h
      split at h
      · rename_i record
        split at h
        · obtain rfl := List.mem_singleton.mp h
          exact List.mem_cons_self
        · cases h
      · cases h
    · exact List.mem_cons_of_mem op (ih h)

theorem count_attachments_le (hfresh : s.revocations = .empty) {ops : List FloodOp}
    (hsafe : Run.AllSafe (floodStep k) (KeepsLive k) s ops) (r : RevocationRecord) :
    (s.attachments k ops).count r ≤ revokeFloodBudget := by
  calc (s.attachments k ops).count r
      ≤ revokeFloodBudget * (s.resetRequests k ops).count r := (paid_run hfresh ops).spent r
    _ ≤ revokeFloodBudget * 1 :=
        Nat.mul_le_mul_left _ (List.nodup_iff_count_le_one.mp (takenOnce_run hsafe).nodup r)
    _ = revokeFloodBudget := Nat.mul_one _

/-- The attachments of a run number at most one budget for each record that is taken in
once. -/
theorem length_attachments_le {ops : List FloodOp} (hfresh : s.revocations = .empty)
    (hsafe : Run.AllSafe (floodStep k) (KeepsLive k) s ops) {records : Finset RevocationRecord}
    (hheard : ∀ r, .receive r ∈ ops → r ∈ records) :
    (s.attachments k ops).length ≤ revokeFloodBudget * records.card := by
  have hsub : (s.attachments k ops).toFinset ⊆ records := by
    intro r hr
    apply hheard
    apply mem_resetRequests (k := k) (s := s)
    have hsent := List.count_pos_iff.mpr (List.mem_toFinset.mp hr)
    have hbound := (paid_run (k := k) hfresh ops).spent r
    apply List.count_pos_iff.mp
    by_contra hnot
    rw [Nat.eq_zero_of_not_pos hnot] at hbound
    omega
  calc (s.attachments k ops).length
      = ∑ r ∈ (s.attachments k ops).toFinset, (s.attachments k ops).count r :=
        (List.sum_toFinset_count_eq_length _).symm
    _ ≤ ∑ r ∈ (s.attachments k ops).toFinset, revokeFloodBudget := by
        apply Finset.sum_le_sum
        intro r _
        exact count_attachments_le hfresh hsafe r
    _ = (s.attachments k ops).toFinset.card * revokeFloodBudget := Finset.sum_const_nat fun _ _ => rfl
    _ ≤ revokeFloodBudget * records.card := by
        rw [Nat.mul_comm]
        exact Nat.mul_le_mul_left _ (Finset.card_le_card hsub)

/-- Where no step of a node's run forgets a live record, the node attaches each record to
at most `revokeFloodBudget` of its OGMs and asks for one Trickle reset by it; so whatever
nodes exchange the records, in any order of their steps, they attach them a bounded number
of times in all. -/
theorem flooding_bounded {ι : Type} [Fintype ι] (k : Crypto) (start : ι → OgmAuth c)
    (hfresh : ∀ i, (start i).revocations = .empty) (runs : ι → List FloodOp)
    (hsafe : ∀ i, Run.AllSafe (floodStep k) (KeepsLive k) (start i) (runs i))
    (records : Finset RevocationRecord) (hheard : ∀ i r, .receive r ∈ runs i → r ∈ records) :
    (∀ i r, ((start i).attachments k (runs i)).count r ≤ revokeFloodBudget ∧
        ((start i).resetRequests k (runs i)).count r ≤ 1) ∧
      ∑ i, ((start i).attachments k (runs i)).length ≤
        Fintype.card ι * (revokeFloodBudget * records.card) := by
  constructor
  · intro i r
    exact ⟨count_attachments_le (hfresh i) (hsafe i) r,
      List.nodup_iff_count_le_one.mp (takenOnce_run (hsafe i)).nodup r⟩
  · calc ∑ i, ((start i).attachments k (runs i)).length
        ≤ ∑ i : ι, revokeFloodBudget * records.card := by
          apply Finset.sum_le_sum
          intro i _
          exact length_attachments_le (hfresh i) (hsafe i) (hheard i)
      _ = Fintype.card ι * (revokeFloodBudget * records.card) := by
          rw [← Finset.card_univ]
          exact Finset.sum_const_nat fun _ _ => rfl

end Runs

end OgmAuth

namespace SmallMesh
open OgmAuth

def revokedOf4 : RevocationRecord := { revocationOf2 500 1000 (signatureOf
  0xe224b16ae93ee6d84fb667b30feac8be30e0a1fb178fe898392f104b9bb0e7b7
  0x5d51b050abbb7c6841feff52f679fa75d16f396f52a0f1f5ce8b74baf96daf03) with
  nodeMac := cert4.nodeMac }

def revokedOf5 : RevocationRecord := { revocationOf2 500 1000 (signatureOf
  0x1dbe69fd5ee501913879e6b0dc2ec3f4e766cf44dc8117717c8a5b51a7798543
  0x25b3335474c27597842689462a1402ba12e790ae1a4df60f3a712312b1459604) with
  nodeMac := ⟨0x5a, 0x12, 0xab, 0xa1, 0x42, 0xc1⟩ }

def floodCrypto : Crypto :=
  { crypto with
    verifySignature := fun pubkey msg signature =>
      (pubkey, msg, signature) ∈
        (anchor.rootPubkey, revokedOf4.signedBody, revokedOf4.signature) ::
          (anchor.rootPubkey, revokedOf5.signedBody, revokedOf5.signature) :: signatures }

def emitOgm : FloodOp :=
  .emit (BatmanOgmPacket.asBytes
    { packetType := BatmanPacketType.ogm.asU8, version := 5, ttl := 50, flags := 0,
      seqno := ⟨0, 0, 0, 1⟩, orig := cert3.nodeMac, reserved := 0, tq := 255,
      tvlvLen := .ofNat 0 }) 512 false

/-- A record heard and flooded in full, and heard again after the other two filled the
table of two rows. -/
def crowdedOut : List FloodOp :=
  [.receive revoked500] ++ List.replicate 6 emitOgm ++
    [.receive revokedOf4, .receive revokedOf5, .receive revoked500, emitOgm]

/-- Three validly signed records, alive throughout; the first rides on a seventh OGM and
asks for a second Trickle reset. -/
theorem crowdedOut_floods_again :
    (∀ r ∈ [revoked500, revokedOf4, revokedOf5],
        anchor.Revokes floodCrypto r ∧ (node3 600).wall.unixOrZero < r.notAfter.get) ∧
      (node3 600).revocations = .empty ∧
      ((node3 600).attachments floodCrypto crowdedOut).count revoked500 = revokeFloodBudget + 1 ∧
      ((node3 600).resetRequests floodCrypto crowdedOut).count revoked500 = 2 := by
  refine ⟨?_, rfl, by decide +kernel, by decide +kernel⟩
  intro r hr
  simp only [List.mem_cons, List.not_mem_nil, or_false] at hr
  rcases hr with rfl | rfl | rfl
  · exact ⟨⟨rfl, rfl, by decide +kernel, by decide +kernel⟩, by decide +kernel⟩
  · exact ⟨⟨rfl, rfl, by decide +kernel, by decide +kernel⟩, by decide +kernel⟩
  · exact ⟨⟨rfl, rfl, by decide +kernel, by decide +kernel⟩, by decide +kernel⟩

def emitOgm4 : FloodOp :=
  .emit (BatmanOgmPacket.asBytes
    { packetType := BatmanPacketType.ogm.asU8, version := 5, ttl := 50, flags := 0,
      seqno := ⟨0, 0, 0, 1⟩, orig := cert4.nodeMac, reserved := 0, tq := 255,
      tvlvLen := .ofNat 0 }) 512 false

def floodStart : Bool → OgmAuth capacities
  | false => node3 600
  | true => node4 600

/-- Node 3 hears a record, floods it and hears it again. Node 4 hears two, which fill its table,
then one that supersedes the first, and the first again. -/
def heardTwice : Bool → List FloodOp
  | false => [.receive revoked500, emitOgm, .receive revoked500]
  | true => [.receive revoked500, .receive revokedOf5, emitOgm4, .receive revoked700, emitOgm4,
      .receive revoked500]

theorem flooding_bounded_heardTwice :
    ((∀ i r,
        ((floodStart i).attachments floodCrypto (heardTwice i)).count r ≤ revokeFloodBudget ∧
          ((floodStart i).resetRequests floodCrypto (heardTwice i)).count r ≤ 1) ∧
      ∑ i, ((floodStart i).attachments floodCrypto (heardTwice i)).length ≤
        Fintype.card Bool * (revokeFloodBudget *
          ({revoked500, revokedOf5, revoked700} : Finset RevocationRecord).card)) ∧
    (node3 600).attachments floodCrypto (heardTwice false) = [revoked500] ∧
    (node4 600).attachments floodCrypto (heardTwice true) =
      [revoked500, revokedOf5, revoked700, revokedOf5] := by
  refine ⟨flooding_bounded floodCrypto floodStart ?_ heardTwice ?_
    {revoked500, revokedOf5, revoked700} ?_, by decide +kernel, by decide +kernel⟩
  · intro i
    cases i <;> rfl
  · intro i
    cases i <;> decide +kernel
  · intro i r hr
    cases i <;>
      · simp only [heardTwice, emitOgm, emitOgm4, List.mem_cons, FloodOp.receive.injEq,
          reduceCtorEq, List.not_mem_nil, or_false, false_or] at hr
        simp only [Finset.mem_insert, Finset.mem_singleton]
        tauto

end SmallMesh

end Wayfinder
