import Mathlib.Algebra.Ring.Nat
import Mathlib.Data.List.Infix
import Wayfinder.Lib.Cursor
import Wayfinder.Lib.Ring
import Wayfinder.Lib.Run

/-!
# The log ring

The records a node keeps for a client to poll. The oldest makes way for a new one, so a
client that is slow finds a gap; every poll says how many records the gap had. A batch is
bounded in records and in bytes, and the next poll starts where it ended.
-/

namespace Wayfinder

set_option autoImplicit false

open Run

/-! ### Records -/

def messageCap : Nat := 160
def targetCap : Nat := 64
def recordOverhead : Nat := 40

inductive LogLevel where
  | error | warn | info | debug | trace
  deriving DecidableEq, Repr

structure LogRecord where
  seq : Nat
  uptimeMs : Nat
  level : LogLevel
  target : String
  message : String
  deriving DecidableEq, Repr

/-- The longest front of a text that fits, cut between characters. -/
def truncatedChars : Nat → List Char → List Char
  | _, [] => []
  | n, c :: cs => if c.utf8Size ≤ n then c :: truncatedChars (n - c.utf8Size) cs else []

def truncated (n : Nat) (s : String) : String := String.ofList (truncatedChars n s.toList)

def recordSize (r : LogRecord) : Nat :=
  r.target.utf8ByteSize + r.message.utf8ByteSize + recordOverhead

structure LogSnapshot where
  records : List LogRecord
  nextSeq : Nat
  dropped : Nat
  deriving DecidableEq, Repr

/-! ### The ring -/

structure LogRing (cap : Nat) where
  buf : Bounded LogRecord cap
  nextSeq : Nat

namespace LogRing

variable {cap : Nat}

def new : LogRing cap := ⟨.empty, 0⟩

def push (ring : LogRing cap) (level : LogLevel) (target message : String) (uptimeMs : Nat) :
    LogRing cap where
  buf := (ring.buf.pushOut
    ⟨ring.nextSeq, uptimeMs, level, truncated targetCap target, truncated messageCap message⟩).2
  nextSeq := (ring.nextSeq + 1) % 2 ^ 64

/-- The records that go out with those whose sizes add up to `used`. The first goes out
whatever it costs. Sizes are added in machine words that stop at the largest. -/
def batch (usizeMax byteBudget : Nat) : Bool → Nat → List LogRecord → List LogRecord
  | _, _, [] => []
  | isFirst, used, r :: rest =>
    let total := min (used + recordSize r) usizeMax
    if !isFirst && byteBudget < total then [] else r :: batch usizeMax byteBudget false total rest

def sinceWithin (usizeMax : Nat) (ring : LogRing cap) (sinceSeq maxRecords byteBudget : Nat) :
    LogSnapshot :=
  let maxRecords := if maxRecords = 0 then cap else maxRecords
  let oldest := (ring.buf.toList.head?.map LogRecord.seq).getD ring.nextSeq
  let records := batch usizeMax byteBudget true 0
    ((ring.buf.toList.filter fun r => decide (sinceSeq ≤ r.seq)).take maxRecords)
  { records := records
    nextSeq := (records.getLast?.map fun r => r.seq + 1).getD ring.nextSeq
    dropped := oldest - sinceSeq }

end LogRing

/-! ### A client that polls -/

inductive LogOp where
  | push (level : LogLevel) (target message : String) (uptimeMs : Nat)
  | poll (maxRecords byteBudget : Nat)

def LogOp.isPush : LogOp → Bool
  | .push .. => true
  | .poll .. => false

/-- A ring and its client: the sequence number the client was given last, and as history
variables every record pushed and every poll with the number it was made from. -/
structure LogSession (cap : Nat) where
  ring : LogRing cap
  sinceSeq : Nat
  pushed : List LogRecord
  polls : List (Nat × LogSnapshot)

namespace LogSession

variable {cap : Nat}

def new : LogSession cap := ⟨.new, 0, [], []⟩

def poll (usizeMax : Nat) (s : LogSession cap) (maxRecords byteBudget : Nat) : LogSnapshot :=
  s.ring.sinceWithin usizeMax s.sinceSeq maxRecords byteBudget

def step (usizeMax : Nat) (s : LogSession cap) : LogOp → LogSession cap
  | .push level target message uptimeMs =>
    let ring := s.ring.push level target message uptimeMs
    { s with
      ring := ring
      pushed := s.pushed ++ [⟨s.ring.nextSeq, uptimeMs, level, truncated targetCap target,
        truncated messageCap message⟩] }
  | .poll maxRecords byteBudget =>
    let snapshot := s.poll usizeMax maxRecords byteBudget
    { s with
      sinceSeq := snapshot.nextSeq
      polls := s.polls ++ [(s.sinceSeq, snapshot)] }

def delivered (s : LogSession cap) : List LogRecord := s.polls.flatMap fun p => p.2.records

/-- The sequence numbers the polls counted as dropped. -/
def missed (s : LogSession cap) : List Nat :=
  s.polls.flatMap fun p => List.range' p.1 p.2.dropped

/-- Batches are contiguous runs, in order and without repetition, of what was pushed; and of
the records before the client's number each was delivered once or counted once. -/
structure Lossless (s : LogSession cap) : Prop where
  contiguous : ∀ p ∈ s.polls, p.2.records <:+: s.pushed ∧
    ∃ first, p.2.records.map LogRecord.seq = List.range' first p.2.records.length
  ordered : (s.delivered.map LogRecord.seq).Pairwise (· < ·)
  genuine : s.delivered.Sublist s.pushed
  once : ∀ r ∈ s.pushed, r.seq < s.sinceSeq →
    s.delivered.count r + s.missed.count r.seq = 1
  counted : s.missed.length = (s.polls.map fun p => p.2.dropped).sum

end LogSession

/-! ### What a batch holds -/

namespace LogRing

section Batch
variable {usizeMax byteBudget : Nat}

theorem batch_prefix (isFirst : Bool) (used : Nat) (l : List LogRecord) :
    batch usizeMax byteBudget isFirst used l <+: l := by
  induction l generalizing isFirst used with
  | nil => exact List.prefix_rfl
  | cons r rest ih =>
    unfold batch
    dsimp only
    split
    · exact List.nil_prefix
    · exact List.cons_prefix_cons.mpr ⟨rfl, ih _ _⟩

theorem batch_first_ne_nil {used : Nat} {l : List LogRecord} (hl : l ≠ []) :
    batch usizeMax byteBudget true used l ≠ [] := by
  cases l with
  | nil => exact absurd rfl hl
  | cons r rest =>
    unfold batch
    dsimp only
    rw [if_neg (by simp)]
    exact List.cons_ne_nil _ _

/-- In a contiguous run, to keep the numbers from one on is to drop the ones before it. -/
theorem filter_seq {l : List LogRecord} {first : Nat} (since : Nat)
    (hl : l.map LogRecord.seq = List.range' first l.length) :
    (l.filter fun r => decide (since ≤ r.seq)) = l.drop (since - first) := by
  induction l generalizing first with
  | nil => simp
  | cons r rest ih =>
    rw [List.map_cons, List.length_cons, List.range'_succ] at hl
    obtain ⟨hseq, hrest⟩ := List.cons.inj hl
    have hih := ih hrest
    rw [List.filter_cons, hih, hseq]
    by_cases hle : since ≤ first
    · rw [if_pos (by simpa using hle)]
      rw [show since - first = 0 by omega, show since - (first + 1) = 0 by omega]
      rfl
    · rw [if_neg (by simpa using hle)]
      rw [show since - first = since - (first + 1) + 1 by omega]
      rfl

end Batch

end LogRing

namespace LogSession

variable {cap usizeMax : Nat} {s : LogSession cap}

def reader (s : LogSession cap) : Reader :=
  ⟨s.sinceSeq, s.delivered.map LogRecord.seq, s.missed⟩

/-- Sequence numbers are positions in what was pushed, and the ring holds its end. -/
structure Inv (s : LogSession cap) : Prop where
  numbered : s.pushed.map LogRecord.seq = List.range s.pushed.length
  retained : s.ring.buf.toList <:+ s.pushed
  nextSeq : s.ring.nextSeq = s.pushed.length
  since_le : s.sinceSeq ≤ s.pushed.length
  accounts : s.reader.Accounts
  contiguous : ∀ p ∈ s.polls, p.2.records <:+: s.pushed ∧
    ∃ first, p.2.records.map LogRecord.seq = List.range' first p.2.records.length
  genuine : s.delivered.Sublist (s.pushed.take s.sinceSeq)
  gone : ∀ n ∈ s.missed, n + s.ring.buf.toList.length < s.pushed.length

/-- What one poll reads: it passes over what was dropped and takes the next records. -/
structure Reads (s : LogSession cap) (snapshot : LogSnapshot) (count : Nat) : Prop where
  records : snapshot.records = (s.pushed.drop (s.sinceSeq + snapshot.dropped)).take count
  seqs : snapshot.records.map LogRecord.seq =
    List.range' (s.sinceSeq + snapshot.dropped) count
  nextSeq : snapshot.nextSeq = s.sinceSeq + snapshot.dropped + count
  nextSeq_le : snapshot.nextSeq ≤ s.pushed.length
  gone : ∀ n ∈ List.range' s.sinceSeq snapshot.dropped,
    n + s.ring.buf.toList.length < s.pushed.length
  progress : (∃ r ∈ s.ring.buf.toList, s.sinceSeq ≤ r.seq) → 0 < count

theorem seqs_of_infix {l l' : List LogRecord} (hl : l.map LogRecord.seq = List.range l.length)
    {first count : Nat} (hcount : first + count ≤ l.length)
    (h : l' = (l.drop first).take count) :
    l'.map LogRecord.seq = List.range' first count := by
  rw [h, List.map_take, List.map_drop, hl, List.range_eq_range', List.drop_range',
    List.take_range'_of_length_ge (by omega)]
  congr 1
  omega

theorem Inv.reads (h : s.Inv) (usizeMax maxRecords byteBudget : Nat) :
    ∃ count, s.Reads (s.poll usizeMax maxRecords byteBudget) count := by
  obtain ⟨before, hpushed⟩ := h.retained
  have hlength : before.length + s.ring.buf.toList.length = s.pushed.length := by
    rw [← hpushed, List.length_append]
  have hbuf : s.ring.buf.toList = s.pushed.drop before.length := by
    rw [← hpushed, List.drop_left]
  have hseqs : s.ring.buf.toList.map LogRecord.seq =
      List.range' before.length s.ring.buf.toList.length := by
    apply seqs_of_infix h.numbered (Nat.le_of_eq hlength)
    rw [← hbuf, List.take_length]
  have holdest : (s.ring.buf.toList.head?.map LogRecord.seq).getD s.ring.nextSeq =
      before.length := by
    rw [← List.head?_map, hseqs]
    cases hlen : s.ring.buf.toList.length with
    | zero =>
      rw [h.nextSeq, List.range'_zero, List.head?_nil, Option.getD_none]
      omega
    | succ len => rfl
  have hsince := h.since_le
  have hkept := LogRing.filter_seq s.sinceSeq hseqs
  have hskip : s.sinceSeq + (before.length - s.sinceSeq) =
      before.length + (s.sinceSeq - before.length) := by omega
  rw [hbuf, List.drop_drop, ← hskip] at hkept
  have hfront : (s.poll usizeMax maxRecords byteBudget).records <+:
      s.pushed.drop (s.sinceSeq + (before.length - s.sinceSeq)) := by
    unfold poll LogRing.sinceWithin
    dsimp only
    rw [hbuf, hkept]
    exact (LogRing.batch_prefix _ _ _).trans (List.take_prefix _ _)
  have hdropped : (s.poll usizeMax maxRecords byteBudget).dropped =
      before.length - s.sinceSeq := by
    unfold poll LogRing.sinceWithin
    dsimp only
    rw [holdest]
  have hrecords := List.prefix_iff_eq_take.mp hfront
  have hcount := hfront.length_le
  rw [List.length_drop] at hcount
  rw [← hdropped] at hrecords hcount
  have hbound : s.sinceSeq + (s.poll usizeMax maxRecords byteBudget).dropped +
      (s.poll usizeMax maxRecords byteBudget).records.length ≤ s.pushed.length := by
    omega
  have hnumbers := seqs_of_infix h.numbered hbound hrecords
  have hnext : (s.poll usizeMax maxRecords byteBudget).nextSeq =
      ((s.poll usizeMax maxRecords byteBudget).records.getLast?.map fun r => r.seq + 1).getD
        s.ring.nextSeq := rfl
  have hprogress : (∃ r ∈ s.ring.buf.toList, s.sinceSeq ≤ r.seq) →
      0 < (s.poll usizeMax maxRecords byteBudget).records.length := by
    rintro ⟨r, hr, hsince⟩
    have hmem : r ∈ s.ring.buf.toList.filter fun r => decide (s.sinceSeq ≤ r.seq) :=
      List.mem_filter.mpr ⟨hr, decide_eq_true hsince⟩
    have hcap : 0 < (if maxRecords = 0 then cap else maxRecords) := by
      have hle := s.ring.buf.length_le
      have hpos := List.length_pos_of_mem hr
      split <;> omega
    apply List.length_pos_iff.mpr
    apply LogRing.batch_first_ne_nil
    apply List.length_pos_iff.mp
    rw [List.length_take]
    exact Nat.lt_min.mpr ⟨hcap, List.length_pos_of_mem hmem⟩
  have hnextSeq : (s.poll usizeMax maxRecords byteBudget).nextSeq =
      s.sinceSeq + (s.poll usizeMax maxRecords byteBudget).dropped +
        (s.poll usizeMax maxRecords byteBudget).records.length := by
    rw [hnext]
    generalize (s.poll usizeMax maxRecords byteBudget).records = records at *
    cases hlen : records.length with
    | zero =>
      -- Nothing was taken, so nothing before the end of the stream is retained.
      rw [List.length_eq_zero_iff.mp hlen, List.getLast?_nil, Option.map_none, Option.getD_none,
        h.nextSeq, hdropped]
      cases hretained : s.ring.buf.toList.length with
      | zero => omega
      | succ len =>
        have hlast : s.pushed.length - 1 ∈ s.ring.buf.toList.map LogRecord.seq := by
          rw [hseqs, List.mem_range'_1]
          omega
        obtain ⟨r, hr, hseq⟩ := List.mem_map.mp hlast
        have hbehind : ¬ s.sinceSeq ≤ r.seq := by
          intro hsince
          have hpos := hprogress ⟨r, hr, hsince⟩
          omega
        omega
    | succ count =>
      rw [hlen] at hnumbers
      have hlast : records.getLast?.map LogRecord.seq =
          some (s.sinceSeq + (s.poll usizeMax maxRecords byteBudget).dropped + count) := by
        rw [← List.getLast?_map, hnumbers, List.getLast?_range', if_neg (Nat.succ_ne_zero count)]
        rfl
      obtain ⟨r, hr, hseq⟩ := Option.map_eq_some_iff.mp hlast
      rw [hr, Option.map_some, Option.getD_some, hseq]
      rfl
  refine ⟨_, hrecords, hnumbers, hnextSeq, hnextSeq ▸ hbound, ?_, hprogress⟩
  intro n hn
  rw [hdropped, List.mem_range'_1] at hn
  omega

/-! ### Runs -/

theorem inv_new : (new : LogSession cap).Inv where
  numbered := rfl
  retained := List.suffix_rfl
  nextSeq := rfl
  since_le := Nat.le_refl 0
  accounts := Reader.accounts_start
  contiguous := by
    intro p hp
    cases hp
  genuine := List.Sublist.slnil
  gone := by
    intro n hn
    cases hn

theorem Inv.push (h : s.Inv) (hroom : s.pushed.length + 1 < 2 ^ 64) (level : LogLevel)
    (target message : String) (uptimeMs : Nat) :
    (s.step usizeMax (.push level target message uptimeMs)).Inv where
  numbered := by
    unfold step
    dsimp only
    rw [List.map_append, h.numbered, List.length_append, List.map_singleton, h.nextSeq]
    exact List.range_succ.symm
  retained := by
    obtain ⟨before, hpushed⟩ := h.retained
    refine (Bounded.pushOut_suffix _ _).trans ?_
    unfold step
    dsimp only
    rw [← hpushed, List.append_assoc]
    exact List.suffix_append _ _
  nextSeq := by
    unfold step LogRing.push
    dsimp only
    rw [h.nextSeq, List.length_append, Nat.mod_eq_of_lt hroom]
    rfl
  since_le := by
    unfold step
    dsimp only
    rw [List.length_append]
    exact Nat.le_add_right_of_le h.since_le
  accounts := h.accounts
  contiguous := by
    intro p hp
    obtain ⟨hblock, hseqs⟩ := h.contiguous p hp
    exact ⟨hblock.trans (List.prefix_append _ _).isInfix, hseqs⟩
  genuine := by
    unfold step
    dsimp only
    rw [List.take_append_of_le_length h.since_le]
    exact h.genuine
  gone := by
    intro n hn
    have hgone := h.gone n hn
    have hle := (Bounded.pushOut_suffix s.ring.buf ⟨s.ring.nextSeq, uptimeMs, level,
      truncated targetCap target, truncated messageCap message⟩).length_le
    rw [List.length_append, List.length_singleton] at hle
    unfold step LogRing.push
    dsimp only
    rw [List.length_append, List.length_singleton]
    omega

theorem delivered_poll (maxRecords byteBudget : Nat) :
    (s.step usizeMax (.poll maxRecords byteBudget)).delivered =
      s.delivered ++ (s.poll usizeMax maxRecords byteBudget).records := by
  unfold delivered step
  dsimp only
  rw [List.flatMap_append, List.flatMap_singleton]

theorem missed_poll (maxRecords byteBudget : Nat) :
    (s.step usizeMax (.poll maxRecords byteBudget)).missed = s.missed ++
      List.range' s.sinceSeq (s.poll usizeMax maxRecords byteBudget).dropped := by
  unfold missed step
  dsimp only
  rw [List.flatMap_append, List.flatMap_singleton]

theorem reader_poll {maxRecords byteBudget count : Nat}
    (hreads : s.Reads (s.poll usizeMax maxRecords byteBudget) count) :
    (s.step usizeMax (.poll maxRecords byteBudget)).reader =
      s.reader.read (s.poll usizeMax maxRecords byteBudget).dropped count := by
  rw [reader, delivered_poll, missed_poll, List.map_append, hreads.seqs]
  unfold step
  dsimp only
  rw [hreads.nextSeq]
  rfl

theorem Inv.poll (h : s.Inv) (maxRecords byteBudget : Nat) :
    (s.step usizeMax (.poll maxRecords byteBudget)).Inv := by
  obtain ⟨count, hreads⟩ := h.reads usizeMax maxRecords byteBudget
  refine ⟨h.numbered, h.retained, h.nextSeq, hreads.nextSeq_le, ?_, ?_, ?_, ?_⟩
  · rw [reader_poll hreads]
    exact h.accounts.read _ _
  · intro p hp
    cases List.mem_append.mp hp with
    | inl hold => exact h.contiguous p hold
    | inr hnew =>
      rw [List.mem_singleton.mp hnew]
      dsimp only
      have hlength := congrArg List.length hreads.seqs
      rw [List.length_map, List.length_range'] at hlength
      refine ⟨?_, ⟨_, by rw [hlength]; exact hreads.seqs⟩⟩
      rw [hreads.records]
      exact (List.take_prefix _ _).isInfix.trans (List.drop_suffix _ _).isInfix
  · rw [delivered_poll, hreads.records]
    unfold step
    dsimp only
    rw [hreads.nextSeq, List.take_add, List.take_add, List.append_assoc]
    exact h.genuine.append (List.sublist_append_right _ _)
  · intro n hn
    rw [missed_poll] at hn
    cases List.mem_append.mp hn with
    | inl hold => exact h.gone n hold
    | inr hnew => exact hreads.gone n hnew

theorem inv_run {ops : List LogOp} (hpushes : ops.countP LogOp.isPush < 2 ^ 64) :
    (run (step usizeMax) (new : LogSession cap) ops).Inv ∧
      (run (step usizeMax) (new : LogSession cap) ops).pushed.length =
        ops.countP LogOp.isPush := by
  induction ops using List.reverseRecOn with
  | nil => exact ⟨inv_new, rfl⟩
  | append_singleton ops op ih =>
    rw [List.countP_append] at hpushes ⊢
    obtain ⟨hinv, hlength⟩ := ih (by omega)
    rw [run_append_singleton]
    cases op with
    | push level target message uptimeMs =>
      rw [List.countP_singleton] at hpushes ⊢
      refine ⟨hinv.push (by rw [hlength]; exact hpushes) level target message uptimeMs, ?_⟩
      have hpushed : ((run (step usizeMax) (new : LogSession cap) ops).step usizeMax
          (.push level target message uptimeMs)).pushed.length =
            (run (step usizeMax) (new : LogSession cap) ops).pushed.length + 1 :=
        List.length_append
      rw [hpushed, hlength]
      rfl
    | poll maxRecords byteBudget => exact ⟨hinv.poll maxRecords byteBudget, hlength⟩

theorem Inv.nodup_pushed (h : s.Inv) : s.pushed.Nodup := by
  have hnodup : (s.pushed.map LogRecord.seq).Nodup := by
    rw [h.numbered]
    exact List.nodup_range
  exact List.Nodup.of_map _ hnodup

theorem Inv.eq_of_seq (h : s.Inv) {r r' : LogRecord} (hr : r ∈ s.pushed) (hr' : r' ∈ s.pushed)
    (hseq : r.seq = r'.seq) : r = r' := by
  have hnodup : (s.pushed.map LogRecord.seq).Nodup := by
    rw [h.numbered]
    exact List.nodup_range
  exact List.inj_on_of_nodup_map hnodup hr hr' hseq

theorem Inv.delivered_sublist (h : s.Inv) : s.delivered.Sublist s.pushed :=
  h.genuine.trans (List.take_sublist _ _)

/-- Records are told apart by their numbers. -/
theorem Inv.count_delivered (h : s.Inv) {r : LogRecord} (hr : r ∈ s.pushed) :
    s.delivered.count r = (s.delivered.map LogRecord.seq).count r.seq := by
  have hordered : (s.delivered.map LogRecord.seq).Nodup := h.accounts.ordered.nodup
  by_cases hmem : r ∈ s.delivered
  · rw [List.count_eq_one_of_mem (h.nodup_pushed.sublist h.delivered_sublist) hmem,
      List.count_eq_one_of_mem hordered (List.mem_map_of_mem hmem)]
  · rw [List.count_eq_zero_of_not_mem hmem, List.count_eq_zero_of_not_mem]
    intro hseq
    obtain ⟨r', hr', heq⟩ := List.mem_map.mp hseq
    apply hmem
    rw [← h.eq_of_seq (h.delivered_sublist.subset hr') hr heq]
    exact hr'

theorem Inv.lossless (h : s.Inv) : s.Lossless where
  contiguous := h.contiguous
  ordered := h.accounts.ordered
  genuine := h.delivered_sublist
  once := by
    intro r hr hbefore
    rw [h.count_delivered hr]
    exact h.accounts.once r.seq hbefore
  counted := by
    unfold missed
    rw [List.length_flatMap]
    congr 1
    apply List.map_congr_left
    intro p _
    exact List.length_range'

/-- What is retained and was not delivered is still before the client. -/
theorem Inv.since_le_of_undelivered (h : s.Inv) {r : LogRecord} (hr : r ∈ s.ring.buf.toList)
    (hundelivered : r ∉ s.delivered) : s.sinceSeq ≤ r.seq := by
  obtain ⟨before, hpushed⟩ := h.retained
  have hmem : r ∈ s.pushed := h.retained.subset hr
  by_contra hbefore
  have honce := h.lossless.once r hmem (Nat.lt_of_not_le hbefore)
  rw [List.count_eq_zero_of_not_mem hundelivered, Nat.zero_add] at honce
  have hmissed : r.seq ∈ s.missed := List.count_pos_iff.mp (by rw [honce]; exact Nat.one_pos)
  have hgone := h.gone r.seq hmissed
  have hnumbers : s.ring.buf.toList.map LogRecord.seq =
      List.range' before.length s.ring.buf.toList.length := by
    apply seqs_of_infix h.numbered
    · rw [← hpushed, List.length_append]
    · rw [← hpushed, List.drop_left, List.take_length]
  have hseq : r.seq ∈ List.range' before.length s.ring.buf.toList.length := by
    rw [← hnumbers]
    exact List.mem_map_of_mem hr
  have hlow := (List.mem_range'_1.mp hseq).1
  have hlength : before.length + s.ring.buf.toList.length = s.pushed.length := by
    rw [← hpushed, List.length_append]
  omega

/-- Whatever was pushed and however it was polled, every record before the number a client
was given last was delivered to it once or counted once as dropped, in batches that are
contiguous and in order; and a poll made while there is something left to deliver
delivers something. -/
theorem polling_lossless (usizeMax cap : Nat) (ops : List LogOp)
    (hpushes : ops.countP LogOp.isPush < 2 ^ 64) :
    let s := run (step usizeMax) (new : LogSession cap) ops
    s.Lossless ∧ ∀ maxRecords byteBudget,
      (∃ r ∈ s.ring.buf.toList, r ∉ s.delivered) →
        (s.poll usizeMax maxRecords byteBudget).records ≠ [] := by
  intro s
  have hinv : s.Inv := (inv_run hpushes).1
  refine ⟨hinv.lossless, ?_⟩
  rintro maxRecords byteBudget ⟨r, hr, hundelivered⟩
  obtain ⟨count, hreads⟩ := hinv.reads usizeMax maxRecords byteBudget
  have hpos := hreads.progress ⟨r, hr, hinv.since_le_of_undelivered hr hundelivered⟩
  have hlength := congrArg List.length hreads.seqs
  rw [List.length_map, List.length_range'] at hlength
  exact List.length_pos_iff.mp (by omega)

/-- Three records through a ring of two: the first is counted, the others are delivered
one by one. -/
def slowClient : List LogOp :=
  [.push .info "mesh" "up" 0, .push .warn "mesh" "link lost" 5, .push .info "mesh" "link back" 9,
    .poll 1 4096]

theorem polling_lossless_slowClient :
    let s := run (step (2 ^ 32 - 1)) (new : LogSession 2) slowClient
    s.missed = [0] ∧ s.Lossless ∧ (s.poll (2 ^ 32 - 1) 1 4096).records ≠ [] := by
  have hlossless := polling_lossless (2 ^ 32 - 1) 2 slowClient (by decide)
  refine ⟨by decide, hlossless.1, ?_⟩
  exact hlossless.2 1 4096 (by decide)

end LogSession

end Wayfinder
