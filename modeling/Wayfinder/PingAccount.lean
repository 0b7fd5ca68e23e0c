import Wayfinder.Ping

/-!
# What becomes of every probe

The five calls on a session, in any order and at any times. Beside the ring stand the fates
of the probes whose rows have left it. Every probe has one fate, resolved once, and the
three counters say how many have which; `lost` counts those that left the ring pending.
-/

namespace Wayfinder

set_option autoImplicit false

open Run Bounded

/-- The longest duration there is, in nanoseconds. -/
def Duration.max : Duration := 2 ^ 64 * 1000000000 - 1

def Duration.ofMicros (us : Nat) : Duration := us * 1000

def ProbeState.isLost (st : ProbeState) : Bool := st = .timedOut || st = .noRoute

/-- What a row that leaves the ring was resolved as. -/
def ProbeState.settle (st : ProbeState) : ProbeState := if st = .pending then .timedOut else st

/-! ### The calls -/

inductive PingCall where
  | sent (now : Duration)
  | noRoute (now : Duration)
  | reply (now : Duration) (peer : Mac) (seqno : Nat) (fwdHops revHops : U8)
  | expire (now : Duration)
  | cancel

def PingCall.starts? : PingCall → Option Duration
  | .sent now | .noRoute now => some now
  | _ => none

namespace PingSession

def states (s : PingSession) : List ProbeState := s.probes.toList.map ProbeRecord.state

def pendingRows (s : PingSession) : Nat := s.probes.toList.countP ProbeRecord.isPending

theorem pendingRows_eq (s : PingSession) : s.pendingRows = s.states.count .pending := by
  rw [states, List.count_eq_countP, List.countP_map]
  rfl

/-- Until the next probe, or the first of the timeouts still running. -/
def nextDueAfter (s : PingSession) (now : Duration) : Option Duration :=
  let soonest := s.probes.toList.foldl (fun soonest p =>
      if p.isPending then
        min soonest (Duration.ofMicros
          (s.timeout.asMicros % 2 ^ 32 - wrappingSub (us now) p.sentAtUs))
      else soonest)
    (if s.emitted < s.requested then s.nextDue - now else Duration.max)
  if soonest ≠ Duration.max then some soonest else none

def call (s : PingSession) : PingCall → PingSession
  | .sent now => (s.recordSent now).1
  | .noRoute now => s.recordNoRoute now
  | .reply now peer seqno fwdHops revHops => (s.recordReply now peer seqno fwdHops revHops).1
  | .expire now => s.expire now
  | .cancel => s.cancel

def WhileDue (s : PingSession) (c : PingCall) : Prop := ∀ now ∈ c.starts?, s.due now = true

instance (s : PingSession) (c : PingCall) : Decidable (s.WhileDue c) :=
  inferInstanceAs (Decidable (∀ now ∈ c.starts?, _))

end PingSession

/-- A session, and the fates of the probes whose rows have left its ring, oldest first. -/
structure PingAudit where
  session : PingSession
  gone : List ProbeState

namespace PingAudit

def start (s : PingSession) : PingAudit := ⟨s, []⟩

def fates (a : PingAudit) : List ProbeState := a.gone ++ a.session.states

/-- The rows a call takes from the ring. -/
def leaving (a : PingAudit) (c : PingCall) : List ProbeState :=
  a.session.states.take
    (a.session.states.length + c.starts?.toList.length - (a.session.call c).states.length)

def step (a : PingAudit) (c : PingCall) : PingAudit where
  session := a.session.call c
  gone := a.gone ++ (a.leaving c).map ProbeState.settle

/-! ### Fates -/

/-- Every fate but a pending one stays what it is. -/
def Keeps (fates fates' : List ProbeState) : Prop :=
  ∀ (i : Nat) (st : ProbeState), fates[i]? = some st → st ≠ .pending → fates'[i]? = some st

theorem Keeps.refl (fates : List ProbeState) : Keeps fates fates := fun _ _ h _ => h

theorem Keeps.trans {x y z : List ProbeState} (hxy : Keeps x y) (hyz : Keeps y z) : Keeps x z := by
  intro i st h hst
  exact hyz i st (hxy i st h hst) hst

theorem Keeps.append {x x' : List ProbeState} (hlen : x.length = x'.length) (hx : Keeps x x')
    {y y' : List ProbeState} (hy : Keeps y y') : Keeps (x ++ y) (x' ++ y') := by
  intro i st h hst
  by_cases hi : i < x.length
  · rw [List.getElem?_append_left hi] at h
    rw [List.getElem?_append_left (hlen ▸ hi)]
    exact hx i st h hst
  · rw [List.getElem?_append_right (Nat.le_of_not_lt hi)] at h
    rw [List.getElem?_append_right (hlen ▸ Nat.le_of_not_lt hi), ← hlen]
    exact hy _ st h hst

theorem keeps_append_right (x y : List ProbeState) : Keeps x (x ++ y) := by
  intro i st h _
  obtain ⟨hi, _⟩ := List.getElem?_eq_some_iff.mp h
  rw [List.getElem?_append_left hi]
  exact h

theorem keeps_map {f : ProbeState → ProbeState} (hf : ∀ st, st ≠ .pending → f st = st)
    (x : List ProbeState) : Keeps x (x.map f) := by
  intro i st h hst
  rw [List.getElem?_map, h, Option.map_some, hf st hst]

theorem settle_of_ne {st : ProbeState} (h : st ≠ .pending) : st.settle = st := if_neg h

theorem settle_ne (st : ProbeState) : st.settle ≠ .pending := by
  cases st <;> decide

/-! ### What a call does to the ring and the counters -/

/-- The counters say what the fates are, as far as they reach. -/
structure Balanced (a : PingAudit) : Prop where
  settled : ∀ st ∈ a.gone, st ≠ .pending
  sent : a.session.sent = saturate 32 a.fates.length
  received : a.session.received = saturate 32 (a.fates.count .replied)
  lost : a.session.lost = saturate 32 (a.fates.countP ProbeState.isLost)

theorem saturate_add (w m n : Nat) : saturate w (saturate w m + n) = saturate w (m + n) := by
  unfold saturate
  omega

end PingAudit

namespace PingSession

theorem push_lost (s : PingSession) (record : ProbeRecord) :
    (s.push record).lost =
      if (s.probes.pushOut record).1.any ProbeRecord.isPending then saturate 32 (s.lost + 1)
      else s.lost := rfl

theorem push_cases (s : PingSession) (record : ProbeRecord) :
    ((s.push record).states = s.states ++ [record.state] ∧ (s.push record).lost = s.lost) ∨
    ∃ oldest rest, s.states = oldest :: rest ∧
      (s.push record).states = rest ++ [record.state] ∧
      (s.push record).lost = if oldest = .pending then saturate 32 (s.lost + 1) else s.lost := by
  by_cases hroom : s.probes.toList.length < maxPingProbes
  · obtain ⟨hout, hin⟩ := pushOut_of_lt (x := record) hroom
    left
    constructor
    · rw [states, push, hin, List.map_append]
      rfl
    · rw [push_lost, hout]
      rfl
  · cases hrows : s.probes.toList with
    | nil =>
      rw [hrows] at hroom
      exact absurd (by decide) hroom
    | cons oldest rest =>
      obtain ⟨hout, hin⟩ := pushOut_of_full (x := record) hroom hrows
      right
      refine ⟨oldest.state, rest.map ProbeRecord.state, ?_, ?_, ?_⟩
      · rw [states, hrows, List.map_cons]
      · rw [states, push, hin, List.map_append]
        rfl
      · rw [push_lost, hout]
        simp [ProbeRecord.isPending]

/-- A reply is credited to one pending row, or changes nothing. -/
theorem recordReply_cases (s : PingSession) (now : Duration) (peer : Mac) (seqno : Nat)
    (fwdHops revHops : U8) :
    (s.recordReply now peer seqno fwdHops revHops).1 = s ∨
    ∃ before after, s.states = before ++ .pending :: after ∧
      (s.recordReply now peer seqno fwdHops revHops).1.states = before ++ .replied :: after ∧
      (s.recordReply now peer seqno fwdHops revHops).1.received = saturate 32 (s.received + 1) ∧
      (s.recordReply now peer seqno fwdHops revHops).1.sent = s.sent ∧
      (s.recordReply now peer seqno fwdHops revHops).1.lost = s.lost := by
  unfold recordReply
  split
  · exact Or.inl rfl
  · split
    · exact Or.inl rfl
    · rename_i probe probes hfound
      obtain ⟨before, after, hrows, hrows', hp, _⟩ :=
        List.changeFirst_split (toList_changeFirst hfound)
      have hpending : probe.state = .pending := of_decide_eq_true (Bool.and_eq_true_iff.mp hp).2
      right
      refine ⟨before.map ProbeRecord.state, after.map ProbeRecord.state, ?_, ?_, rfl, rfl, rfl⟩
      · rw [states, hrows, List.map_append, List.map_cons, hpending]
      · dsimp only [states]
        rw [hrows', List.map_append, List.map_cons]

theorem states_map (s : PingSession) {p : ProbeRecord → Bool}
    (hp : ∀ row, p row = true → row.isPending = true) :
    ((s.probes.toList.map fun row => if p row then { row with state := .timedOut } else row).map
      ProbeRecord.state).countP ProbeState.isLost =
      s.states.countP ProbeState.isLost + s.probes.toList.countP p := by
  unfold states
  induction s.probes.toList with
  | nil => rfl
  | cons row rows ih =>
    simp only [List.map_cons, List.countP_cons, ih]
    cases hrow : p row with
    | true =>
      have hpending : row.state = .pending := of_decide_eq_true (hp row hrow)
      simp only [if_true, hpending]
      simp [ProbeState.isLost]
      omega
    | false =>
      simp only [Bool.false_eq_true, if_false]
      omega

end PingSession

namespace PingAudit

variable {a : PingAudit}

/-- What a call comes to: the fates so far are kept, at most one is new, and the counters
go on saying what the fates are. -/
structure Sound (a : PingAudit) (c : PingCall) : Prop where
  balanced : Balanced (a.step c)
  keeps : Keeps a.fates (a.step c).fates
  length : (a.step c).fates.length = a.fates.length + c.starts?.toList.length

/-- Starting a probe, the row it displaces is settled. -/
theorem Balanced.sound_start (h : Balanced a) (record : ProbeRecord) {c : PingCall}
    {now : Duration} (hc : c.starts? = some now) {s : PingSession}
    (hcall : a.session.call c = s.push record) (hstates : s.states = a.session.states)
    (hsent : s.sent = saturate 32 (a.session.sent + 1))
    (hreceived : s.received = a.session.received)
    (hlost : s.lost = saturate 32 (a.session.lost + [record.state].countP ProbeState.isLost))
    (hnew : record.state ≠ .replied) : Sound a c := by
  have hleaving : a.leaving c =
      s.states.take (s.states.length + 1 - (s.push record).states.length) := by
    rw [leaving, hcall, hstates, hc]
    rfl
  have hfates : (a.step c).fates =
      a.gone ++ (a.leaving c).map ProbeState.settle ++ (s.push record).states := by
    rw [fates, step, hcall]
  have hold : a.fates = a.gone ++ s.states := by rw [fates, hstates]
  have hsession : (a.step c).session = s.push record := hcall
  have hreplied : [record.state].count .replied = 0 :=
    List.count_eq_zero.mpr (by simpa using hnew.symm)
  have hsettled : ∀ st ∈ (a.step c).gone, st ≠ .pending := by
    intro st hst
    rcases List.mem_append.mp hst with hst | hst
    · exact h.settled st hst
    · obtain ⟨old, _, rfl⟩ := List.mem_map.mp hst
      exact settle_ne old
  have hsent' : (a.step c).session.sent = saturate 32 (a.fates.length + 1) := by
    rw [hsession, ← saturate_add, ← h.sent]
    exact hsent
  have hreceived' : (a.step c).session.received = saturate 32 (a.fates.count .replied) := by
    rw [hsession, ← h.received]
    exact hreceived
  have hlost' : s.lost = saturate 32 (a.fates.countP ProbeState.isLost +
      [record.state].countP ProbeState.isLost) := by
    rw [hlost, h.lost, saturate_add]
  rcases s.push_cases record with ⟨hrows, hpush⟩ | ⟨oldest, rest, hrows, hrows', hpush⟩
  · rw [hrows, List.length_append, List.length_singleton, Nat.sub_self, List.take_zero] at hleaving
    rw [hleaving, hrows, List.map_nil, List.append_nil, ← List.append_assoc, ← hold] at hfates
    refine ⟨⟨hsettled, ?_, ?_, ?_⟩, ?_, ?_⟩
    · rw [hfates, List.length_append]
      exact hsent'
    · rw [hfates, List.count_append, hreplied]
      exact hreceived'
    · rw [hfates, List.countP_append, hsession]
      exact hpush.trans hlost'
    · rw [hfates]
      exact keeps_append_right _ _
    · rw [hfates, hc, List.length_append]
      rfl
  · have hone : s.states.length + 1 - (s.push record).states.length = 1 := by
      rw [hrows, hrows', List.length_append, List.length_cons, List.length_singleton]
      omega
    rw [hone, hrows, List.take_succ_cons, List.take_zero] at hleaving
    rw [hleaving, hrows', List.map_singleton] at hfates
    rw [hrows] at hold
    refine ⟨⟨hsettled, ?_, ?_, ?_⟩, ?_, ?_⟩
    · rw [hsent', hfates, hold]
      congr 1
      simp only [List.length_append, List.length_cons, List.length_nil]
      omega
    · have hsame : [oldest.settle].count .replied = [oldest].count .replied := by
        cases oldest <;> rfl
      rw [hreceived', hfates, hold]
      congr 1
      simp only [List.count_append, hreplied, Nat.add_zero, hsame, Nat.add_assoc]
      rw [← List.singleton_append, List.count_append]
    · rw [hsession, hpush, hlost', hfates, hold]
      simp only [List.countP_append, List.countP_cons, List.countP_nil]
      split
      · rename_i hpending
        rw [saturate_add, hpending]
        congr 1
        simp [ProbeState.isLost, ProbeState.settle]
        omega
      · rename_i hpending
        rw [settle_of_ne hpending]
        congr 1
        omega
    · rw [hfates, hold, List.append_assoc]
      apply Keeps.append rfl (Keeps.refl _)
      refine Keeps.trans ?_ (keeps_append_right (oldest.settle :: rest) [record.state])
      have hone : Keeps [oldest] [oldest.settle] :=
        keeps_map (fun st hst => settle_of_ne hst) [oldest]
      exact @Keeps.append [oldest] [oldest.settle] rfl hone rest rest (Keeps.refl rest)
    · rw [hfates, hold, hc]
      simp only [List.length_append, List.length_cons, List.length_nil, Option.toList_some]
      omega

theorem Balanced.sound_rows (h : Balanced a) {c : PingCall} (hc : c.starts? = none)
    (hlength : (a.session.call c).states.length = a.session.states.length)
    (hkeeps : Keeps a.session.states (a.session.call c).states)
    (hsent : (a.session.call c).sent = a.session.sent) (answered givenUp : Nat)
    (hanswered : (a.session.call c).states.count .replied =
      a.session.states.count .replied + answered)
    (hreceived : (a.session.call c).received = saturate 32 (a.session.received + answered))
    (hgivenUp : (a.session.call c).states.countP ProbeState.isLost =
      a.session.states.countP ProbeState.isLost + givenUp)
    (hlost : (a.session.call c).lost = saturate 32 (a.session.lost + givenUp)) : Sound a c := by
  have hleaving : a.leaving c = [] := by
    rw [leaving, hc, hlength]
    simp
  have hfates : (a.step c).fates = a.gone ++ (a.session.call c).states := by
    rw [fates, step, hleaving, List.map_nil, List.append_nil]
  have hsession : (a.step c).session = a.session.call c := rfl
  refine ⟨⟨?_, ?_, ?_, ?_⟩, ?_, ?_⟩
  · rw [step, hleaving, List.map_nil, List.append_nil]
    exact h.settled
  · rw [hsession, hsent, h.sent, hfates, fates, List.length_append, List.length_append, hlength]
  · rw [hsession, hreceived, h.received, saturate_add, hfates, fates, List.count_append,
      List.count_append, hanswered, Nat.add_assoc]
  · rw [hsession, hlost, h.lost, saturate_add, hfates, fates, List.countP_append,
      List.countP_append, hgivenUp, Nat.add_assoc]
  · rw [hfates, fates]
    exact Keeps.append rfl (Keeps.refl _) hkeeps
  · rw [hfates, fates, hc, List.length_append, List.length_append, hlength]
    rfl

theorem Balanced.sound_giveUp (h : Balanced a) {c : PingCall} (hc : c.starts? = none)
    {p : ProbeRecord → Bool} (hp : ∀ row, p row = true → row.isPending = true)
    (hrows : (a.session.call c).probes.toList = a.session.probes.toList.map fun row =>
      if p row then { row with state := .timedOut } else row)
    (hsent : (a.session.call c).sent = a.session.sent)
    (hreceived : (a.session.call c).received = a.session.received)
    (hlost : (a.session.call c).lost =
      saturate 32 (a.session.lost + a.session.probes.toList.countP p)) : Sound a c := by
  have hpoint : ∀ row, (if p row then { row with state := .timedOut } else row).state =
      row.state ∨ row.state = .pending ∧
        (if p row then { row with state := .timedOut } else row).state = .timedOut := by
    intro row
    cases hrow : p row with
    | true => exact Or.inr ⟨of_decide_eq_true (hp row hrow), rfl⟩
    | false => exact Or.inl rfl
  apply h.sound_rows hc ?_ ?_ hsent 0 (a.session.probes.toList.countP p) ?_ ?_ ?_ hlost
  · rw [PingSession.states, hrows, PingSession.states, List.length_map, List.length_map,
      List.length_map]
  · intro i st hst hne
    rw [PingSession.states, hrows, List.getElem?_map, List.getElem?_map]
    rw [PingSession.states, List.getElem?_map] at hst
    obtain ⟨row, hrow, rfl⟩ := Option.map_eq_some_iff.mp hst
    rw [hrow]
    rcases hpoint row with hsame | ⟨hpending, _⟩
    · exact congrArg some hsame
    · exact absurd hpending hne
  · rw [Nat.add_zero, PingSession.states, hrows, PingSession.states]
    induction a.session.probes.toList with
    | nil => rfl
    | cons row rows ih =>
      rw [List.map_cons, List.map_cons, List.map_cons, List.count_cons, List.count_cons, ih]
      congr 1
      rcases hpoint row with hsame | ⟨hpending, hgiven⟩
      · rw [hsame]
      · rw [hgiven, hpending]
        rfl
  · rw [hreceived, Nat.add_zero, h.received]
    unfold saturate
    omega
  · rw [PingSession.states, hrows]
    exact a.session.states_map hp

theorem Balanced.lost_add_zero (h : Balanced a) :
    a.session.lost = saturate 32 (a.session.lost + 0) := by
  rw [h.lost, saturate_add, Nat.add_zero]

theorem Balanced.received_add_zero (h : Balanced a) :
    a.session.received = saturate 32 (a.session.received + 0) := by
  rw [h.received, saturate_add, Nat.add_zero]

theorem Balanced.sound (h : Balanced a) (c : PingCall) : Sound a c := by
  cases c with
  | sent now =>
    refine h.sound_start ⟨_, _, 0, 0, 0, .pending⟩ rfl rfl rfl rfl rfl
      h.lost_add_zero ?_
    intro heq
    cases heq
  | noRoute now =>
    refine h.sound_start ⟨_, _, 0, 0, 0, .noRoute⟩ rfl rfl rfl rfl rfl rfl ?_
    intro heq
    cases heq
  | reply now peer seqno fwdHops revHops =>
    rcases a.session.recordReply_cases now peer seqno fwdHops revHops with
      hsame | ⟨before, after, hrows, hrows', hreceived, hsent, hlost⟩
    · have hcall : a.session.call (.reply now peer seqno fwdHops revHops) = a.session := hsame
      apply h.sound_rows rfl (by rw [hcall]) (by rw [hcall]; exact Keeps.refl _) (by rw [hcall]) 0 0
      · rw [hcall, Nat.add_zero]
      · rw [hcall]
        exact h.received_add_zero
      · rw [hcall, Nat.add_zero]
      · rw [hcall]
        exact h.lost_add_zero
    · refine h.sound_rows (c := .reply now peer seqno fwdHops revHops) rfl ?_ ?_ hsent 1 0 ?_
        hreceived ?_ (hlost.trans h.lost_add_zero)
      · rw [PingSession.call, hrows, hrows', List.length_append, List.length_append,
          List.length_cons, List.length_cons]
      · rw [PingSession.call, hrows, hrows']
        apply Keeps.append rfl (Keeps.refl _)
        intro i st hst hne
        cases i with
        | zero => exact absurd (Option.some.inj hst).symm hne
        | succ i => exact hst
      · rw [PingSession.call, hrows, hrows']
        simp only [List.count_append, List.count_cons]
        simp
        omega
      · rw [PingSession.call, hrows, hrows']
        simp [ProbeState.isLost]
  | expire now =>
    apply h.sound_giveUp rfl (p := a.session.overdue now) ?_ rfl rfl rfl rfl
    intro row hrow
    exact (Bool.and_eq_true_iff.mp hrow).1
  | cancel => exact h.sound_giveUp rfl (p := ProbeRecord.isPending) (fun _ h => h) rfl rfl rfl rfl

/-! ### Whole runs -/

theorem balanced_start (sessionSeq : Nat) (target : Mac) (config : PingConfig)
    (firstSeqno : Nat) (now : Duration) :
    Balanced (start (.new sessionSeq target config firstSeqno now)) where
  settled := by
    intro st hst
    cases hst
  sent := rfl
  received := rfl
  lost := rfl

theorem Balanced.run (h : Balanced a) (calls : List PingCall) :
    Balanced (Run.run step a calls) := by
  induction calls generalizing a with
  | nil => exact h
  | cons c calls ih => exact ih (h.sound c).balanced

theorem Balanced.keeps_run (h : Balanced a) (calls : List PingCall) :
    Keeps a.fates (Run.run step a calls).fates := by
  induction calls generalizing a with
  | nil => exact Keeps.refl _
  | cons c calls ih => exact (h.sound c).keeps.trans (ih (h.sound c).balanced)

theorem Balanced.length_run (h : Balanced a) (calls : List PingCall) :
    (Run.run step a calls).fates.length =
      a.fates.length + (calls.filterMap PingCall.starts?).length := by
  induction calls generalizing a with
  | nil => rfl
  | cons c calls ih =>
    refine (ih (h.sound c).balanced).trans ?_
    rw [(h.sound c).length]
    cases hc : c.starts? with
    | none =>
      rw [List.filterMap_cons_none hc]
      rfl
    | some now =>
      rw [List.filterMap_cons_some hc, List.length_cons, Option.toList_some,
        List.length_singleton]
      omega

theorem length_fates (fates : List ProbeState) :
    fates.length =
      fates.count .replied + fates.countP ProbeState.isLost + fates.count .pending := by
  induction fates with
  | nil => rfl
  | cons st fates ih =>
    rw [List.length_cons, List.count_cons, List.countP_cons, List.count_cons, ih]
    cases st <;> simp [ProbeState.isLost] <;> omega

theorem Balanced.count_pending (h : Balanced a) :
    a.fates.count .pending = a.session.pendingRows := by
  have hgone : a.gone.count .pending = 0 := by
    rw [List.count_eq_zero]
    intro hmem
    exact h.settled _ hmem rfl
  rw [fates, List.count_append, hgone, Nat.zero_add, PingSession.pendingRows_eq]

/-- As long as the counter reaches, sent is received, lost and pending. -/
theorem Balanced.sum (h : Balanced a) (hreach : a.fates.length < 2 ^ 32) :
    a.session.sent = a.session.received + a.session.lost + a.session.pendingRows := by
  have hsum := length_fates a.fates
  rw [h.sent, h.received, h.lost, ← h.count_pending, saturate_of_lt hreach,
    saturate_of_lt (by omega), saturate_of_lt (by omega)]
  exact hsum

end PingAudit

/-! ### The single calls -/

namespace PingSession

variable {s : PingSession}

/-- Requests fit their word, and no more probes were started than were asked for. -/
structure Within (s : PingSession) : Prop where
  requested : s.requested < 2 ^ 16
  emitted : s.emitted ≤ s.requested
  sent : s.sent ≤ s.emitted

theorem Within.advance (h : s.Within) {now : Duration} (hdue : s.due now = true) :
    (s.advance now).emitted ≤ (s.advance now).requested ∧
      (s.advance now).sent ≤ (s.advance now).emitted := by
  have hlt := lt_of_due hdue
  have hrequested := h.requested
  have hsent := h.sent
  change saturate 16 (s.emitted + 1) ≤ s.requested ∧
    saturate 32 (s.sent + 1) ≤ saturate 16 (s.emitted + 1)
  unfold saturate
  omega

theorem Within.call (h : s.Within) {c : PingCall} (hdue : s.WhileDue c) : (s.call c).Within := by
  cases c with
  | sent now => exact ⟨h.requested, (h.advance (hdue now rfl)).1, (h.advance (hdue now rfl)).2⟩
  | noRoute now => exact ⟨h.requested, (h.advance (hdue now rfl)).1, (h.advance (hdue now rfl)).2⟩
  | reply now peer seqno fwdHops revHops =>
    change (s.recordReply now peer seqno fwdHops revHops).1.Within
    unfold recordReply
    split
    · exact h
    · split
      · exact h
      · exact ⟨h.requested, h.emitted, h.sent⟩
  | expire now => exact ⟨h.requested, h.emitted, h.sent⟩
  | cancel => exact ⟨Nat.lt_of_le_of_lt h.emitted h.requested, Nat.le_refl _, h.sent⟩

theorem giveUp_twice {p : ProbeRecord → Bool} (hp : ∀ row, p row = true → row.isPending = true)
    (rows : List ProbeRecord) :
    (rows.map fun row => if p row then { row with state := .timedOut } else row).countP p = 0 ∧
      ((rows.map fun row => if p row then { row with state := .timedOut } else row).map fun row =>
        if p row then { row with state := .timedOut } else row) =
      rows.map fun row => if p row then { row with state := .timedOut } else row := by
  have hgiven : ∀ row, p (if p row then { row with state := .timedOut } else row) = false := by
    intro row
    cases hrow : p row with
    | false => exact hrow
    | true =>
      rw [if_pos rfl, Bool.eq_false_iff]
      intro hagain
      cases of_decide_eq_true (hp _ hagain)
  constructor
  · rw [List.countP_map, List.countP_eq_zero]
    intro row _
    rw [Function.comp, hgiven]
    decide
  · rw [List.map_map]
    apply List.map_congr_left
    intro row _
    rw [Function.comp, hgiven]
    rfl

theorem saturate_lost_of_zero {n : Nat} (hn : n = 0) (hlost : s.lost < 2 ^ 32) :
    saturate 32 (s.lost + n) = s.lost := by
  rw [hn, Nat.add_zero, saturate_of_lt hlost]

theorem saturate_lt (n : Nat) : saturate 32 n < 2 ^ 32 := by
  unfold saturate
  omega

theorem probes_ext {v w : Bounded ProbeRecord maxPingProbes} (h : v.toList = w.toList) : v = w := by
  obtain ⟨rows, _⟩ := v
  obtain ⟨rows', _⟩ := w
  obtain rfl : rows = rows' := h
  rfl

theorem expire_expire (s : PingSession) (now : Duration) :
    (s.expire now).expire now = s.expire now := by
  have hp : ∀ row, s.overdue now row = true → row.isPending = true :=
    fun row hrow => (Bool.and_eq_true_iff.mp hrow).1
  obtain ⟨hnone, hsame⟩ := giveUp_twice hp s.probes.toList
  have hlost : saturate 32 ((s.expire now).lost +
      (s.expire now).probes.toList.countP ((s.expire now).overdue now)) = (s.expire now).lost :=
    saturate_lost_of_zero hnone (saturate_lt _)
  have hprobes : ((s.expire now).probes.map fun row =>
      if (s.expire now).overdue now row then { row with state := .timedOut } else row) =
        (s.expire now).probes := probes_ext hsame
  rw [expire, hlost, hprobes]

theorem cancel_cancel (s : PingSession) : s.cancel.cancel = s.cancel := by
  obtain ⟨hnone, hsame⟩ := giveUp_twice (fun _ h => h) s.probes.toList
  have hlost : saturate 32 (s.cancel.lost + s.cancel.probes.toList.countP ProbeRecord.isPending) =
      s.cancel.lost := saturate_lost_of_zero hnone (saturate_lt _)
  have hprobes : (s.cancel.probes.map fun row =>
      if row.isPending then { row with state := .timedOut } else row) = s.cancel.probes :=
    probes_ext hsame
  rw [cancel, hlost, hprobes]
  rfl

/-- Nothing is left to send, and nothing is waited for. -/
structure Over (s : PingSession) : Prop where
  sent : ¬ s.emitted < s.requested
  resolved : ∀ st ∈ s.states, st ≠ .pending

theorem active_eq_false_iff : s.active = false ↔ s.Over := by
  unfold active
  rw [Bool.or_eq_false_iff, decide_eq_false_iff_not, List.any_eq_false]
  constructor
  · intro ⟨hsent, hresolved⟩
    refine ⟨hsent, ?_⟩
    intro st hst
    obtain ⟨row, hrow, rfl⟩ := List.mem_map.mp hst
    intro hpending
    exact hresolved row hrow (decide_eq_true hpending)
  · intro h
    refine ⟨h.sent, ?_⟩
    intro row hrow hpending
    exact h.resolved _ (List.mem_map_of_mem hrow) (of_decide_eq_true hpending)

theorem over_cancel (s : PingSession) : s.cancel.Over := by
  refine ⟨Nat.lt_irrefl _, ?_⟩
  intro st hst
  rw [states, cancel] at hst
  obtain ⟨row, hrow, rfl⟩ := List.mem_map.mp hst
  obtain ⟨old, _, rfl⟩ := List.mem_map.mp hrow
  cases hold : old.isPending with
  | true => exact fun h => by cases h
  | false => exact of_decide_eq_false hold

theorem due_eq_false_of_over (h : s.Over) (now : Duration) : s.due now = false := by
  rw [due, decide_eq_false_iff_not]
  intro hdue
  exact h.sent hdue.1

theorem Over.call (h : s.Over) {c : PingCall} (hdue : s.WhileDue c) : (s.call c).Over := by
  have hgiven : ∀ (p : ProbeRecord → Bool) (row : ProbeRecord), row.state ≠ .pending →
      (if p row then { row with state := .timedOut } else row).state ≠ .pending := by
    intro p row hrow
    split
    · intro heq
      cases heq
    · exact hrow
  cases c with
  | sent now =>
    have hnow := hdue now rfl
    rw [due_eq_false_of_over h] at hnow
    cases hnow
  | noRoute now =>
    have hnow := hdue now rfl
    rw [due_eq_false_of_over h] at hnow
    cases hnow
  | reply now peer seqno fwdHops revHops =>
    rcases s.recordReply_cases now peer seqno fwdHops revHops with hsame | ⟨before, after, hrows, _⟩
    · rw [PingSession.call, hsame]
      exact h
    · refine absurd rfl (h.resolved .pending ?_)
      rw [hrows]
      exact List.mem_append_right _ (List.mem_cons_self ..)
  | expire now =>
    refine ⟨h.sent, ?_⟩
    intro st hst
    obtain ⟨row, hrow, rfl⟩ := List.mem_map.mp hst
    obtain ⟨old, hold, rfl⟩ := List.mem_map.mp hrow
    exact hgiven _ old (h.resolved _ (List.mem_map_of_mem hold))
  | cancel => exact s.over_cancel

/-- The first of the timeouts is no longer than any, and the longest only without one. -/
theorem foldl_soonest_eq_max_iff {remaining : ProbeRecord → Duration}
    (hshort : ∀ p, remaining p < Duration.max) (rows : List ProbeRecord) {soonest : Duration}
    (hle : soonest ≤ Duration.max) :
    rows.foldl (fun soonest p => if p.isPending then min soonest (remaining p) else soonest)
        soonest = Duration.max ↔
      soonest = Duration.max ∧ ∀ p ∈ rows, p.isPending = false := by
  induction rows generalizing soonest with
  | nil => simp
  | cons p rows ih =>
    rw [List.foldl_cons, List.forall_mem_cons]
    cases hp : p.isPending with
    | false =>
      rw [if_neg Bool.false_ne_true, ih hle]
      simp
    | true =>
      have hlt : min soonest (remaining p) < Duration.max :=
        Nat.lt_of_le_of_lt (Nat.min_le_right _ _) (hshort p)
      rw [if_pos rfl, ih (Nat.le_of_lt hlt)]
      constructor
      · intro h
        exact absurd h.1 (Nat.ne_of_lt hlt)
      · intro h
        cases h.2.1

/-- A driver is told to come back exactly while the session is active, unless the next probe
is the longest duration there is away. -/
theorem nextDueAfter_eq_none_iff {now : Duration} (hnear : s.nextDue - now < Duration.max) :
    s.nextDueAfter now = none ↔ s.active = false := by
  have hshort : ∀ p : ProbeRecord, Duration.ofMicros
      (s.timeout.asMicros % 2 ^ 32 - wrappingSub (us now) p.sentAtUs) < Duration.max := by
    intro p
    have hlt : s.timeout.asMicros % 2 ^ 32 < 2 ^ 32 := Nat.mod_lt _ (Nat.two_pow_pos 32)
    have hle : (s.timeout.asMicros % 2 ^ 32 - wrappingSub (us now) p.sentAtUs) * 1000 ≤
        (2 ^ 32 - 1) * 1000 := Nat.mul_le_mul_right _ (by omega)
    exact Nat.lt_of_le_of_lt hle (by decide)
  have hle : (if s.emitted < s.requested then s.nextDue - now else Duration.max) ≤
      Duration.max := by
    split
    · exact Nat.le_of_lt hnear
    · exact Nat.le_refl _
  have hinit : (if s.emitted < s.requested then s.nextDue - now else Duration.max) =
      Duration.max ↔ ¬ s.emitted < s.requested := by
    split
    · rename_i hlt
      exact iff_of_false (Nat.ne_of_lt hnear) (not_not.mpr hlt)
    · rename_i hlt
      exact iff_of_true rfl hlt
  unfold nextDueAfter active
  dsimp only
  rw [ite_eq_right_iff, Bool.or_eq_false_iff, decide_eq_false_iff_not, List.any_eq_false]
  simp only [reduceCtorEq, imp_false, not_not, Bool.not_eq_true]
  exact (foldl_soonest_eq_max_iff hshort _ hle).trans (and_congr_left' hinit)

end PingSession

/-! ### Every probe accounted for -/

namespace PingAudit

/-- Every probe of a session has one fate, resolved at most once. As long as fewer than
`2 ^ 32` have been started the counters are exact; no more are sent than were asked for, and
a cancelled session stays inactive, as long as probes are started only while due. -/
theorem probes_accounted (sessionSeq : Nat) (target : Mac) (config : PingConfig)
    (firstSeqno : Nat) (now : Duration) (hcount : config.count < 2 ^ 16)
    (calls : List PingCall) :
    let fresh := start (.new sessionSeq target config firstSeqno now)
    let a := run step fresh calls
    (a.fates.length = (calls.filterMap PingCall.starts?).length ∧
      ∀ later, Keeps a.fates (run step a later).fates) ∧
    (a.fates.length < 2 ^ 32 →
      a.session.sent = a.fates.length ∧
      a.session.received = a.fates.count .replied ∧
      a.session.lost = a.fates.countP ProbeState.isLost ∧
      a.session.sent = a.session.received + a.session.lost + a.session.pendingRows) ∧
    (AllSafe PingSession.call PingSession.WhileDue fresh.session calls →
      a.session.sent ≤ a.session.requested) ∧
    (∀ t, (a.session.expire t).expire t = a.session.expire t) ∧
    a.session.cancel.cancel = a.session.cancel ∧
    (∀ later, AllSafe PingSession.call PingSession.WhileDue a.session.cancel later →
      (run PingSession.call a.session.cancel later).active = false) ∧
    ∀ t, a.session.nextDue - t < Duration.max →
      (a.session.nextDueAfter t = none ↔ a.session.active = false) := by
  intro fresh a
  have hfresh : Balanced fresh := balanced_start sessionSeq target config firstSeqno now
  have hbalanced : Balanced a := hfresh.run calls
  have hsession : ∀ (b : PingAudit) (cs : List PingCall),
      (run step b cs).session = run PingSession.call b.session cs := by
    intro b cs
    induction cs generalizing b with
    | nil => rfl
    | cons c cs ih => exact ih (b.step c)
  refine ⟨⟨?_, ?_⟩, ?_, ?_, ?_, ?_, ?_, ?_⟩
  · have hlength := hfresh.length_run calls
    rw [show fresh.fates.length = 0 from rfl, Nat.zero_add] at hlength
    exact hlength
  · intro later
    exact hbalanced.keeps_run later
  · intro hreach
    have hsum := length_fates a.fates
    refine ⟨?_, ?_, ?_, hbalanced.sum hreach⟩
    · rw [hbalanced.sent, saturate_of_lt hreach]
    · rw [hbalanced.received, saturate_of_lt (by omega)]
    · rw [hbalanced.lost, saturate_of_lt (by omega)]
  · intro hdue
    have hinit : fresh.session.Within := ⟨hcount, Nat.zero_le _, Nat.zero_le _⟩
    have hwithin : a.session.Within := by
      rw [hsession fresh calls]
      exact allGood_of_allSafe hinit (fun _ _ h hsafe => h.call hsafe) hdue calls
        (List.prefix_refl calls)
    exact hwithin.sent.trans hwithin.emitted
  · exact a.session.expire_expire
  · exact a.session.cancel_cancel
  · intro later hdue
    have hover : (run PingSession.call a.session.cancel later).Over :=
      allGood_of_allSafe a.session.over_cancel (fun _ _ h hsafe => h.call hsafe) hdue later
        (List.prefix_refl later)
    exact PingSession.active_eq_false_iff.mpr hover
  · intro t hnear
    exact PingSession.nextDueAfter_eq_none_iff hnear

/-! ### Where the counters end -/

theorem run_noRoutes (config : PingConfig) (n : Nat) :
    let s := run PingSession.call (.new 1 (Mac.low 9) config 0 0)
      (List.replicate n (.noRoute 0))
    s.sent = saturate 32 n ∧ s.lost = saturate 32 n ∧ s.received = 0 ∧
      ∀ st ∈ s.states, st = .noRoute := by
  intro s
  induction n with
  | zero =>
    refine ⟨rfl, rfl, rfl, ?_⟩
    intro st hst
    cases hst
  | succ n ih =>
    obtain ⟨hsent, hlost, hreceived, hstates⟩ := ih
    have hs : s = (run PingSession.call (.new 1 (Mac.low 9) config 0 0)
        (List.replicate n (.noRoute 0))).recordNoRoute 0 := by
      change run _ _ _ = _
      rw [List.replicate_succ', run_append_singleton]
      rfl
    generalize run PingSession.call (.new 1 (Mac.low 9) config 0 0)
      (List.replicate n (.noRoute 0)) = before at hsent hlost hreceived hstates hs
    have hadvanced : saturate 32 (before.lost + 1) = saturate 32 (n + 1) := by
      rw [hlost, saturate_add]
    rw [hs]
    refine ⟨?_, ?_, hreceived, ?_⟩
    · change saturate 32 (before.sent + 1) = _
      rw [hsent, saturate_add]
    all_goals
      rcases PingSession.push_cases { before.advance 0 with lost := saturate 32 (before.lost + 1) }
        ⟨before.nextSeqno, us 0, 0, 0, 0, .noRoute⟩ with
        ⟨hrows, hpush⟩ | ⟨oldest, rest, hrows, hrows', hpush⟩
    · exact hpush.trans hadvanced
    · have holdest : oldest = .noRoute := hstates oldest (by
        rw [show before.states = oldest :: rest from hrows]
        exact List.mem_cons_self ..)
      rw [holdest, if_neg (by decide)] at hpush
      exact hpush.trans hadvanced
    · intro st hst
      rw [PingSession.recordNoRoute, hrows] at hst
      rcases List.mem_append.mp hst with hst | hst
      · exact hstates st hst
      · exact List.mem_singleton.mp hst
    · intro st hst
      rw [PingSession.recordNoRoute, hrows'] at hst
      rcases List.mem_append.mp hst with hst | hst
      · apply hstates st
        rw [show before.states = oldest :: rest from hrows]
        exact List.mem_cons_of_mem _ hst
      · exact List.mem_singleton.mp hst

end PingAudit

namespace SmallMesh

open PingAudit

def threePings : PingConfig := ⟨3, Duration.ofSecs 1, Duration.ofSecs 5, 16⟩

/-- A probe answered twice, one without a route, one that times out, and a late cancel. -/
def allFates : List PingCall :=
  [.sent 0, .reply (Duration.ofMillis 20) (Mac.low 9) 0 1 1,
    .reply (Duration.ofMillis 30) (Mac.low 9) 0 1 1, .noRoute (Duration.ofSecs 1),
    .sent (Duration.ofSecs 2), .expire (Duration.ofSecs 7), .expire (Duration.ofSecs 8), .cancel]

theorem probes_accounted_allFates :
    (run step (start (.new 1 (Mac.low 9) threePings 0 0)) allFates).session.sent =
      (run step (start (.new 1 (Mac.low 9) threePings 0 0)) allFates).session.received +
      (run step (start (.new 1 (Mac.low 9) threePings 0 0)) allFates).session.lost +
      (run step (start (.new 1 (Mac.low 9) threePings 0 0)) allFates).session.pendingRows :=
  ((probes_accounted 1 (Mac.low 9) threePings 0 0 (by decide) allFates).2.1
    (by decide +kernel)).2.2.2

/-- So many probes without a route, and one more that goes out. -/
def pastTheCounter (n : Nat) : List PingCall := List.replicate n (.noRoute 0) ++ [.sent 0]

/-- The counters stop at their last value, and the pending row is one too many. -/
theorem pastTheCounter_drifts {n : Nat} (hn : 2 ^ 32 ≤ n + 1) :
    (run PingSession.call (.new 1 (Mac.low 9) threePings 0 0) (pastTheCounter n)).sent ≠
      (run PingSession.call (.new 1 (Mac.low 9) threePings 0 0) (pastTheCounter n)).received +
      (run PingSession.call (.new 1 (Mac.low 9) threePings 0 0) (pastTheCounter n)).lost +
      (run PingSession.call (.new 1 (Mac.low 9) threePings 0 0) (pastTheCounter n)).pendingRows := by
  obtain ⟨hsent, hlost, hreceived, hstates⟩ := run_noRoutes threePings n
  rw [pastTheCounter, run_append_singleton]
  generalize run PingSession.call (.new 1 (Mac.low 9) threePings 0 0)
    (List.replicate n (.noRoute 0)) = before at hsent hlost hreceived hstates
  have hwaiting : 1 ≤ (before.recordSent 0).1.pendingRows ∧
      (before.recordSent 0).1.lost = before.lost := by
    rw [PingSession.pendingRows_eq]
    rcases (before.advance 0).push_cases ⟨before.nextSeqno, us 0, 0, 0, 0, .pending⟩ with
      ⟨hrows, hpush⟩ | ⟨oldest, rest, hrows, hrows', hpush⟩
    · refine ⟨?_, hpush⟩
      rw [PingSession.recordSent, hrows, List.count_append]
      exact Nat.le_add_left _ _
    · have holdest : oldest = .noRoute := hstates oldest (by
        rw [show before.states = oldest :: rest from hrows]
        exact List.mem_cons_self ..)
      rw [holdest, if_neg (by decide)] at hpush
      refine ⟨?_, hpush⟩
      rw [PingSession.recordSent, hrows', List.count_append]
      exact Nat.le_add_left _ _
  have hlast : 2 ^ 32 ≤ before.lost + 1 := by
    rw [hlost, saturate]
    omega
  have hfull : (before.recordSent 0).1.sent < 2 ^ 32 := PingSession.saturate_lt _
  change (before.recordSent 0).1.sent ≠ (before.recordSent 0).1.received +
    (before.recordSent 0).1.lost + (before.recordSent 0).1.pendingRows
  omega

/-- Past `2 ^ 32` probes the counters no longer add up; a cancelled session that is told of
a probe it did not ask for is active again; and a session that starts the longest duration
from now has nothing to wait for, though it is active. -/
theorem probes_unaccounted :
    (run PingSession.call (.new 1 (Mac.low 9) threePings 0 0)
        (pastTheCounter 4294967295)).sent ≠
      (run PingSession.call (.new 1 (Mac.low 9) threePings 0 0)
        (pastTheCounter 4294967295)).received +
      (run PingSession.call (.new 1 (Mac.low 9) threePings 0 0)
        (pastTheCounter 4294967295)).lost +
      (run PingSession.call (.new 1 (Mac.low 9) threePings 0 0)
        (pastTheCounter 4294967295)).pendingRows ∧
    (run PingSession.call (.new 1 (Mac.low 9) threePings 0 0) [.cancel, .sent 0]).active = true ∧
    ((PingSession.new 1 (Mac.low 9) threePings 0 Duration.max).nextDueAfter 0 = none ∧
      (PingSession.new 1 (Mac.low 9) threePings 0 Duration.max).active = true) :=
  ⟨pastTheCounter_drifts (Nat.le_refl _), by decide +kernel, by decide +kernel,
    by decide +kernel⟩

end SmallMesh

end Wayfinder
