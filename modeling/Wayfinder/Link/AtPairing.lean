import Wayfinder.Lib.Run
import Wayfinder.Link.AtLine

/-!
# Commands and their answers

The module answers the commands in order, and puts lines for received packets between its
answers. As long as every such line can be read, each command gets its own answer and each
packet is handed on once, in the order of arrival, unless too many are waiting.
-/

namespace Wayfinder.Rylr

set_option autoImplicit false

/-! ### What is on the line -/

/-- Lines that answer no command: of a packet, or anything else behind the same tag. -/
inductive Unsolicited
  | heard (u : Heard)
  | malformed (line : Bytes)

def Unsolicited.wire : Unsolicited → Bytes
  | heard u => u.line ++ lineEnd
  | malformed line => line ++ lineEnd

def Unsolicited.heard? : Unsolicited → Option Heard
  | heard u => some u
  | malformed _ => none

/-! ### Commands and what answers them -/

/-- Data too long for the module are refused before anything is sent. -/
def Command.tooLarge : Command → Bool
  | .sendData _ data => decide (maxDataLen < utf8Len data)
  | _ => false

def Command.expects : Command → List (List Char)
  | .reset => ["+RESET".toList, "+READY".toList]
  | .setBaudRate baudRate => ["+IPR=".toList ++ decimal baudRate.toNat]
  | .queryModuleId => [uidTag]
  | _ => [okTag]

def Command.reply : Command → List Char → Except LoraError Reply
  | .queryModuleId, line => uidOf line
  | _, _ => .ok .done

/-- The result of a command, from its own answers. -/
def Command.verdict (cmd : Command) (answers : List Bytes) : Except LoraError Reply :=
  if cmd.tooLarge then .error .requestTooLarge
  else if (cmd.expects.zip answers).all fun p => p.1.isPrefixOf (trim (textOf p.2)) then
    cmd.reply (textOf (answers.headD []))
  else .error (.moduleError 0)

/-- The answers to a command, each with the lines that come before it: as many as are
expected, or up to the first error. -/
def Answers : List (List Char) → List (List Unsolicited × Bytes) → Prop
  | [], answers => answers = []
  | _ :: _, [] => False
  | expected :: more, (_, line) :: answers =>
    IsAnswer expected line ∧
      if expected.isPrefixOf (trim (textOf line)) then Answers more answers else answers = []

/-- A command with what the module puts on the line until it has answered, or a listener
with what arrives meanwhile. -/
inductive Op
  | command (cmd : Command) (answers : List (List Unsolicited × Bytes))
  | listen (arrivals : List Unsolicited)

def Op.unsolicited : Op → List Unsolicited
  | command _ answers => answers.flatMap Prod.fst
  | listen arrivals => arrivals

def Op.wire : Op → Bytes
  | command _ answers => answers.flatMap fun a => a.1.flatMap Unsolicited.wire ++ (a.2 ++ lineEnd)
  | listen arrivals => arrivals.flatMap Unsolicited.wire

/-- The module answers what it was asked, and only then. -/
def Op.Conforms : Op → Prop
  | command cmd answers => if cmd.tooLarge then answers = [] else Answers cmd.expects answers
  | listen _ => True

inductive Outcome
  | reply (r : Poll Reply)
  | packet (r : Poll ReceivedPacket)
  deriving DecidableEq

/-- A client, and what its calls have given. -/
structure Session where
  client : RylrClient
  outcomes : List Outcome

def Session.step (t : Target) (s : Session) (op : Op) : Session :=
  let c := { s.client with stream := s.client.stream ++ op.wire }
  match op with
  | .command cmd _ =>
    let r := perform t cmd c
    ⟨r.2, s.outcomes ++ [.reply r.1]⟩
  | .listen _ =>
    let r := listenForPacket t c
    ⟨r.2, s.outcomes ++ [.packet r.1]⟩

def session (t : Target) (ops : List Op) : Session :=
  Run.run (Session.step t) ⟨.new, []⟩ ops

def returned (outcomes : List Outcome) : List ReceivedPacket :=
  outcomes.filterMap fun
    | .packet (some (.ok p)) => some p
    | _ => none

def heardIn (ops : List Op) : List Heard := (ops.flatMap Op.unsolicited).filterMap Unsolicited.heard?

/-- While a command waited for its answers, no more packets were waiting than the queue
holds. -/
def NeverCrowded (t : Target) (ops : List Op) : Prop :=
  ∀ pre cmd answers, pre ++ [Op.command cmd answers] <+: ops →
    (heardIn (pre ++ [Op.command cmd answers])).length ≤
      (returned (session t pre).outcomes).length + rxQueueDepth

/-- The outcome of a command is decided by its own answers. -/
def Decided : Op → Outcome → Prop
  | .command cmd answers, outcome => outcome = .reply (some (cmd.verdict (answers.map Prod.snd)))
  | .listen _, outcome => ∃ r, outcome = .packet r

/-- Commands and answers are paired, and packets are handed on in the order of arrival: those
given to listeners, those in the queue and those on the line are among the ones heard, and
all of them unless too many were waiting. -/
structure Paired (t : Target) (ops : List Op) : Prop where
  commands : List.Forall₂ Decided ops (session t ops).outcomes
  packets : ∃ given queued serial : List Heard,
    (given ++ queued ++ serial).Sublist (heardIn ops) ∧
      (NeverCrowded t ops → given ++ queued ++ serial = heardIn ops) ∧
      List.Forall₂ Heard.Shows given (returned (session t ops).outcomes) ∧
      List.Forall₂ Heard.Shows queued (session t ops).client.rxQueue.toList ∧
      (session t ops).client.stream = wires serial

def Unsolicited.Plain : Unsolicited → Prop
  | heard u => u.Readable
  | malformed _ => False

def Op.Plain (op : Op) : Prop := ∀ x ∈ op.unsolicited, x.Plain

/-! ### One command -/

theorem exists_heard (xs : List Unsolicited) (h : ∀ x ∈ xs, x.Plain) :
    ∃ us : List Heard, (∀ u ∈ us, u.Readable) ∧ xs.flatMap Unsolicited.wire = wires us ∧
      xs.filterMap Unsolicited.heard? = us := by
  induction xs with
  | nil => exact ⟨[], by simp, rfl, rfl⟩
  | cons x xs ih =>
    obtain ⟨hx, hxs⟩ := List.forall_mem_cons.mp h
    obtain ⟨us, hus, hwire, hheard⟩ := ih hxs
    cases x with
    | malformed line => exact absurd hx id
    | heard u =>
      refine ⟨u :: us, List.forall_mem_cons.mpr ⟨hx, hus⟩, ?_, ?_⟩
      · rw [List.flatMap_cons, hwire]
        rfl
      · rw [List.filterMap_cons, hheard]
        rfl

theorem isTag_expects {cmd : Command} {expected : List Char} (h : expected ∈ cmd.expects) :
    IsTag expected := by
  cases cmd with
  | reset =>
    simp only [Command.expects, List.mem_cons, List.not_mem_nil, or_false] at h
    rcases h with rfl | rfl
    · exact ⟨by decide, by decide⟩
    · exact ⟨by decide, by decide⟩
  | setBaudRate baudRate =>
    obtain rfl := List.mem_singleton.mp h
    constructor
    · rw [List.length_append]
      exact Nat.le_add_right_of_le (by decide)
    · rw [List.take_append_of_le_length (by decide)]
      decide
  | _ =>
    obtain rfl := List.mem_singleton.mp h
    exact ⟨by decide, by decide⟩

theorem ignoreLine_some (r : Except LoraError Line) (c : RylrClient) :
    ignoreLine (some r, c) = (some ((r.map FixedText.text).bind fun _ => .ok .done), c) := by
  cases r with
  | error e => rfl
  | ok line => rfl

/-- All commands but a reset await one line. -/
theorem perform_single (t : Target) {cmd : Command} (hreset : cmd ≠ .reset)
    (hsmall : cmd.tooLarge = false) :
    ∃ expected sent, cmd.expects = [expected] ∧ ∀ c r c',
      expect t expected (sendRaw sent c) = (some r, c') →
        ∃ c'', perform t cmd c =
            (some ((r.map FixedText.text).bind fun line => cmd.reply line), c'') ∧
          c''.stream = c'.stream ∧ c''.rxQueue = c'.rxQueue := by
  have hignore : ∀ (p : Poll Line × RylrClient) r c', p = (some r, c') →
      ∃ c'', ignoreLine p =
          (some ((r.map FixedText.text).bind fun _ => .ok .done), c'') ∧
        c''.stream = c'.stream ∧ c''.rxQueue = c'.rxQueue := by
    rintro p r c' rfl
    exact ⟨c', ignoreLine_some r c', rfl, rfl⟩
  cases cmd with
  | reset => exact absurd rfl hreset
  | sendData targetAddress data =>
    refine ⟨okTag, "AT+SEND=".toList ++ [','].intercalate
      [decimal targetAddress.toNat, decimal (utf8Len data), data], rfl, ?_⟩
    intro c r c' hr
    have hle : ¬ maxDataLen < utf8Len data := of_decide_eq_false hsmall
    show ∃ c'', sendData t targetAddress data c = _ ∧ _
    unfold sendData
    rw [if_neg hle]
    exact hignore _ r c' hr
  | setNetworkId networkId =>
    refine ⟨okTag, "AT+NETWORKID=".toList ++ decimal networkId.toNat, rfl, ?_⟩
    intro c r c' hr
    show ∃ c'', withLine (expect t okTag (sendRaw _ c)) _ = _ ∧ _
    rw [hr]
    cases r with
    | error e => exact ⟨c', rfl, rfl, rfl⟩
    | ok line => exact ⟨{ c' with networkId := networkId }, rfl, rfl, rfl⟩
  | queryModuleId =>
    refine ⟨uidTag, "AT+UID?".toList, rfl, ?_⟩
    intro c r c' hr
    show ∃ c'', withLine (expect t uidTag (sendRaw _ c)) _ = _ ∧ _
    rw [hr]
    cases r with
    | error e => exact ⟨c', rfl, rfl, rfl⟩
    | ok line => exact ⟨c', rfl, rfl, rfl⟩
  | ping => exact ⟨okTag, _, rfl, fun c r c' hr => hignore _ r c' hr⟩
  | setMode mode => exact ⟨okTag, _, rfl, fun c r c' hr => hignore _ r c' hr⟩
  | setBaudRate baudRate => exact ⟨_, _, rfl, fun c r c' hr => hignore _ r c' hr⟩
  | setRfFrequency frequency remember => exact ⟨okTag, _, rfl, fun c r c' hr => hignore _ r c' hr⟩
  | setParameters sf bw cr preamble => exact ⟨okTag, _, rfl, fun c r c' hr => hignore _ r c' hr⟩
  | setAddress address => exact ⟨okTag, _, rfl, fun c r c' hr => hignore _ r c' hr⟩
  | setRfOutputPower dbm => exact ⟨okTag, _, rfl, fun c r c' hr => hignore _ r c' hr⟩

theorem wires_append (us us' : List Heard) : wires (us ++ us') = wires us ++ wires us' :=
  List.flatMap_append

theorem absorb_append (q : Bounded ReceivedPacket rxQueueDepth) (us us' : List Heard) :
    absorb q (us ++ us') = absorb (absorb q us) us' := List.foldl_append

theorem verdict_single {cmd : Command} {expected : List Char} (hexpects : cmd.expects = [expected])
    (hsmall : cmd.tooLarge = false) (line : Bytes) :
    cmd.verdict [line] = (judge expected line).bind fun text => cmd.reply text := by
  have hlarge : ¬ cmd.tooLarge = true := by
    rw [hsmall]
    exact Bool.false_ne_true
  unfold Command.verdict judge
  rw [hexpects, if_neg hlarge]
  simp only [List.zip_cons_cons, List.zip_nil_left, List.all_cons, List.all_nil, Bool.and_true,
    List.headD_cons]
  split
  · rfl
  · rfl

/-- What a command leaves: the packets on the line are in the queue, or nothing was read. -/
def Leaves (c : RylrClient) (serial us : List Heard) (c' : RylrClient) : Prop :=
  (c'.stream = [] ∧ c'.rxQueue = absorb c.rxQueue (serial ++ us)) ∨
    (us = [] ∧ c'.stream = c.stream ∧ c'.rxQueue = c.rxQueue)

section Perform
variable {t : Target} {c : RylrClient} {serial : List Heard}

theorem verdict_reset_refused {line : Bytes}
    (hbad : ¬ "+RESET".toList.isPrefixOf (trim (textOf line)) = true) :
    Command.reset.verdict [line] = .error (.moduleError 0) := by
  unfold Command.verdict
  rw [if_neg (show ¬ Command.reset.tooLarge = true from Bool.false_ne_true)]
  simp only [Command.expects, List.zip_cons_cons, List.zip_nil_right, List.all_cons,
    List.all_nil, Bool.and_true]
  exact if_neg hbad

theorem verdict_reset_taken {line : Bytes}
    (hok : "+RESET".toList.isPrefixOf (trim (textOf line)) = true) (line' : Bytes) :
    Command.reset.verdict [line, line'] =
      (judge "+READY".toList line').bind fun _ => .ok .done := by
  unfold judge Command.verdict
  rw [if_neg (show ¬ Command.reset.tooLarge = true from Bool.false_ne_true)]
  simp only [Command.expects, List.zip_cons_cons, List.zip_nil_left, List.all_cons,
    List.all_nil, hok, Bool.true_and, Bool.and_true]
  split
  · rfl
  · rfl

section Reset
variable {us us' : List Heard} {line line' : Bytes}

theorem reset_first (hus : ∀ u ∈ us, u.Readable) (hanswer : IsAnswer "+RESET".toList line)
    (rest : Bytes) :
    ∃ r, reset t { c with stream := wires us ++ (line ++ lineEnd ++ rest) } =
        withLine (some r, { sendRaw "AT+RESET".toList c with
          stream := rest, rxQueue := absorb c.rxQueue us }) (fun _ c =>
            ignoreLine (expect t "+READY".toList c)) ∧
      r.map FixedText.text = judge "+RESET".toList line := by
  obtain ⟨r, hr, hjudge⟩ := expect_answered t "+RESET".toList ⟨by decide, by decide⟩ hanswer hus
    (sendRaw "AT+RESET".toList c) rest
  refine ⟨r, ?_, hjudge⟩
  unfold reset sendCmdExpect
  exact congrArg (fun p => withLine p fun _ c => ignoreLine (expect t "+READY".toList c)) hr

theorem reset_refused (hus : ∀ u ∈ us, u.Readable) (hanswer : IsAnswer "+RESET".toList line)
    (hbad : ¬ "+RESET".toList.isPrefixOf (trim (textOf line)) = true) :
    ∃ c', reset t { c with stream := wires us ++ (line ++ lineEnd ++ []) } =
        (some (Command.reset.verdict [line]), c') ∧
      c'.stream = [] ∧ c'.rxQueue = absorb c.rxQueue us := by
  obtain ⟨r, hfirst, hjudge⟩ := reset_first (t := t) (c := c) hus hanswer []
  have herror : r = .error (.moduleError 0) := by
    unfold judge at hjudge
    rw [if_neg hbad] at hjudge
    cases r with
    | error e => rw [Except.error.inj hjudge]
    | ok first => cases hjudge
  subst herror
  rw [hfirst, verdict_reset_refused hbad]
  exact ⟨_, rfl, rfl, rfl⟩

theorem reset_taken (hus : ∀ u ∈ us, u.Readable) (hanswer : IsAnswer "+RESET".toList line)
    (hok : "+RESET".toList.isPrefixOf (trim (textOf line)) = true)
    (hus' : ∀ u ∈ us', u.Readable) (hanswer' : IsAnswer "+READY".toList line') :
    ∃ c', reset t { c with
          stream := wires us ++ (line ++ lineEnd ++ (wires us' ++ (line' ++ lineEnd ++ []))) } =
        (some (Command.reset.verdict [line, line']), c') ∧
      c'.stream = [] ∧ c'.rxQueue = absorb c.rxQueue (us ++ us') := by
  obtain ⟨r, hfirst, hjudge⟩ := reset_first (t := t) (c := c) hus hanswer
    (wires us' ++ (line' ++ lineEnd ++ []))
  have htaken : ∃ first, r = .ok first := by
    unfold judge at hjudge
    rw [if_pos hok] at hjudge
    cases r with
    | error e => cases hjudge
    | ok first => exact ⟨first, rfl⟩
  obtain ⟨first, rfl⟩ := htaken
  obtain ⟨r', hr', hjudge'⟩ := expect_answered t "+READY".toList ⟨by decide, by decide⟩ hanswer'
    hus' { sendRaw "AT+RESET".toList c with rxQueue := absorb c.rxQueue us } []
  refine ⟨{ sendRaw "AT+RESET".toList c with
    stream := [], rxQueue := absorb (absorb c.rxQueue us) us' }, ?_, rfl, ?_⟩
  · rw [hfirst, verdict_reset_taken hok, ← hjudge', ← ignoreLine_some]
    exact congrArg ignoreLine hr'
  · rw [absorb_append]

end Reset

/-- A reset awaits two lines, the second only behind the first. -/
theorem reset_answered (hserial : ∀ u ∈ serial, u.Readable) (hstream : c.stream = wires serial)
    {answers : List (List Unsolicited × Bytes)}
    (hplain : ∀ x ∈ answers.flatMap Prod.fst, x.Plain)
    (h : Answers ["+RESET".toList, "+READY".toList] answers) :
    ∃ us : List Heard, (∀ u ∈ us, u.Readable) ∧
      (answers.flatMap Prod.fst).filterMap Unsolicited.heard? = us ∧
      ∃ c', reset t { c with stream := c.stream ++ (Op.command .reset answers).wire } =
          (some (Command.reset.verdict (answers.map Prod.snd)), c') ∧
        Leaves c serial us c' := by
  cases answers with
  | nil => exact absurd h id
  | cons first answers =>
    obtain ⟨before, line⟩ := first
    obtain ⟨hanswer, hmore⟩ := h
    rw [List.flatMap_cons, List.forall_mem_append] at hplain
    obtain ⟨us, hus, hwire, hheard⟩ := exists_heard _ hplain.1
    have hall : ∀ u ∈ serial ++ us, u.Readable := List.forall_mem_append.mpr ⟨hserial, hus⟩
    have hwires : c.stream ++ (Op.command .reset ((before, line) :: answers)).wire =
        wires (serial ++ us) ++ (line ++ lineEnd ++ (Op.command .reset answers).wire) := by
      show c.stream ++ ((before.flatMap Unsolicited.wire ++ (line ++ lineEnd)) ++
        (Op.command .reset answers).wire) = _
      rw [hstream, hwire, wires_append]
      simp only [List.append_assoc]
    rw [hwires]
    by_cases hok : "+RESET".toList.isPrefixOf (trim (textOf line)) = true
    · rw [if_pos hok] at hmore
      cases answers with
      | nil => exact absurd hmore id
      | cons second answers =>
        obtain ⟨before', line'⟩ := second
        obtain ⟨hanswer', hrest⟩ := hmore
        have hnil : answers = [] := by
          split at hrest
          · exact hrest
          · exact hrest
        subst hnil
        obtain ⟨us', hus', hwire', hheard'⟩ := exists_heard before' (by simpa using hplain.2)
        have hwires' : (Op.command .reset [(before', line')]).wire =
            wires us' ++ (line' ++ lineEnd ++ []) := by
          show (before'.flatMap Unsolicited.wire ++ (line' ++ lineEnd)) ++ [] = _
          rw [hwire']
          simp only [List.append_nil]
        obtain ⟨c', hreset, hleft, hqueue⟩ := reset_taken (t := t) (c := c) hall hanswer hok hus'
          hanswer'
        refine ⟨us ++ us', List.forall_mem_append.mpr ⟨hus, hus'⟩, ?_, c', ?_, Or.inl ⟨hleft, ?_⟩⟩
        · simp [hheard, hheard']
        · rw [hwires']
          exact hreset
        · rw [hqueue, List.append_assoc]
    · rw [if_neg hok] at hmore
      subst hmore
      obtain ⟨c', hreset, hleft, hqueue⟩ := reset_refused (t := t) (c := c) hall hanswer hok
      refine ⟨us, hus, ?_, c', hreset, Or.inl ⟨hleft, hqueue⟩⟩
      simp [hheard]

theorem perform_answered (hserial : ∀ u ∈ serial, u.Readable) (hstream : c.stream = wires serial)
    {cmd : Command} {answers : List (List Unsolicited × Bytes)}
    (hplain : (Op.command cmd answers).Plain) (h : (Op.command cmd answers).Conforms) :
    ∃ us : List Heard, (∀ u ∈ us, u.Readable) ∧ heardIn [Op.command cmd answers] = us ∧
      ∃ c', perform t cmd { c with stream := c.stream ++ (Op.command cmd answers).wire } =
          (some (cmd.verdict (answers.map Prod.snd)), c') ∧
        Leaves c serial us c' := by
  have hheardIn : heardIn [Op.command cmd answers] =
      (answers.flatMap Prod.fst).filterMap Unsolicited.heard? := by
    simp [heardIn, Op.unsolicited]
  rw [hheardIn]
  unfold Op.Conforms at h
  dsimp only at h
  cases hsmall : cmd.tooLarge with
  | true =>
    rw [if_pos hsmall] at h
    subst h
    refine ⟨[], by simp, rfl, c, ?_, Or.inr ⟨rfl, rfl, rfl⟩⟩
    have hverdict : cmd.verdict [] = .error .requestTooLarge := if_pos hsmall
    show perform t cmd { c with stream := c.stream ++ [] } = (some (cmd.verdict []), c)
    rw [hverdict, List.append_nil]
    cases cmd with
    | sendData targetAddress data => exact if_pos (of_decide_eq_true hsmall)
    | _ => cases hsmall
  | false =>
    have hlarge : ¬ cmd.tooLarge = true := by
      rw [hsmall]
      exact Bool.false_ne_true
    rw [if_neg hlarge] at h
    by_cases hreset : cmd = .reset
    · subst hreset
      exact reset_answered hserial hstream hplain h
    · obtain ⟨expected, sent, hexpects, hperform⟩ := perform_single t hreset hsmall
      have htag : IsTag expected := isTag_expects (by rw [hexpects]; exact List.mem_singleton_self _)
      rw [hexpects] at h
      cases answers with
      | nil => exact absurd h id
      | cons first answers =>
        obtain ⟨before, line⟩ := first
        obtain ⟨hanswer, hrest⟩ := h
        have hnil : answers = [] := by
          split at hrest
          · exact hrest
          · exact hrest
        subst hnil
        obtain ⟨us, hus, hwire, hheard⟩ := exists_heard before (by
          simpa [Op.Plain, Op.unsolicited] using hplain)
        have hall : ∀ u ∈ serial ++ us, u.Readable := List.forall_mem_append.mpr ⟨hserial, hus⟩
        have hwires : c.stream ++ (Op.command cmd [(before, line)]).wire =
            wires (serial ++ us) ++ (line ++ lineEnd ++ []) := by
          show c.stream ++ ((before.flatMap Unsolicited.wire ++ (line ++ lineEnd)) ++ []) = _
          rw [hstream, hwire, wires_append]
          simp only [List.append_assoc, List.append_nil]
        obtain ⟨r, hr, hjudge⟩ := expect_answered t expected htag hanswer hall (sendRaw sent c) []
        obtain ⟨c', hc', hleft, hqueue⟩ := hperform
          { c with stream := wires (serial ++ us) ++ (line ++ lineEnd ++ []) } r _ hr
        refine ⟨us, hus, by simpa using hheard, c', ?_, Or.inl ⟨hleft, hqueue⟩⟩
        rw [hwires, hc', hjudge]
        show _ = (some (cmd.verdict [line]), c')
        rw [verdict_single hexpects hsmall]

end Perform

/-! ### One listener -/

section Listen
variable {t : Target} {c : RylrClient}

theorem popPacket_of_nil (h : c.rxQueue.toList = []) : c.popPacket = none := by
  unfold RylrClient.popPacket
  split
  · rfl
  · rename_i hcons
    rw [h] at hcons
    cases hcons

theorem popPacket_of_cons {p : ReceivedPacket} {rest : List ReceivedPacket}
    (h : c.rxQueue.toList = p :: rest) :
    ∃ c', c.popPacket = some (p, c') ∧ c'.stream = c.stream ∧ c'.rxQueue.toList = rest := by
  unfold RylrClient.popPacket
  split
  · rename_i hnil
    rw [h] at hnil
    cases hnil
  · rename_i hcons
    rw [h] at hcons
    obtain ⟨rfl, rfl⟩ := List.cons.inj hcons
    exact ⟨_, rfl, rfl, rfl⟩

theorem listen_queued {p : ReceivedPacket} {rest : List ReceivedPacket}
    (h : c.rxQueue.toList = p :: rest) :
    ∃ c', listenForPacket t c = (some (.ok p), c') ∧ c'.stream = c.stream ∧
      c'.rxQueue.toList = rest := by
  obtain ⟨c', hpop, hstream, hqueue⟩ := popPacket_of_cons h
  unfold listenForPacket
  rw [hpop]
  exact ⟨c', rfl, hstream, hqueue⟩

theorem listen_waiting (h : c.rxQueue.toList = []) :
    ∃ c', listenForPacket t { c with stream := [] } = (none, c') ∧ c'.stream = [] ∧
      c'.rxQueue.toList = [] := by
  have hpop : ({ c with stream := [] } : RylrClient).popPacket = none := popPacket_of_nil h
  unfold listenForPacket
  rw [hpop]
  dsimp only
  have hnext : nextLine t { c with stream := [] } = (none, { c with stream := [] }) := by
    unfold nextLine
    rfl
  unfold awaitPacket
  split
  · rename_i heq
    rw [hnext] at heq
    obtain ⟨_, rfl⟩ := Prod.mk.inj heq
    exact ⟨_, rfl, rfl, h⟩
  · rename_i heq
    rw [hnext] at heq
    cases heq
  · rename_i heq
    rw [hnext] at heq
    cases heq
  · rename_i heq
    rw [hnext] at heq
    cases heq

theorem listen_heard (h : c.rxQueue.toList = []) {u : Heard} (hu : u.Readable) (rest : Bytes) :
    ∃ c', listenForPacket t { c with stream := u.line ++ lineEnd ++ rest } =
        (some (.ok u.packet), c') ∧ c'.stream = rest ∧ c'.rxQueue.toList = [] := by
  have hpop : ({ c with stream := u.line ++ lineEnd ++ rest } : RylrClient).popPacket = none :=
    popPacket_of_nil h
  have hnext := nextLine_heard t hu c rest
  have hpush : (c.rxQueue.pushOut u.packet).2.toList = [u.packet] := by
    rw [(Bounded.pushOut_of_lt (by rw [h]; decide)).2, h]
    rfl
  unfold listenForPacket
  rw [hpop]
  dsimp only
  unfold awaitPacket
  split
  · rename_i heq
    rw [hnext] at heq
    cases heq
  · rename_i heq
    rw [hnext] at heq
    cases heq
  · rename_i heq
    rw [hnext] at heq
    obtain ⟨_, rfl⟩ := Prod.mk.inj heq
    obtain ⟨c', hpacket, hstream, hqueue⟩ := popPacket_of_cons
      (c := { c with stream := rest, rxQueue := (c.rxQueue.pushOut u.packet).2 }) hpush
    rw [hpacket]
    exact ⟨c', rfl, hstream, hqueue⟩
  · rename_i heq
    rw [hnext] at heq
    cases heq

end Listen

/-! ### Runs -/

theorem heardIn_append (ops ops' : List Op) : heardIn (ops ++ ops') = heardIn ops ++ heardIn ops' := by
  simp [heardIn]

theorem session_append (t : Target) (ops : List Op) (op : Op) :
    session t (ops ++ [op]) = (session t ops).step t op :=
  Run.run_append_singleton op

theorem NeverCrowded.before {t : Target} {ops ops' : List Op} (h : NeverCrowded t (ops ++ ops')) :
    NeverCrowded t ops :=
  fun pre cmd answers hpre => h pre cmd answers (hpre.trans (List.prefix_append _ _))

/-- What has been heard is with the listeners, in the queue or on the line. -/
structure Account (t : Target) (ops : List Op) (given queued serial : List Heard) : Prop where
  readable : ∀ u ∈ given ++ queued ++ serial, u.Readable
  returned : returned (session t ops).outcomes = given.map Heard.packet
  queue : (session t ops).client.rxQueue.toList = queued.map Heard.packet
  stream : (session t ops).client.stream = wires serial
  order : (given ++ queued ++ serial).Sublist (heardIn ops)
  all : NeverCrowded t ops → given ++ queued ++ serial = heardIn ops

theorem returned_append (outcomes outcomes' : List Outcome) :
    returned (outcomes ++ outcomes') = returned outcomes ++ returned outcomes' :=
  List.filterMap_append

theorem account_command {t : Target} {ops : List Op} {given queued serial : List Heard}
    (h : Account t ops given queued serial) {cmd : Command}
    {answers : List (List Unsolicited × Bytes)} (hplain : (Op.command cmd answers).Plain)
    (hconf : (Op.command cmd answers).Conforms) :
    (session t (ops ++ [Op.command cmd answers])).outcomes =
        (session t ops).outcomes ++ [.reply (some (cmd.verdict (answers.map Prod.snd)))] ∧
      ∃ queued' serial', Account t (ops ++ [Op.command cmd answers]) given queued' serial' := by
  have hserial : ∀ u ∈ serial, u.Readable := fun u hu => h.readable u (List.mem_append_right _ hu)
  obtain ⟨us, hus, hheard, c', hperform, hleft⟩ :=
    perform_answered (t := t) hserial h.stream hplain hconf
  have hsession : session t (ops ++ [Op.command cmd answers]) =
      ⟨c', (session t ops).outcomes ++ [.reply (some (cmd.verdict (answers.map Prod.snd)))]⟩ := by
    rw [session_append]
    unfold Session.step
    dsimp only
    rw [hperform]
  have hreturned : returned (session t (ops ++ [Op.command cmd answers])).outcomes =
      given.map Heard.packet := by
    rw [hsession, returned_append, h.returned]
    exact List.append_nil _
  refine ⟨by rw [hsession], ?_⟩
  rcases hleft with ⟨hstream, hqueue⟩ | ⟨rfl, hstream, hqueue⟩
  · obtain ⟨n, hdrop, hroom⟩ := absorb_drop (session t ops).client.rxQueue (serial ++ us)
    rw [h.queue, ← List.map_append, ← List.map_drop] at hdrop
    refine ⟨(queued ++ (serial ++ us)).drop n, [], ?_⟩
    constructor
    · intro u hu
      rw [List.append_nil, List.mem_append] at hu
      rcases hu with hu | hu
      · exact h.readable u (by simp [hu])
      · have hmem := List.mem_of_mem_drop hu
        simp only [List.mem_append] at hmem
        rcases hmem with hmem | hmem | hmem
        · exact h.readable u (by simp [hmem])
        · exact h.readable u (by simp [hmem])
        · exact hus u hmem
    · exact hreturned
    · rw [hsession]
      show c'.rxQueue.toList = _
      rw [hqueue, hdrop]
    · rw [hsession]
      exact hstream
    · rw [heardIn_append, hheard, List.append_nil]
      have hsub : (given ++ (queued ++ (serial ++ us)).drop n).Sublist
          (given ++ queued ++ serial ++ us) := by
        simp only [List.append_assoc]
        exact (List.drop_sublist n _).append_left given
      exact hsub.trans (h.order.append_right us)
    · intro hnever
      have hall := h.all hnever.before
      have hbound := hnever ops cmd answers (List.prefix_refl _)
      have hzero : n = 0 := by
        apply hroom
        rw [h.queue]
        rw [heardIn_append, hheard, ← hall, h.returned] at hbound
        simp only [List.length_append, List.length_map] at hbound ⊢
        omega
      rw [hzero, heardIn_append, hheard, ← hall]
      simp
  · refine ⟨queued, serial, ?_⟩
    have hsame : heardIn (ops ++ [Op.command cmd answers]) = heardIn ops := by
      rw [heardIn_append, hheard, List.append_nil]
    constructor
    · exact h.readable
    · exact hreturned
    · rw [hsession, ← h.queue]
      exact congrArg _ hqueue
    · rw [hsession, ← h.stream]
      exact hstream
    · rw [hsame]
      exact h.order
    · rw [hsame]
      exact fun hnever => h.all hnever.before

theorem account_listen {t : Target} {ops : List Op} {given queued serial : List Heard}
    (h : Account t ops given queued serial) {arrivals : List Unsolicited}
    (hplain : (Op.listen arrivals).Plain) :
    ∃ r given' queued' serial',
      (session t (ops ++ [Op.listen arrivals])).outcomes =
          (session t ops).outcomes ++ [.packet r] ∧
        Account t (ops ++ [Op.listen arrivals]) given' queued' serial' := by
  obtain ⟨us, hus, hwire, hheardIn⟩ := exists_heard _ hplain
  have hheard : heardIn [Op.listen arrivals] = us := by
    rw [← hheardIn]
    simp [heardIn, Op.unsolicited]
  have hstream : (session t ops).client.stream ++ (Op.listen arrivals).wire = wires (serial ++ us) := by
    rw [h.stream, wires_append, ← hwire]
    rfl
  have hreadable : ∀ u ∈ given ++ queued ++ (serial ++ us), u.Readable := by
    rw [← List.append_assoc]
    exact List.forall_mem_append.mpr ⟨h.readable, hus⟩
  -- whichever list the packet leaves, what has been heard is the same
  have haccount : ∀ r c' given' queued' serial',
      listenForPacket t { (session t ops).client with stream := wires (serial ++ us) } = (r, c') →
      given' ++ queued' ++ serial' = given ++ queued ++ (serial ++ us) →
      given'.map Heard.packet = given.map Heard.packet ++ returned [.packet r] →
      c'.rxQueue.toList = queued'.map Heard.packet → c'.stream = wires serial' →
      (session t (ops ++ [Op.listen arrivals])).outcomes =
          (session t ops).outcomes ++ [.packet r] ∧
        Account t (ops ++ [Op.listen arrivals]) given' queued' serial' := by
    intro r c' given' queued' serial' hlisten hlists hgiven hqueue hleft
    have hsession : session t (ops ++ [Op.listen arrivals]) =
        ⟨c', (session t ops).outcomes ++ [.packet r]⟩ := by
      rw [session_append]
      unfold Session.step
      dsimp only
      rw [hstream, hlisten]
    refine ⟨by rw [hsession], ?_⟩
    constructor
    · rw [hlists]
      exact hreadable
    · rw [hsession, returned_append, h.returned, hgiven]
    · rw [hsession]
      exact hqueue
    · rw [hsession]
      exact hleft
    · rw [hlists, heardIn_append, hheard, ← List.append_assoc]
      exact h.order.append_right us
    · intro hnever
      rw [hlists, heardIn_append, hheard, ← h.all hnever.before]
      simp only [List.append_assoc]
  cases queued with
  | cons first queued =>
    obtain ⟨c', hlisten, hleft, hqueue⟩ := listen_queued (t := t)
      (c := { (session t ops).client with stream := wires (serial ++ us) }) h.queue
    refine ⟨_, given ++ [first], queued, serial ++ us, haccount _ c' _ _ _ hlisten ?_ ?_ hqueue hleft⟩
    · simp
    · simp [returned]
  | nil =>
    cases hnext : serial ++ us with
    | nil =>
      obtain ⟨c', hlisten, hleft, hqueue⟩ := listen_waiting (t := t) (c := (session t ops).client)
        h.queue
      refine ⟨none, given, [], [], haccount none c' given [] [] ?_ ?_ ?_ hqueue hleft⟩
      · rw [hnext]
        exact hlisten
      · rw [hnext]
      · simp [returned]
    | cons first rest =>
      have hfirst : first.Readable := hreadable first (by simp [hnext])
      obtain ⟨c', hlisten, hleft, hqueue⟩ := listen_heard (t := t) (c := (session t ops).client)
        h.queue hfirst (wires rest)
      refine ⟨_, given ++ [first], [], rest, haccount (some (.ok first.packet)) c' _ _ _ ?_ ?_ ?_
        hqueue hleft⟩
      · rw [hnext]
        exact hlisten
      · rw [hnext]
        simp
      · simp [returned]

theorem account_run (t : Target) {ops : List Op} (hconf : ∀ op ∈ ops, op.Conforms)
    (hplain : ∀ op ∈ ops, op.Plain) :
    List.Forall₂ Decided ops (session t ops).outcomes ∧
      ∃ given queued serial, Account t ops given queued serial := by
  induction ops using List.reverseRecOn with
  | nil =>
    refine ⟨List.Forall₂.nil, [], [], [], ?_⟩
    exact ⟨by simp, rfl, rfl, rfl, List.Sublist.refl _, fun _ => rfl⟩
  | append_singleton ops op ih =>
    obtain ⟨hconf, hop⟩ := List.forall_mem_append.mp hconf
    obtain ⟨hplain, hopPlain⟩ := List.forall_mem_append.mp hplain
    obtain ⟨hdecided, given, queued, serial, haccount⟩ := ih hconf hplain
    have hop := hop op (List.mem_singleton_self _)
    have hopPlain := hopPlain op (List.mem_singleton_self _)
    cases op with
    | command cmd answers =>
      obtain ⟨houtcomes, queued', serial', haccount'⟩ := account_command haccount hopPlain hop
      refine ⟨?_, given, queued', serial', haccount'⟩
      rw [houtcomes]
      exact List.rel_append hdecided (List.Forall₂.cons rfl List.Forall₂.nil)
    | listen arrivals =>
      obtain ⟨r, given', queued', serial', houtcomes, haccount'⟩ :=
        account_listen haccount hopPlain
      refine ⟨?_, given', queued', serial', haccount'⟩
      rw [houtcomes]
      exact List.rel_append hdecided (List.Forall₂.cons ⟨r, rfl⟩ List.Forall₂.nil)

theorem shows_map {us : List Heard} (h : ∀ u ∈ us, u.Readable) :
    List.Forall₂ Heard.Shows us (us.map Heard.packet) := by
  induction us with
  | nil => exact List.Forall₂.nil
  | cons u us ih =>
    obtain ⟨hu, hus⟩ := List.forall_mem_cons.mp h
    exact List.Forall₂.cons (shows_packet hu) (ih hus)

/-- As long as every line of a packet can be read, commands and answers are paired and
packets are handed on in order. -/
theorem paired_of_plain (t : Target) (ops : List Op) (hconf : ∀ op ∈ ops, op.Conforms)
    (hplain : ∀ op ∈ ops, op.Plain) : Paired t ops := by
  obtain ⟨hdecided, given, queued, serial, h⟩ := account_run t hconf hplain
  refine ⟨hdecided, given, queued, serial, h.order, h.all, ?_, ?_, h.stream⟩
  · rw [h.returned]
    exact shows_map fun u hu => h.readable u (by simp [hu])
  · rw [h.queue]
    exact shows_map fun u hu => h.readable u (by simp [hu])

theorem paired_of_plain_ping : Paired .bits64
    [.command .ping [([.heard ⟨2, asBytes "hello".toList, BitVec.ofInt 32 (-40), 10⟩],
      asBytes "+OK".toList)], .listen []] := by
  apply paired_of_plain
  · simp only [List.forall_mem_cons, List.not_mem_nil, false_implies, implies_true, and_true]
    exact ⟨⟨⟨⟨by decide +kernel, by decide +kernel⟩, Or.inl (by decide +kernel)⟩, by
      split
      · rfl
      · rfl⟩, trivial⟩
  · simp only [List.forall_mem_cons, List.not_mem_nil, false_implies, implies_true, and_true]
    constructor
    · intro x hx
      obtain rfl := List.mem_singleton.mp hx
      exact ⟨by decide +kernel, by decide +kernel, by decide +kernel, by decide +kernel⟩
    · intro x hx
      cases hx

/-- A comma in the data of a packet, between a command and its answer. -/
def commaRun : List Op :=
  [.command .ping [([.heard ⟨1, asBytes "a,b".toList, BitVec.ofInt 32 (-40), 10⟩],
      asBytes "+OK".toList)],
    .command (.setAddress 5) [([], asBytes "+ERR=1".toList)]]

/-- The packet fails the command it interrupts, and the next one takes its answer. -/
theorem comma_shifts_answers :
    (∀ op ∈ commaRun, op.Conforms) ∧
      (session .bits64 commaRun).outcomes =
        [.reply (some (.error .invalidResponse)), .reply (some (.ok .done))] ∧
      ¬ Paired .bits64 commaRun := by
  have houtcomes : (session .bits64 commaRun).outcomes =
      [.reply (some (.error .invalidResponse)), .reply (some (.ok .done))] := by decide +kernel
  refine ⟨?_, houtcomes, ?_⟩
  · unfold commaRun
    simp only [List.forall_mem_cons, List.not_mem_nil, false_implies, implies_true, and_true]
    constructor
    · exact ⟨⟨⟨by decide +kernel, by decide +kernel⟩, Or.inl (by decide +kernel)⟩, by
        split
        · rfl
        · rfl⟩
    · exact ⟨⟨⟨by decide +kernel, by decide +kernel⟩, Or.inr (by decide +kernel)⟩, by
        split
        · rfl
        · rfl⟩
  · intro h
    have hcommands := h.commands
    rw [houtcomes] at hcommands
    have hfirst := (List.forall₂_cons.mp hcommands).1
    have hverdict : Command.ping.verdict [asBytes "+OK".toList] = .ok .done := by decide +kernel
    change Outcome.reply _ = .reply (some (Command.ping.verdict [asBytes "+OK".toList])) at hfirst
    rw [hverdict] at hfirst
    cases hfirst

end Wayfinder.Rylr
