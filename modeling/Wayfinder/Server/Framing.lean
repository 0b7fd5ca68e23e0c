import Wayfinder.Frame

/-!
# Frames on a serial line

A body crosses a byte stream behind its length in four bytes. The stream delivers what it
likes at a time, may end or fail at any byte, and is read on by whoever starts anew.
-/

namespace Wayfinder.Server

set_option autoImplicit false

def maxFrameLen : Nat := 4096

inductive FrameError where
  | io
  | unexpectedEof
  | oversized (len : Nat)
  | empty
  deriving DecidableEq

/-- What a read comes back with: some bytes, of which none are the end, or an error. -/
inductive ReadOutcome where
  | ok (bytes : Bytes)
  | err
  deriving DecidableEq

/-- A stream by what its reads will come back with. A read that wants less than it could have
leaves the rest, and with nothing to come it waits. -/
abbrev Stream := List ReadOutcome

def ReadOutcome.bytes : ReadOutcome → Bytes
  | .ok bytes => bytes
  | .err => []

def Stream.bytes (stream : Stream) : Bytes := stream.flatMap ReadOutcome.bytes

/-- `read_exact`, with what it has so far, until it has `n` more. -/
def readExact (n : Nat) (got : Bytes) : Stream → Option (Except FrameError Bytes × Stream)
  | [] => if n = 0 then some (.ok got, []) else none
  | outcome :: stream =>
    if n = 0 then some (.ok got, outcome :: stream)
    else
      match outcome with
      | .err => some (.error .io, stream)
      | .ok bytes =>
        if bytes = [] then some (.error .unexpectedEof, stream)
        else if n < bytes.length then
          some (.ok (got ++ bytes.take n), .ok (bytes.drop n) :: stream)
        else readExact (n - bytes.length) (got ++ bytes) stream

/-- A length as it stands in front of a body. -/
def lenPrefix (len : Nat) : Bytes := (Be32.ofU32 (BitVec.ofNat 32 len)).asBytes

/-- `u32::from_be_bytes`. -/
def lenOf (bytes : Bytes) : Nat :=
  (Be32.mk (bytes.getD 0 0) (bytes.getD 1 0) (bytes.getD 2 0) (bytes.getD 3 0)).get.toNat

def readFrame (stream : Stream) : Option (Except FrameError Bytes × Stream) :=
  (readExact 4 [] stream).bind fun r =>
    match r.1 with
    | .error e => some (.error e, r.2)
    | .ok bytes =>
      if lenOf bytes = 0 then some (.error .empty, r.2)
      else if maxFrameLen < lenOf bytes then some (.error (.oversized (lenOf bytes)), r.2)
      else readExact (lenOf bytes) [] r.2

def frameBytes (body : Bytes) : Bytes := lenPrefix body.length ++ body

/-- Whether the bytes of a frame all go out, or an error comes after the first `n`. -/
inductive WriteOutcome where
  | done
  | failed (n : Nat)

/-- What comes of it and what is on the line. -/
def writeFrame (body : Bytes) (out : WriteOutcome) : Except FrameError Unit × Bytes :=
  if maxFrameLen < body.length then (.error (.oversized body.length), [])
  else
    match out with
    | .done => (.ok (), frameBytes body)
    | .failed n => (.error .io, (frameBytes body).take n)

theorem writeFrame_long {body : Bytes} (h : maxFrameLen < body.length) (out : WriteOutcome) :
    writeFrame body out = (.error (.oversized body.length), []) := by
  unfold writeFrame
  exact if_pos h

theorem writeFrame_done {body : Bytes} (h : body.length ≤ maxFrameLen) :
    writeFrame body .done = (.ok (), frameBytes body) := by
  unfold writeFrame
  exact if_neg (Nat.not_lt.mpr h)

theorem writeFrame_prefix (body : Bytes) (out : WriteOutcome) :
    (writeFrame body out).2 <+: frameBytes body := by
  unfold writeFrame
  split
  · exact List.nil_prefix
  · cases out with
    | done => exact List.prefix_rfl
    | failed n => exact List.take_prefix ..

theorem writeFrame_ok {body : Bytes} {out : WriteOutcome} {u : Unit}
    (h : (writeFrame body out).1 = .ok u) :
    body.length ≤ maxFrameLen ∧ (writeFrame body out).2 = frameBytes body := by
  by_cases hlong : maxFrameLen < body.length
  · rw [writeFrame_long hlong] at h
    cases h
  · unfold writeFrame at h ⊢
    rw [if_neg hlong] at h ⊢
    cases out with
    | done => exact ⟨Nat.le_of_not_lt hlong, rfl⟩
    | failed n => cases h

/-- A body that there is a frame for. -/
def Framed (body : Bytes) : Prop := body ≠ [] ∧ body.length ≤ maxFrameLen

instance (body : Bytes) : Decidable (Framed body) :=
  inferInstanceAs (Decidable (body ≠ [] ∧ body.length ≤ maxFrameLen))

/-! ### What a read takes -/

section Take
variable {n : Nat} {got body bytes : Bytes} {stream stream' : Stream} {e : FrameError}

theorem Stream.bytes_cons (outcome : ReadOutcome) (stream : Stream) :
    Stream.bytes (outcome :: stream) = outcome.bytes ++ stream.bytes := rfl

theorem readExact_ok (h : readExact n got stream = some (.ok bytes, stream')) :
    ∃ more, bytes = got ++ more ∧ more.length = n ∧ stream.bytes = more ++ stream'.bytes := by
  induction stream generalizing n got with
  | nil =>
    unfold readExact at h
    split at h
    · rename_i hn
      cases h
      exact ⟨[], (List.append_nil _).symm, hn.symm, rfl⟩
    · cases h
  | cons outcome stream ih =>
    unfold readExact at h
    by_cases hn : n = 0
    · rw [if_pos hn] at h
      cases h
      exact ⟨[], (List.append_nil _).symm, hn.symm, rfl⟩
    · rw [if_neg hn] at h
      cases outcome with
      | err => cases h
      | ok chunk =>
        dsimp only at h
        split at h
        · cases h
        · split at h
          · rename_i hlt
            cases h
            refine ⟨chunk.take n, rfl, ?_, ?_⟩
            · rw [List.length_take]
              omega
            · rw [Stream.bytes_cons, Stream.bytes_cons]
              change chunk ++ _ = _ ++ (chunk.drop n ++ _)
              rw [← List.append_assoc, List.take_append_drop]
          · rename_i hlt
            obtain ⟨more, rfl, hlen, hbytes⟩ := ih h
            refine ⟨chunk ++ more, List.append_assoc .., ?_, ?_⟩
            · rw [List.length_append]
              omega
            · rw [Stream.bytes_cons, hbytes, List.append_assoc]
              rfl

theorem readExact_error (h : readExact n got stream = some (.error e, stream')) :
    ∃ lost, stream.bytes = lost ++ stream'.bytes := by
  induction stream generalizing n got with
  | nil =>
    unfold readExact at h
    split at h
    · cases h
    · cases h
  | cons outcome stream ih =>
    unfold readExact at h
    by_cases hn : n = 0
    · rw [if_pos hn] at h
      cases h
    · rw [if_neg hn] at h
      cases outcome with
      | err =>
        cases h
        exact ⟨[], rfl⟩
      | ok chunk =>
        dsimp only at h
        split at h
        · cases h
          exact ⟨chunk, rfl⟩
        · split at h
          · cases h
          · obtain ⟨lost, hlost⟩ := ih h
            refine ⟨chunk ++ lost, ?_⟩
            rw [Stream.bytes_cons, hlost, List.append_assoc]
            rfl

theorem lenOf_lenPrefix {len : Nat} (h : len < 2 ^ 32) : lenOf (lenPrefix len) = len := by
  change (Be32.get (Be32.ofU32 (BitVec.ofNat 32 len))).toNat = len
  rw [Be32.get_ofU32, BitVec.toNat_ofNat, Nat.mod_eq_of_lt h]

theorem lenPrefix_lenOf (h : bytes.length = 4) : lenPrefix (lenOf bytes) = bytes := by
  match bytes, h with
  | [b0, b1, b2, b3], _ =>
    change (Be32.ofU32 (BitVec.ofNat 32 (Be32.mk b0 b1 b2 b3).get.toNat)).asBytes = _
    rw [BitVec.ofNat_toNat, BitVec.setWidth_eq, Be32.ofU32_get]
    rfl

theorem length_lenPrefix (len : Nat) : (lenPrefix len).length = 4 := rfl

/-- A body is read off the bytes of its frame. -/
theorem readFrame_ok (h : readFrame stream = some (.ok body, stream')) :
    Framed body ∧ stream.bytes = frameBytes body ++ stream'.bytes := by
  obtain ⟨⟨r, mid⟩, hlead, h⟩ := Option.bind_eq_some_iff.mp h
  cases r with
  | error e => cases h
  | ok bytes =>
    dsimp only at h
    split at h
    · cases h
    · split at h
      · cases h
      · rename_i hzero hmax
        obtain ⟨more, rfl, hfour, hbytes⟩ := readExact_ok hlead
        obtain ⟨more', rfl, hlen, hbody⟩ := readExact_ok h
        refine ⟨⟨?_, by omega⟩, ?_⟩
        · rintro rfl
          exact hzero hlen.symm
        · rw [frameBytes, hlen, lenPrefix_lenOf hfour, hbytes, hbody, List.append_assoc]

theorem readFrame_error (h : readFrame stream = some (.error e, stream')) :
    ∃ lost, stream.bytes = lost ++ stream'.bytes := by
  obtain ⟨⟨r, mid⟩, hlead, h⟩ := Option.bind_eq_some_iff.mp h
  cases r with
  | error e =>
    cases h
    exact readExact_error hlead
  | ok bytes =>
    obtain ⟨more, _, _, hbytes⟩ := readExact_ok hlead
    dsimp only at h
    split at h
    · cases h
      exact ⟨more, hbytes⟩
    · split at h
      · cases h
        exact ⟨more, hbytes⟩
      · obtain ⟨lost, hlost⟩ := readExact_error h
        exact ⟨more ++ lost, by rw [hbytes, hlost, List.append_assoc]⟩

end Take

/-! ### What is delivered -/

/-- The bytes of a line as they come in, in parts that are none empty. -/
structure Chunking (wire : Bytes) where
  chunks : List Bytes
  joined : chunks.flatten = wire
  nonempty : ∀ chunk ∈ chunks, chunk ≠ []

/-- The line ends behind them. -/
def Chunking.stream {wire : Bytes} (c : Chunking wire) : Stream :=
  c.chunks.map ReadOutcome.ok ++ [.ok []]

section Deliver
variable {n : Nat} {got wanted rest body : Bytes} {chunks : List Bytes} {tail stream : Stream}

theorem readExact_zero : readExact 0 got stream = some (.ok got, stream) := by
  cases stream with
  | nil => exact if_pos rfl
  | cons outcome stream => exact if_pos rfl

theorem readExact_cons {chunk : Bytes} (hn : n ≠ 0) (hchunk : chunk ≠ []) :
    readExact n got (.ok chunk :: stream) =
      if n < chunk.length then some (.ok (got ++ chunk.take n), .ok (chunk.drop n) :: stream)
      else readExact (n - chunk.length) (got ++ chunk) stream := by
  conv => lhs; unfold readExact
  rw [if_neg hn]
  exact if_neg hchunk

/-- In whatever parts the bytes come, a read gets the ones that are there, and leaves the
others. -/
theorem readExact_chunks (hne : ∀ chunk ∈ chunks, chunk ≠ [])
    (hflat : chunks.flatten = wanted ++ rest) (hn : wanted.length = n) :
    ∃ chunks' : List Bytes, readExact n got (chunks.map ReadOutcome.ok ++ tail) =
        some (.ok (got ++ wanted), chunks'.map ReadOutcome.ok ++ tail) ∧
      chunks'.flatten = rest ∧ ∀ chunk ∈ chunks', chunk ≠ [] := by
  induction chunks generalizing n got wanted with
  | nil =>
    obtain ⟨rfl, rfl⟩ := List.append_eq_nil_iff.mp hflat.symm
    subst hn
    exact ⟨[], by rw [List.append_nil]; exact readExact_zero, rfl, hne⟩
  | cons chunk chunks ih =>
    by_cases hzero : n = 0
    · rw [hzero] at hn
      obtain rfl := List.length_eq_zero_iff.mp hn
      rw [hzero, List.append_nil]
      exact ⟨chunk :: chunks, readExact_zero, hflat, hne⟩
    · have hchunk := hne chunk List.mem_cons_self
      have hrest : ∀ c ∈ chunks, c ≠ [] := fun c hc => hne c (List.mem_cons_of_mem _ hc)
      rw [List.map_cons, List.cons_append, readExact_cons hzero hchunk]
      rw [List.flatten_cons] at hflat
      by_cases hlt : n < chunk.length
      · have htake : chunk.take n = wanted := by
          have h := congrArg (List.take n) hflat
          rw [List.take_append_of_le_length (Nat.le_of_lt hlt), ← hn, List.take_left] at h
          rw [← hn, h]
        have hdrop : chunk.drop n ++ chunks.flatten = rest := by
          have h := congrArg (List.drop n) hflat
          rw [List.drop_append_of_le_length (Nat.le_of_lt hlt), ← hn, List.drop_left] at h
          rw [← hn, h]
        rw [if_pos hlt, htake]
        refine ⟨chunk.drop n :: chunks, rfl, hdrop, ?_⟩
        intro c hc
        rcases List.mem_cons.mp hc with rfl | hc
        · rw [Ne, List.drop_eq_nil_iff]
          omega
        · exact hrest c hc
      · rw [if_neg hlt]
        have hle : chunk.length ≤ wanted.length := by omega
        have hfront : wanted.take chunk.length = chunk := by
          have h := congrArg (List.take chunk.length) hflat
          rw [List.take_left, List.take_append_of_le_length hle] at h
          exact h.symm
        have hback : chunks.flatten = wanted.drop chunk.length ++ rest := by
          have h := congrArg (List.drop chunk.length) hflat
          rw [List.drop_left, List.drop_append_of_le_length hle] at h
          exact h
        have hwanted : chunk ++ wanted.drop chunk.length = wanted := by
          have h := List.take_append_drop chunk.length wanted
          rw [hfront] at h
          exact h
        obtain ⟨chunks', hread, hjoined, hne'⟩ := ih hrest hback
          (show (wanted.drop chunk.length).length = n - chunk.length by
            rw [List.length_drop, hn])
        refine ⟨chunks', ?_, hjoined, hne'⟩
        rw [hread, List.append_assoc, hwanted]

/-- With fewer bytes there than it wants, a read runs into the end. -/
theorem readExact_short (hne : ∀ chunk ∈ chunks, chunk ≠ [])
    (hlen : chunks.flatten.length < n) :
    readExact n got (chunks.map ReadOutcome.ok ++ .ok [] :: tail) =
      some (.error .unexpectedEof, tail) := by
  induction chunks generalizing n got with
  | nil =>
    have hn : n ≠ 0 := by
      rw [List.flatten_nil, List.length_nil] at hlen
      omega
    rw [List.map_nil, List.nil_append]
    conv => lhs; unfold readExact
    rw [if_neg hn]
    rfl
  | cons chunk chunks ih =>
    rw [List.flatten_cons, List.length_append] at hlen
    rw [List.map_cons, List.cons_append,
      readExact_cons (by omega) (hne chunk List.mem_cons_self), if_neg (by omega)]
    exact ih (fun c hc => hne c (List.mem_cons_of_mem _ hc)) (by omega)

theorem readFrame_chunks (hbody : Framed body) (hne : ∀ chunk ∈ chunks, chunk ≠ [])
    (hflat : chunks.flatten = frameBytes body ++ rest) :
    ∃ chunks' : List Bytes, readFrame (chunks.map ReadOutcome.ok ++ tail) =
        some (.ok body, chunks'.map ReadOutcome.ok ++ tail) ∧
      chunks'.flatten = rest ∧ ∀ chunk ∈ chunks', chunk ≠ [] := by
  have hmax : body.length < 2 ^ 32 := Nat.lt_of_le_of_lt hbody.2 (by decide)
  have hpos : body.length ≠ 0 := by
    rw [Ne, List.length_eq_zero_iff]
    exact hbody.1
  rw [frameBytes, List.append_assoc] at hflat
  obtain ⟨mid, hlead, hmid, hnemid⟩ := readExact_chunks hne hflat (length_lenPrefix _)
  obtain ⟨chunks', hread, hjoined, hne'⟩ := readExact_chunks hnemid hmid rfl
  refine ⟨chunks', ?_, hjoined, hne'⟩
  unfold readFrame
  rw [hlead, Option.bind_some]
  dsimp only
  rw [List.nil_append, lenOf_lenPrefix hmax, if_neg hpos, if_neg (Nat.not_lt.mpr hbody.2), hread,
    List.nil_append]

theorem readFrame_empty (hne : ∀ chunk ∈ chunks, chunk ≠ [])
    (hflat : chunks.flatten = frameBytes [] ++ rest) :
    ∃ chunks' : List Bytes, readFrame (chunks.map ReadOutcome.ok ++ tail) =
        some (.error .empty, chunks'.map ReadOutcome.ok ++ tail) ∧
      chunks'.flatten = rest ∧ ∀ chunk ∈ chunks', chunk ≠ [] := by
  rw [frameBytes, List.append_nil] at hflat
  obtain ⟨chunks', hlead, hjoined, hne'⟩ := readExact_chunks hne hflat (length_lenPrefix _)
  refine ⟨chunks', ?_, hjoined, hne'⟩
  unfold readFrame
  rw [hlead]
  rfl

/-- A frame that is cut short is none. -/
theorem readFrame_cut (hbody : body.length ≤ maxFrameLen) (hne : ∀ chunk ∈ chunks, chunk ≠ [])
    (hflat : chunks.flatten = (frameBytes body).take n) (hn : n < (frameBytes body).length) :
    readFrame (chunks.map ReadOutcome.ok ++ .ok [] :: tail) =
      some (.error .unexpectedEof, tail) := by
  have hlen : (frameBytes body).length = 4 + body.length := by
    rw [frameBytes, List.length_append, length_lenPrefix]
  unfold readFrame
  by_cases hfour : n < 4
  · have hshort : chunks.flatten.length < 4 := by
      rw [hflat, List.length_take]
      omega
    rw [readExact_short hne hshort]
    rfl
  · have hmax : body.length < 2 ^ 32 := Nat.lt_of_le_of_lt hbody (by decide)
    have hsplit : chunks.flatten = lenPrefix body.length ++ body.take (n - 4) := by
      rw [hflat, frameBytes, List.take_append, length_lenPrefix, List.take_of_length_le]
      rw [length_lenPrefix]
      omega
    obtain ⟨mid, hlead, hmid, hnemid⟩ := readExact_chunks hne hsplit (length_lenPrefix _)
    have hshort : mid.flatten.length < body.length := by
      rw [hmid, List.length_take]
      omega
    rw [hlead, Option.bind_some]
    dsimp only
    rw [List.nil_append, lenOf_lenPrefix hmax, if_neg (by omega), if_neg (by omega),
      readExact_short hnemid hshort]

end Deliver

/-! ### The round trip -/

/-- What so many calls of `read_frame` return, each begun where the one before left off. -/
def readBodies : Nat → Stream → List Bytes
  | 0, _ => []
  | calls + 1, stream =>
    match readFrame stream with
    | none => []
    | some (.ok body, stream') => body :: readBodies calls stream'
    | some (.error _, stream') => readBodies calls stream'

/-- What is on the line behind writes that went out. -/
def wireOf (bodies : List Bytes) : Bytes := bodies.flatMap fun body => (writeFrame body .done).2

/-- Whether the whole frame of a body is on the line. -/
def OnWire (body : Bytes) (out : WriteOutcome) : Prop := (writeFrame body out).2 = frameBytes body

instance (body : Bytes) (out : WriteOutcome) : Decidable (OnWire body out) :=
  inferInstanceAs (Decidable ((writeFrame body out).2 = frameBytes body))

theorem readBodies_nil (calls : Nat) : readBodies calls [] = [] := by
  cases calls with
  | zero => rfl
  | succ calls => rfl

theorem onWire_iff {body : Bytes} (hbody : body.length ≤ maxFrameLen) (out : WriteOutcome) :
    OnWire body out ∨ ∃ n, n < (frameBytes body).length ∧
      (writeFrame body out).2 = (frameBytes body).take n := by
  unfold OnWire writeFrame
  rw [if_neg (Nat.not_lt.mpr hbody)]
  cases out with
  | done => exact Or.inl rfl
  | failed n =>
    by_cases hn : n < (frameBytes body).length
    · exact Or.inr ⟨n, hn, rfl⟩
    · exact Or.inl (List.take_of_length_le (Nat.le_of_not_lt hn))

section RoundTrip
variable {chunks : List Bytes} {rest : Bytes}

theorem chunks_eq_nil (hne : ∀ chunk ∈ chunks, chunk ≠ []) (hflat : chunks.flatten = []) :
    chunks = [] := by
  cases chunks with
  | nil => rfl
  | cons chunk chunks =>
    rw [List.flatten_cons, List.append_eq_nil_iff] at hflat
    exact absurd hflat.1 (hne chunk List.mem_cons_self)

theorem readBodies_end (calls : Nat) : readBodies calls [.ok []] = [] := by
  cases calls with
  | zero => rfl
  | succ calls => exact readBodies_nil calls

/-- One call takes a whole frame, and returns its body when there is one. -/
theorem readBodies_frame {body : Bytes} (calls : Nat) (tail : Stream)
    (hbody : body.length ≤ maxFrameLen) (hne : ∀ chunk ∈ chunks, chunk ≠ [])
    (hflat : chunks.flatten = frameBytes body ++ rest) :
    ∃ chunks' : List Bytes, readBodies (calls + 1) (chunks.map ReadOutcome.ok ++ tail) =
        [body].filter (fun b => decide (Framed b)) ++
          readBodies calls (chunks'.map ReadOutcome.ok ++ tail) ∧
      chunks'.flatten = rest ∧ ∀ chunk ∈ chunks', chunk ≠ [] := by
  by_cases hnil : body = []
  · rw [hnil] at hflat
    obtain ⟨chunks', hread, hjoined, hne'⟩ := readFrame_empty hne hflat
    refine ⟨chunks', ?_, hjoined, hne'⟩
    rw [readBodies, hread, hnil]
    rfl
  · have hframed : Framed body := ⟨hnil, hbody⟩
    obtain ⟨chunks', hread, hjoined, hne'⟩ := readFrame_chunks hframed hne hflat
    refine ⟨chunks', ?_, hjoined, hne'⟩
    have hfilter : [body].filter (fun b => decide (Framed b)) = [body] :=
      List.filter_cons_of_pos (decide_eq_true hframed)
    rw [readBodies, hread, hfilter]
    rfl

theorem readBodies_last (last : Bytes) (out : WriteOutcome) (calls : Nat)
    (hne : ∀ chunk ∈ chunks, chunk ≠ []) (hflat : chunks.flatten = (writeFrame last out).2) :
    readBodies (calls + 1) (chunks.map ReadOutcome.ok ++ [.ok []]) =
      (if OnWire last out then [last] else []).filter fun body => decide (Framed body) := by
  by_cases hlong : maxFrameLen < last.length
  · have hnot : ¬Framed last := fun h => absurd h.2 (Nat.not_le.mpr hlong)
    rw [writeFrame_long hlong] at hflat
    rw [chunks_eq_nil hne hflat]
    change readBodies (calls + 1) [.ok []] = _
    rw [readBodies_end]
    split
    · rw [List.filter_cons_of_neg (by simpa using hnot), List.filter_nil]
    · rfl
  · rcases onWire_iff (Nat.le_of_not_lt hlong) out with hwire | ⟨n, hn, hcut⟩
    · have hwhole : chunks.flatten = frameBytes last ++ [] := by
        rw [hflat, List.append_nil]
        exact hwire
      obtain ⟨chunks', hread, hjoined, hne'⟩ :=
        readBodies_frame calls [.ok []] (Nat.le_of_not_lt hlong) hne hwhole
      rw [if_pos hwire, hread, chunks_eq_nil hne' hjoined]
      change _ ++ readBodies calls [.ok []] = _
      rw [readBodies_end, List.append_nil]
    · have hnot : ¬OnWire last out := by
        intro hwire
        have hlen := congrArg List.length (hcut.symm.trans hwire)
        rw [List.length_take] at hlen
        omega
      rw [hcut] at hflat
      rw [if_neg hnot, readBodies, readFrame_cut (Nat.le_of_not_lt hlong) hne hflat hn]
      exact readBodies_nil calls

/-- What is written is read: of all that went out before the line ended, each body that is not
empty and not too long, and nothing else. -/
theorem readBodies_wire (bodies : List Bytes) (last : Bytes) (out : WriteOutcome) (more : Nat)
    (hne : ∀ chunk ∈ chunks, chunk ≠ [])
    (hflat : chunks.flatten = wireOf bodies ++ (writeFrame last out).2) :
    readBodies (bodies.length + 1 + more) (chunks.map ReadOutcome.ok ++ [.ok []]) =
      (bodies ++ if OnWire last out then [last] else []).filter fun body =>
        decide (Framed body) := by
  induction bodies generalizing chunks more with
  | nil =>
    rw [List.length_nil, Nat.zero_add, Nat.add_comm]
    exact readBodies_last last out more hne hflat
  | cons body bodies ih =>
    have hcalls : (body :: bodies).length + 1 + more = bodies.length + 1 + more + 1 := by
      rw [List.length_cons]
      omega
    have hwire : wireOf (body :: bodies) = (writeFrame body .done).2 ++ wireOf bodies := rfl
    rw [hcalls, List.cons_append]
    rw [hwire, List.append_assoc] at hflat
    by_cases hlong : maxFrameLen < body.length
    · have hnot : ¬Framed body := fun h => absurd h.2 (Nat.not_le.mpr hlong)
      rw [writeFrame_long hlong, List.nil_append] at hflat
      rw [List.filter_cons_of_neg (by simpa using hnot), Nat.add_assoc]
      exact ih (more + 1) hne hflat
    · rw [writeFrame_done (Nat.le_of_not_lt hlong)] at hflat
      obtain ⟨chunks', hread, hjoined, hne'⟩ := readBodies_frame (bodies.length + 1 + more)
        [.ok []] (Nat.le_of_not_lt hlong) hne hflat
      rw [hread, ih more hne' hjoined, List.filter_cons, List.filter_cons]
      split <;> rfl

end RoundTrip

end Wayfinder.Server
