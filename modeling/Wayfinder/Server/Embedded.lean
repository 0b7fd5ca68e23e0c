import Wayfinder.Lib.Run
import Wayfinder.Server.Framing

/-!
# Management over a serial line

A serve loop reads requests off a stream and asks the loop that owns the router, over two
channels of one slot each. It ends with an error of the stream, and is begun anew: what one
session asked must not be answered in the next.
-/

namespace Wayfinder.Server

open Run

set_option autoImplicit false

/-- The messages and what the router does with a request. -/
structure Api (Req Resp Router : Type) where
  decode : Bytes → Option Req
  encode : Resp → Bytes
  encodedLen : Resp → Nat
  errorResponse : String → Resp
  answer : Router → Req → Resp × Router

/-- A request on its way, with the session that sent it and its place in there, which nothing
in the program looks at. -/
structure Query (Req : Type) where
  session : Nat
  position : Nat
  request : Req

/-- Where the serve loop waits. -/
inductive Phase (Req Resp : Type) where
  | reading
  | sending (query : Query Req)
  | awaiting (query : Query Req)
  | writing (response : Resp)

/-- What has passed in a session: the bytes taken off the stream, the bodies of the requests
and of the responses, of which the last may have gone out in part, the bytes put on the line,
and how it ended. -/
structure Session where
  taken : Bytes
  frames : List Bytes
  replies : List Bytes
  wire : Bytes
  ending : Option FrameError

def Session.fresh : Session := ⟨[], [], [], [], none⟩

structure Mgmt (Req Resp Router : Type) where
  input : Stream
  phase : Phase Req Resp
  request : Option (Query Req)
  response : Option (Query Req × Resp)
  replying : Option (Query Req × Resp)
  router : Router
  session : Session
  past : List Session
  handled : List (Query Req × Resp)

/-- A turn of one of the two loops, as far as its next wait. -/
inductive Turn where
  | read
  | send
  | receive
  | write (out : WriteOutcome)
  | routerRecv
  | routerReply

section Serve
variable {Req Resp Router : Type}

/-- A response that cannot be framed is answered with an error. -/
def Api.framable (api : Api Req Resp Router) (response : Resp) : Resp :=
  if maxFrameLen < api.encodedLen response then api.errorResponse "response too large"
  else response

namespace Mgmt

def start (input : Stream) (router : Router) : Mgmt Req Resp Router :=
  ⟨input, .reading, none, none, none, router, .fresh, [], []⟩

/-- The bytes between two points of the stream. -/
def took (s : Mgmt Req Resp Router) (input : Stream) : Bytes :=
  s.input.bytes.take (s.input.bytes.length - input.bytes.length)

/-- `serve` returns and is called again. -/
def endSession (s : Mgmt Req Resp Router) (session : Session) (e : FrameError) :
    Mgmt Req Resp Router :=
  { s with
    phase := .reading
    past := s.past ++ [{ session with ending := some e }]
    session := .fresh }

def read (api : Api Req Resp Router) (s : Mgmt Req Resp Router) : Mgmt Req Resp Router :=
  match readFrame s.input with
  | none => s
  | some (.error e, input) =>
    { s with input := input }.endSession
      { s.session with taken := s.session.taken ++ s.took input } e
  | some (.ok body, input) =>
    let session := { s.session with
      taken := s.session.taken ++ s.took input
      frames := s.session.frames ++ [body] }
    match api.decode body with
    | some request =>
      { s with
        input := input
        session := session
        phase := .sending ⟨s.past.length, s.session.frames.length, request⟩ }
    | none =>
      { s with
        input := input
        session := session
        phase := .writing (api.framable (api.errorResponse "malformed request")) }

def write (api : Api Req Resp Router) (s : Mgmt Req Resp Router) (response : Resp)
    (out : WriteOutcome) : Mgmt Req Resp Router :=
  let body := api.encode response
  let written := writeFrame body out
  let session := { s.session with
    replies := s.session.replies ++ if maxFrameLen < body.length then [] else [body]
    wire := s.session.wire ++ written.2 }
  match written.1 with
  | .ok () => { s with phase := .reading, session := session }
  | .error e => s.endSession session e

/-- A turn that cannot be taken, since a channel is full or empty or the loop waits for
something else, leaves all as it is. -/
def step (api : Api Req Resp Router) (s : Mgmt Req Resp Router) : Turn → Mgmt Req Resp Router
  | .read =>
    match s.phase with
    | .reading => s.read api
    | _ => s
  | .send =>
    match s.phase, s.request with
    | .sending query, none => { s with request := some query, phase := .awaiting query }
    | _, _ => s
  | .receive =>
    match s.phase, s.response with
    | .awaiting _, some reply =>
      { s with response := none, phase := .writing (api.framable reply.2) }
    | _, _ => s
  | .write out =>
    match s.phase with
    | .writing response => s.write api response out
    | _ => s
  | .routerRecv =>
    match s.replying, s.request with
    | none, some query =>
      let answered := api.answer s.router query.request
      { s with
        request := none
        replying := some (query, answered.1)
        router := answered.2
        handled := s.handled ++ [(query, answered.1)] }
    | _, _ => s
  | .routerReply =>
    match s.replying, s.response with
    | some reply, none => { s with response := some reply, replying := none }
    | _, _ => s

def sessions (s : Mgmt Req Resp Router) : List Session := s.past ++ [s.session]

end Mgmt

/-! ### What a session is -/

/-- A response answers a request of a session: by an error that the serve loop makes, or by what
the router said to that very request. -/
def Answers (api : Api Req Resp Router) (handled : List (Query Req × Resp))
    (session position : Nat) (body reply : Bytes) : Prop :=
  match api.decode body with
  | none => reply = api.encode (api.framable (api.errorResponse "malformed request"))
  | some request => ∃ response, (⟨session, position, request⟩, response) ∈ handled ∧
      reply = api.encode (api.framable response)

/-- Queries in the order in which they were sent. -/
def Query.Before (q q' : Query Req) : Prop :=
  q.session < q'.session ∨ q.session = q'.session ∧ q.position < q'.position

/-- A length prefix that ends a session. -/
def BadPrefix (bytes : Bytes) : Prop :=
  bytes.length = 4 ∧ (lenOf bytes = 0 ∨ maxFrameLen < lenOf bytes)

structure SessionOk (api : Api Req Resp Router) (handled : List (Query Req × Resp))
    (index : Nat) (session : Session) : Prop where
  framed : ∀ body ∈ session.frames, Framed body
  taken : ∃ rest, session.taken = session.frames.flatMap frameBytes ++ rest ∧
    (session.ending = none → rest = [])
  wire : session.wire <+: session.replies.flatMap frameBytes
  whole : session.ending = none → session.wire = session.replies.flatMap frameBytes
  fits : ∀ reply ∈ session.replies, reply.length ≤ maxFrameLen
  answers : ∀ position reply, session.replies[position]? = some reply →
    ∃ body, session.frames[position]? = some body ∧
      Answers api handled index position body reply

section Session
variable {api : Api Req Resp Router} {handled handled' : List (Query Req × Resp)}
  {index position : Nat} {session : Session} {body reply : Bytes}

theorem Answers.mono (h : Answers api handled index position body reply)
    (hsub : ∀ q ∈ handled, q ∈ handled') : Answers api handled' index position body reply := by
  unfold Answers at h ⊢
  cases hdecode : api.decode body with
  | none =>
    rw [hdecode] at h
    exact h
  | some request =>
    rw [hdecode] at h
    obtain ⟨response, hmem, hreply⟩ := h
    exact ⟨response, hsub _ hmem, hreply⟩

theorem SessionOk.mono (h : SessionOk api handled index session)
    (hsub : ∀ q ∈ handled, q ∈ handled') : SessionOk api handled' index session := by
  refine ⟨h.framed, h.taken, h.wire, h.whole, h.fits, ?_⟩
  intro position reply hreply
  obtain ⟨body, hbody, hanswers⟩ := h.answers position reply hreply
  exact ⟨body, hbody, hanswers.mono hsub⟩

theorem SessionOk.fresh : SessionOk api handled index .fresh :=
  ⟨by simp [Session.fresh], ⟨[], rfl, fun _ => rfl⟩, List.prefix_rfl, fun _ => rfl,
    by simp [Session.fresh], by simp [Session.fresh]⟩

/-- A session ends in the middle of a frame it reads. -/
theorem SessionOk.endRead (h : SessionOk api handled index session) (lost : Bytes)
    (e : FrameError) : SessionOk api handled index
      { session with taken := session.taken ++ lost, ending := some e } := by
  obtain ⟨rest, htaken, _⟩ := h.taken
  refine ⟨h.framed, ⟨rest ++ lost, ?_, nofun⟩, h.wire, nofun, h.fits, h.answers⟩
  change session.taken ++ lost = _
  rw [htaken, List.append_assoc]

/-- Or with a response that it does not write. -/
theorem SessionOk.endWrite (h : SessionOk api handled index session) (e : FrameError) :
    SessionOk api handled index { session with ending := some e } := by
  obtain ⟨rest, htaken, _⟩ := h.taken
  exact ⟨h.framed, ⟨rest, htaken, nofun⟩, h.wire, nofun, h.fits, h.answers⟩

theorem SessionOk.read (h : SessionOk api handled index session) (hopen : session.ending = none)
    (hbody : Framed body) : SessionOk api handled index
      { session with
        taken := session.taken ++ frameBytes body, frames := session.frames ++ [body] } := by
  obtain ⟨rest, htaken, hrest⟩ := h.taken
  obtain rfl := hrest hopen
  refine ⟨?_, ⟨[], ?_, fun _ => rfl⟩, h.wire, h.whole, h.fits, ?_⟩
  · intro b hb
    rcases List.mem_append.mp hb with hb | hb
    · exact h.framed b hb
    · rw [List.mem_singleton.mp hb]
      exact hbody
  · change session.taken ++ frameBytes body = (session.frames ++ [body]).flatMap frameBytes ++ []
    rw [htaken, List.append_nil, List.append_nil, List.flatMap_append]
    simp
  · intro position reply hreply
    obtain ⟨b, hb, hanswers⟩ := h.answers position reply hreply
    refine ⟨b, ?_, hanswers⟩
    exact List.getElem?_append_left (List.getElem?_eq_some_iff.mp hb).1 ▸ hb

/-- A response goes out, whole unless the session ends with it. -/
theorem SessionOk.answered (h : SessionOk api handled index session)
    (hopen : session.ending = none) {part : Bytes} {ending : Option FrameError}
    (hpart : part <+: frameBytes reply) (hwhole : ending = none → part = frameBytes reply)
    (hfits : reply.length ≤ maxFrameLen)
    (hbody : session.frames[session.replies.length]? = some body)
    (hanswers : Answers api handled index session.replies.length body reply) :
    SessionOk api handled index
      { session with
        replies := session.replies ++ [reply], wire := session.wire ++ part
        ending := ending } := by
  obtain ⟨rest, htaken, hrest⟩ := h.taken
  have hwire := h.whole hopen
  have hflat : (session.replies ++ [reply]).flatMap frameBytes =
      session.wire ++ frameBytes reply := by
    rw [hwire, List.flatMap_append]
    simp
  refine ⟨h.framed, ⟨rest, htaken, fun _ => hrest hopen⟩, ?_, ?_, ?_, ?_⟩
  · change session.wire ++ part <+: (session.replies ++ [reply]).flatMap frameBytes
    rw [hflat]
    exact (List.prefix_append_right_inj _).mpr hpart
  · intro hending
    change session.wire ++ part = (session.replies ++ [reply]).flatMap frameBytes
    rw [hflat, hwhole hending]
  · intro r hr
    rcases List.mem_append.mp hr with hr | hr
    · exact h.fits r hr
    · rw [List.mem_singleton.mp hr]
      exact hfits
  · intro position r hr
    change (session.replies ++ [reply])[position]? = some r at hr
    by_cases hlast : position < session.replies.length
    · rw [List.getElem?_append_left hlast] at hr
      exact h.answers position r hr
    · obtain ⟨hlt, hget⟩ := List.getElem?_eq_some_iff.mp hr
      rw [List.length_append, List.length_singleton] at hlt
      obtain rfl : position = session.replies.length := by omega
      rw [List.getElem_concat_length rfl] at hget
      rw [← hget]
      exact ⟨body, hbody, hanswers⟩

end Session

/-! ### The two channels -/

namespace Mgmt

variable (api : Api Req Resp Router) (s : Mgmt Req Resp Router)

def Quiet : Prop := s.request = none ∧ s.response = none ∧ s.replying = none

/-- The router was asked nothing of this session from a position on. -/
def AskedBefore (position : Nat) : Prop :=
  ∀ h ∈ s.handled, h.1.session < s.past.length ∨
    h.1.session = s.past.length ∧ h.1.position < position

/-- The query is for the last frame of the session, the one that has no reply yet. -/
def Outstanding (query : Query Req) : Prop :=
  query.session = s.past.length ∧ query.position = s.session.replies.length ∧
    s.session.frames.length = s.session.replies.length + 1 ∧
    ∃ body, s.session.frames[s.session.replies.length]? = some body ∧
      api.decode body = some query.request

/-- The query is in one place: on its way to the router, at the router, or answered and on its
way back. -/
def InFlight (query : Query Req) : Prop :=
  (s.request = some query ∧ s.response = none ∧ s.replying = none ∧
    s.AskedBefore s.session.replies.length) ∨
  ∃ response, s.request = none ∧ (query, response) ∈ s.handled ∧
    s.AskedBefore s.session.frames.length ∧
    (s.replying = some (query, response) ∧ s.response = none ∨
      s.replying = none ∧ s.response = some (query, response))

def PhaseOk : Prop :=
  match s.phase with
  | .reading => s.Quiet ∧ s.session.frames.length = s.session.replies.length ∧
      s.AskedBefore s.session.frames.length
  | .sending query => s.Quiet ∧ s.Outstanding api query ∧
      s.AskedBefore s.session.replies.length
  | .awaiting query => s.Outstanding api query ∧ s.InFlight query
  | .writing response => s.Quiet ∧ s.AskedBefore s.session.frames.length ∧
      s.session.frames.length = s.session.replies.length + 1 ∧
      ∃ body, s.session.frames[s.session.replies.length]? = some body ∧
        Answers api s.handled s.past.length s.session.replies.length body
          (api.encode response)

structure Inv : Prop where
  past : ∀ index session, s.past[index]? = some session → SessionOk api s.handled index session
  current : SessionOk api s.handled s.past.length s.session
  ending : s.session.ending = none
  order : (s.handled.map Prod.fst).Pairwise Query.Before
  phase : s.PhaseOk api

variable {api s} {input : Stream}

theorem took_eq {part : Bytes} (h : s.input.bytes = part ++ input.bytes) :
    s.took input = part := by
  rw [took, h, List.length_append, Nat.add_sub_cancel, List.take_left]

theorem inv_start (router : Router) : Inv api (start input router) where
  past := by
    intro index session h
    cases h
  current := SessionOk.fresh
  ending := rfl
  order := List.Pairwise.nil
  phase := ⟨⟨rfl, rfl, rfl⟩, rfl, nofun⟩

/-- Between sessions nothing is left in a channel, and nothing of the old ones changes. -/
theorem Inv.endSession (h : Inv api s) (hquiet : s.Quiet)
    (hasked : s.AskedBefore s.session.frames.length) {session : Session} {e : FrameError}
    (hsession : SessionOk api s.handled s.past.length { session with ending := some e }) :
    Inv api (s.endSession session e) where
  past := by
    intro index session' hindex
    change (s.past ++ [{ session with ending := some e }])[index]? = some session' at hindex
    by_cases hlast : index < s.past.length
    · rw [List.getElem?_append_left hlast] at hindex
      exact h.past index session' hindex
    · obtain ⟨hlt, hget⟩ := List.getElem?_eq_some_iff.mp hindex
      rw [List.length_append, List.length_singleton] at hlt
      obtain rfl : index = s.past.length := by omega
      rw [List.getElem_concat_length rfl] at hget
      rw [← hget]
      exact hsession
  current := SessionOk.fresh
  ending := rfl
  order := h.order
  phase := by
    refine ⟨hquiet, rfl, ?_⟩
    intro q hq
    left
    change q.1.session < (s.past ++ [{ session with ending := some e }]).length
    rw [List.length_append, List.length_singleton]
    rcases hasked q hq with hlt | ⟨heq, _⟩
    · omega
    · omega

theorem Inv.read (h : Inv api s) (hphase : s.phase = .reading) : Inv api (s.read api) := by
  have hok := h.phase
  unfold PhaseOk at hok
  rw [hphase] at hok
  obtain ⟨hquiet, hlen, hasked⟩ := hok
  unfold Mgmt.read
  split
  · exact h
  · rename_i e input heq
    obtain ⟨lost, hlost⟩ := readFrame_error heq
    rw [took_eq hlost]
    have hmoved : Inv api { s with input := input } := ⟨h.past, h.current, h.ending, h.order, by
      unfold PhaseOk
      dsimp only
      rw [hphase]
      exact ⟨hquiet, hlen, hasked⟩⟩
    exact hmoved.endSession hquiet hasked (h.current.endRead lost e)
  · rename_i body input heq
    obtain ⟨hframed, hbytes⟩ := readFrame_ok heq
    have hcurrent := h.current.read h.ending hframed
    have hlast : (s.session.frames ++ [body])[s.session.replies.length]? = some body := by
      rw [← hlen]
      exact List.getElem?_concat_length
    have hlength : (s.session.frames ++ [body]).length = s.session.replies.length + 1 := by
      rw [List.length_append, List.length_singleton, hlen]
    rw [took_eq hbytes]
    dsimp only
    cases hdecode : api.decode body with
    | some request =>
      refine ⟨h.past, hcurrent, h.ending, h.order, hquiet,
        ⟨rfl, hlen, hlength, body, hlast, hdecode⟩, ?_⟩
      rw [← hlen]
      exact hasked
    | none =>
      refine ⟨h.past, hcurrent, h.ending, h.order, hquiet, ?_, hlength, body, hlast, ?_⟩
      · intro q hq
        rcases hasked q hq with hlt | ⟨heq', hlt⟩
        · exact Or.inl hlt
        · refine Or.inr ⟨heq', ?_⟩
          change q.1.position < (s.session.frames ++ [body]).length
          omega
      · unfold Answers
        rw [hdecode]

theorem Inv.write (h : Inv api s) {response : Resp} (hphase : s.phase = .writing response)
    (out : WriteOutcome) : Inv api (s.write api response out) := by
  have hok := h.phase
  unfold PhaseOk at hok
  rw [hphase] at hok
  obtain ⟨hquiet, hasked, hlen, body, hbody, hanswers⟩ := hok
  unfold Mgmt.write
  dsimp only
  by_cases hlong : maxFrameLen < (api.encode response).length
  · rw [writeFrame_long hlong, if_pos hlong, List.append_nil, List.append_nil]
    exact h.endSession hquiet hasked (h.current.endWrite _)
  · have hfits := Nat.le_of_not_lt hlong
    have hpart := writeFrame_prefix (api.encode response) out
    rw [if_neg hlong]
    cases hwrite : (writeFrame (api.encode response) out).1 with
    | error e =>
      exact h.endSession hquiet hasked
        (h.current.answered h.ending hpart nofun hfits hbody hanswers)
    | ok u =>
      have hwire := (writeFrame_ok hwrite).2
      refine ⟨h.past, h.current.answered h.ending hpart (fun _ => hwire) hfits hbody hanswers,
        h.ending, h.order, hquiet, ?_, hasked⟩
      change s.session.frames.length = (s.session.replies ++ [api.encode response]).length
      rw [List.length_append, List.length_singleton, hlen]

theorem InFlight.handled_of_received {query : Query Req} (h : s.InFlight query)
    {reply : Query Req × Resp} (hresponse : s.response = some reply) :
    s.request = none ∧ s.replying = none ∧ reply.1 = query ∧ reply ∈ s.handled ∧
      s.AskedBefore s.session.frames.length := by
  rcases h with ⟨_, hnone, _⟩ | ⟨response, hrequest, hmem, hasked, ⟨_, hnone⟩ | ⟨hidle, hsome⟩⟩
  · rw [hresponse] at hnone
    cases hnone
  · rw [hresponse] at hnone
    cases hnone
  · obtain rfl := Option.some.inj (hresponse.symm.trans hsome)
    exact ⟨hrequest, hidle, rfl, hmem, hasked⟩

/-- The loop takes what the router said to its own query. -/
theorem Inv.receive (h : Inv api s) {query : Query Req} {reply : Query Req × Resp}
    (hphase : s.phase = .awaiting query) (hresponse : s.response = some reply) :
    Inv api { s with response := none, phase := .writing (api.framable reply.2) } := by
  have hok := h.phase
  unfold PhaseOk at hok
  rw [hphase] at hok
  obtain ⟨⟨hsession, hposition, hlen, body, hbody, hdecode⟩, hflight⟩ := hok
  obtain ⟨hrequest, hidle, hquery, hmem, hasked⟩ := hflight.handled_of_received hresponse
  refine ⟨h.past, h.current, h.ending, h.order, ⟨hrequest, rfl, hidle⟩, hasked, hlen, body, hbody,
    ?_⟩
  have htag : reply = (⟨s.past.length, s.session.replies.length, query.request⟩, reply.2) := by
    rw [← hsession, ← hposition, ← hquery]
  unfold Answers
  rw [hdecode]
  refine ⟨reply.2, ?_, rfl⟩
  rw [← htag]
  exact hmem

theorem Inv.send (h : Inv api s) {query : Query Req} (hphase : s.phase = .sending query) :
    Inv api { s with request := some query, phase := .awaiting query } := by
  have hok := h.phase
  unfold PhaseOk at hok
  rw [hphase] at hok
  obtain ⟨⟨_, hresponse, hidle⟩, hout, hasked⟩ := hok
  exact ⟨h.past, h.current, h.ending, h.order, hout, Or.inl ⟨rfl, hresponse, hidle, hasked⟩⟩

/-- With something in a channel or at the router the loop waits for the answer. -/
theorem Inv.awaiting_of_not_quiet (h : Inv api s) (hquiet : ¬s.Quiet) :
    ∃ query, s.phase = .awaiting query ∧ s.Outstanding api query ∧ s.InFlight query := by
  have hok := h.phase
  unfold PhaseOk at hok
  cases hphase : s.phase with
  | reading =>
    rw [hphase] at hok
    exact absurd hok.1 hquiet
  | sending query =>
    rw [hphase] at hok
    exact absurd hok.1 hquiet
  | awaiting query =>
    rw [hphase] at hok
    exact ⟨query, rfl, hok⟩
  | writing response =>
    rw [hphase] at hok
    exact absurd hok.1 hquiet

theorem Inv.routerRecv (h : Inv api s) {query : Query Req} (hrequest : s.request = some query)
    (response : Resp) (router : Router) :
    Inv api { s with
      request := none
      replying := some (query, response)
      router := router
      handled := s.handled ++ [(query, response)] } := by
  have hquiet : ¬s.Quiet := by
    rintro ⟨hnone, _⟩
    rw [hrequest] at hnone
    cases hnone
  obtain ⟨query', hphase, hout, hflight⟩ := h.awaiting_of_not_quiet hquiet
  have hsession := hout.1
  have hposition := hout.2.1
  have hlen := hout.2.2.1
  rcases hflight with ⟨hsome, hresponse, _, hasked⟩ | ⟨_, hnone, _⟩
  · obtain rfl := Option.some.inj (hrequest.symm.trans hsome)
    have hsub : ∀ q ∈ s.handled, q ∈ s.handled ++ [(query, response)] :=
      fun q hq => List.mem_append_left _ hq
    have hlast : (query, response) ∈ s.handled ++ [(query, response)] :=
      List.mem_append_right _ (List.mem_singleton_self _)
    refine ⟨fun index session hindex => (h.past index session hindex).mono hsub,
      h.current.mono hsub, h.ending, ?_, ?_⟩
    · change ((s.handled ++ [(query, response)]).map Prod.fst).Pairwise Query.Before
      rw [List.map_append, List.pairwise_append]
      refine ⟨h.order, List.pairwise_singleton _ _, ?_⟩
      intro q hq q' hq'
      obtain ⟨asked, hmem, rfl⟩ := List.mem_map.mp hq
      rw [List.mem_singleton.mp hq']
      unfold Query.Before
      rw [hsession, hposition]
      exact hasked asked hmem
    · unfold PhaseOk
      dsimp only
      rw [hphase]
      refine ⟨hout, Or.inr ⟨response, rfl, hlast, ?_, Or.inl ⟨rfl, hresponse⟩⟩⟩
      intro q hq
      rcases List.mem_append.mp hq with hq | hq
      · rcases hasked q hq with hlt | ⟨heq, hlt⟩
        · exact Or.inl hlt
        · refine Or.inr ⟨heq, ?_⟩
          change q.1.position < s.session.frames.length
          omega
      · rw [List.mem_singleton.mp hq]
        refine Or.inr ⟨hsession, ?_⟩
        change query.position < s.session.frames.length
        omega
  · rw [hrequest] at hnone
    cases hnone

theorem Inv.routerReply (h : Inv api s) {reply : Query Req × Resp}
    (hreplying : s.replying = some reply) :
    Inv api { s with response := some reply, replying := none } := by
  have hquiet : ¬s.Quiet := by
    rintro ⟨_, _, hnone⟩
    rw [hreplying] at hnone
    cases hnone
  obtain ⟨query, hphase, hout, hflight⟩ := h.awaiting_of_not_quiet hquiet
  refine ⟨h.past, h.current, h.ending, h.order, ?_⟩
  unfold PhaseOk
  dsimp only
  rw [hphase]
  refine ⟨hout, ?_⟩
  rcases hflight with ⟨_, _, hnone, _⟩ |
    ⟨response, hrequest, hmem, hasked, ⟨hsome, _⟩ | ⟨hnone, _⟩⟩
  · rw [hreplying] at hnone
    cases hnone
  · obtain rfl := Option.some.inj (hreplying.symm.trans hsome)
    exact Or.inr ⟨response, hrequest, hmem, hasked, Or.inr ⟨rfl, rfl⟩⟩
  · rw [hreplying] at hnone
    cases hnone

theorem Inv.step (h : Inv api s) (turn : Turn) : Inv api (s.step api turn) := by
  cases turn with
  | read =>
    unfold Mgmt.step
    dsimp only
    split
    · rename_i hphase
      exact h.read hphase
    · exact h
  | send =>
    unfold Mgmt.step
    dsimp only
    split
    · rename_i hphase _
      exact h.send hphase
    · exact h
  | receive =>
    unfold Mgmt.step
    dsimp only
    split
    · rename_i hphase hresponse
      exact h.receive hphase hresponse
    · exact h
  | write out =>
    unfold Mgmt.step
    dsimp only
    split
    · rename_i hphase
      exact h.write hphase out
    · exact h
  | routerRecv =>
    unfold Mgmt.step
    dsimp only
    split
    · rename_i hrequest
      exact h.routerRecv hrequest _ _
    · exact h
  | routerReply =>
    unfold Mgmt.step
    dsimp only
    split
    · rename_i hreplying _
      exact h.routerReply hreplying
    · exact h

theorem inv_run (input : Stream) (router : Router) (turns : List Turn) :
    Inv api (run (Mgmt.step api) (start input router) turns) :=
  invariant (inv_start router) fun _ turn h => h.step turn

theorem Inv.session (h : Inv api s) {index : Nat} {session : Session}
    (hindex : s.sessions[index]? = some session) : SessionOk api s.handled index session := by
  unfold sessions at hindex
  by_cases hlast : index < s.past.length
  · rw [List.getElem?_append_left hlast] at hindex
    exact h.past index session hindex
  · obtain ⟨hlt, hget⟩ := List.getElem?_eq_some_iff.mp hindex
    rw [List.length_append, List.length_singleton] at hlt
    obtain rfl : index = s.past.length := by omega
    rw [List.getElem_concat_length rfl] at hget
    rw [← hget]
    exact h.current

/-! ### The bytes of the stream -/

/-- The bytes that the sessions took off the stream, and the ones still to come. -/
def allBytes (s : Mgmt Req Resp Router) : Bytes := s.sessions.flatMap Session.taken ++ s.input.bytes

theorem allBytes_endSession (s : Mgmt Req Resp Router) (session : Session) (e : FrameError) :
    (s.endSession session e).allBytes =
      s.past.flatMap Session.taken ++ (session.taken ++ s.input.bytes) := by
  simp [allBytes, sessions, endSession, Session.fresh]

theorem allBytes_eq (s : Mgmt Req Resp Router) :
    s.allBytes = s.past.flatMap Session.taken ++ (s.session.taken ++ s.input.bytes) := by
  simp [allBytes, sessions]

theorem allBytes_read : (s.read api).allBytes = s.allBytes := by
  unfold Mgmt.read
  split
  · rfl
  · rename_i e input heq
    obtain ⟨lost, hlost⟩ := readFrame_error heq
    rw [allBytes_endSession, took_eq hlost, allBytes_eq, hlost]
    simp
  · rename_i body input heq
    obtain ⟨_, hbytes⟩ := readFrame_ok heq
    rw [took_eq hbytes]
    dsimp only
    cases api.decode body with
    | some request =>
      rw [allBytes_eq, allBytes_eq, hbytes]
      simp
    | none =>
      rw [allBytes_eq, allBytes_eq, hbytes]
      simp

theorem allBytes_write (response : Resp) (out : WriteOutcome) :
    (s.write api response out).allBytes = s.allBytes := by
  unfold Mgmt.write
  dsimp only
  split
  · rw [allBytes_eq, allBytes_eq]
  · rw [allBytes_endSession, allBytes_eq]

theorem allBytes_step (s : Mgmt Req Resp Router) (turn : Turn) :
    (s.step api turn).allBytes = s.allBytes := by
  cases turn with
  | read =>
    unfold Mgmt.step
    dsimp only
    split
    · exact allBytes_read
    · rfl
  | write out =>
    unfold Mgmt.step
    dsimp only
    split
    · exact allBytes_write _ out
    · rfl
  | send | receive | routerRecv | routerReply =>
    unfold Mgmt.step
    dsimp only
    split <;> rfl

theorem allBytes_run (turns : List Turn) :
    (run (Mgmt.step api) s turns).allBytes = s.allBytes := by
  induction turns using List.reverseRecOn with
  | nil => rfl
  | append_singleton turns turn ih => rw [run_append_singleton, allBytes_step, ih]

end Mgmt

/-! ### What stands before a prefix that ends a session -/

theorem lenOf_append {len : Nat} (h : len < 2 ^ 32) (rest : Bytes) :
    lenOf (lenPrefix len ++ rest) = len := lenOf_lenPrefix h

theorem frameBytes_inj {body body' rest rest' : Bytes} (h : Framed body) (h' : Framed body')
    (heq : frameBytes body ++ rest = frameBytes body' ++ rest') :
    body = body' ∧ rest = rest' := by
  have hmax : body.length < 2 ^ 32 := Nat.lt_of_le_of_lt h.2 (by decide)
  have hmax' : body'.length < 2 ^ 32 := Nat.lt_of_le_of_lt h'.2 (by decide)
  unfold frameBytes at heq
  rw [List.append_assoc, List.append_assoc] at heq
  have hlen := congrArg lenOf heq
  rw [lenOf_append hmax, lenOf_append hmax'] at hlen
  rw [hlen] at heq
  exact List.append_inj (List.append_cancel_left heq) hlen

theorem frames_before_bad {frames before : List Bytes} {rest bad post : Bytes}
    (hframes : ∀ body ∈ frames, Framed body) (hbefore : ∀ body ∈ before, Framed body)
    (hbad : BadPrefix bad)
    (heq : frames.flatMap frameBytes ++ rest = before.flatMap frameBytes ++ (bad ++ post)) :
    frames.length ≤ before.length := by
  induction before generalizing frames with
  | nil =>
    cases frames with
    | nil => exact Nat.le_refl _
    | cons body frames =>
      have hbody := hframes body List.mem_cons_self
      have hmax : body.length < 2 ^ 32 := Nat.lt_of_le_of_lt hbody.2 (by decide)
      have hpos : body.length ≠ 0 := by
        rw [Ne, List.length_eq_zero_iff]
        exact hbody.1
      rw [List.flatMap_cons, List.flatMap_nil, List.nil_append, frameBytes, List.append_assoc,
        List.append_assoc] at heq
      have hlead := (List.append_inj heq (by rw [length_lenPrefix, hbad.1])).1
      have hlen := lenOf_lenPrefix hmax
      rw [hlead] at hlen
      rcases hbad.2 with hzero | hlong
      · exact absurd (hlen.symm.trans hzero) hpos
      · rw [hlen] at hlong
        exact absurd hbody.2 (Nat.not_le.mpr hlong)
  | cons body' before ih =>
    cases frames with
    | nil => exact Nat.zero_le _
    | cons body frames =>
      rw [List.flatMap_cons, List.flatMap_cons, List.append_assoc, List.append_assoc] at heq
      obtain ⟨_, hrest⟩ := frameBytes_inj (hframes body List.mem_cons_self)
        (hbefore body' List.mem_cons_self) heq
      apply Nat.succ_le_succ
      exact ih (fun b hb => hframes b (List.mem_cons_of_mem _ hb))
        (fun b hb => hbefore b (List.mem_cons_of_mem _ hb)) hrest

theorem SessionOk.replies_le {api : Api Req Resp Router} {handled : List (Query Req × Resp)}
    {index : Nat} {session : Session} (h : SessionOk api handled index session) :
    session.replies.length ≤ session.frames.length := by
  by_contra hgt
  have hlt : session.frames.length < session.replies.length := Nat.lt_of_not_le hgt
  obtain ⟨body, hbody, _⟩ := h.answers _ _ (List.getElem?_eq_getElem hlt)
  exact absurd (List.getElem?_eq_some_iff.mp hbody).1 (Nat.lt_irrefl _)

/-- Whatever comes in and however the turns fall: what a session puts on the line are frames
whose bodies answer its requests by their places, cut short at most where it ended; none
answers anything behind a prefix that ended it; the router was asked once for each request, in
their order; the sessions share the bytes of the stream; and frames that are written are read. -/
theorem serve_paired (api : Api Req Resp Router) (input : Stream) (router : Router)
    (turns : List Turn) :
    (∀ index session,
      (run (Mgmt.step api) (.start input router) turns).sessions[index]? = some session →
      (∀ position reply, session.replies[position]? = some reply →
        reply.length ≤ maxFrameLen ∧
          ∃ body, session.frames[position]? = some body ∧
            Answers api (run (Mgmt.step api) (.start input router) turns).handled index position
              body reply) ∧
      session.wire <+: session.replies.flatMap frameBytes ∧
      (∃ rest, session.taken = session.frames.flatMap frameBytes ++ rest) ∧
      ∀ (before : List Bytes) (bad post : Bytes), (∀ body ∈ before, Framed body) → BadPrefix bad →
        session.taken = before.flatMap frameBytes ++ (bad ++ post) →
          session.replies.length ≤ before.length) ∧
    ((run (Mgmt.step api) (.start input router) turns).handled.map Prod.fst).Pairwise
      Query.Before ∧
    (run (Mgmt.step api) (.start input router) turns).allBytes = input.bytes ∧
    ∀ (bodies : List Bytes) (last : Bytes) (out : WriteOutcome)
      (line : Chunking (wireOf bodies ++ (writeFrame last out).2)) (more : Nat),
      readBodies (bodies.length + 1 + more) line.stream =
        (bodies ++ if OnWire last out then [last] else []).filter fun body =>
          decide (Framed body) := by
  have hinv : Mgmt.Inv api (run (Mgmt.step api) (.start input router) turns) :=
    Mgmt.inv_run input router turns
  refine ⟨?_, hinv.order, ?_, ?_⟩
  · intro index session hindex
    have hok := hinv.session hindex
    obtain ⟨rest, htaken, _⟩ := hok.taken
    refine ⟨?_, hok.wire, ⟨rest, htaken⟩, ?_⟩
    · intro position reply hreply
      exact ⟨hok.fits reply (List.mem_of_getElem? hreply), hok.answers position reply hreply⟩
    · intro before bad post hbefore hbad heq
      apply Nat.le_trans hok.replies_le
      exact frames_before_bad hok.framed hbefore hbad (htaken.symm.trans heq)
  · rw [Mgmt.allBytes_run]
    simp [Mgmt.allBytes, Mgmt.sessions, Mgmt.start, Session.fresh]
  · intro bodies last out line more
    exact readBodies_wire bodies last out more line.nonempty line.joined

end Serve

/-- Requests are bytes and come back as they are; those that begin with 0xff cannot be read. -/
def echo : Api Bytes Bytes Unit where
  decode body := if body.head? = some 0xff then none else some body
  encode response := response
  encodedLen response := response.length
  errorResponse message := message.toList.map fun ch => BitVec.ofNat 8 ch.toNat
  answer _ request := (request, ())

/-- A write fails, and the next session is answered for itself. -/
theorem serve_paired_echo :
    (run (Mgmt.step echo) (.start [.ok [0, 0, 0, 1, 7, 0, 0], .ok [0, 1, 8]] ())
      [.read, .send, .routerRecv, .routerReply, .receive, .write (.failed 2),
        .read, .send, .routerRecv, .routerReply, .receive, .write .done]).sessions.map
          Session.wire = [[0, 0], [0, 0, 0, 1, 8]] ∧
    (run (Mgmt.step echo) (.start [.ok [0, 0, 0, 1, 7, 0, 0], .ok [0, 1, 8]] ())
      [.read, .send, .routerRecv, .routerReply, .receive, .write (.failed 2),
        .read, .send, .routerRecv, .routerReply, .receive, .write .done]).allBytes =
      [0, 0, 0, 1, 7, 0, 0, 0, 1, 8] :=
  ⟨by decide, (serve_paired echo _ () _).2.2.1⟩

end Wayfinder.Server
