import Wayfinder.RouterRun
import Wayfinder.Auth.Latch

/-!
# The node's own revocation

A node goes inert at a poll only for a record it has taken in and that is in its window,
and it does go inert when the record that leads those aimed at its certificate is. The
history this is said of begins with the membership in force: installing one starts it
over.
-/

namespace Wayfinder

set_option autoImplicit false

open Table Latest

namespace CentralRouter

variable {e : Capacities} {a : AuthCapacities} {k : Crypto}

/-- The validly signed records naming this node that an OGM brings. -/
def servedOgm (k : Crypto) (r : CentralRouter e a) (frame : LinkFrame) : List RevocationRecord :=
  match packetTypeOf frame, r.auth with
  | some .ogm, some auth =>
    (auth.recordsOf k (.auth (.verifyOgm frame.payload))).filter (auth.serves k)
  | _, _ => []

/-- The validly signed records naming this node that an operation takes in. -/
def servedBy (k : Crypto) (r : CentralRouter e a) : RouterOp a → List RevocationRecord
  | .ingestRevocation record _ => r.auth.elim [] fun auth => [record].filter (auth.serves k)
  | .handleFrame _ ifaceIdx frame _ _ _ =>
    if r.admitsFrame ifaceIdx frame then r.servedOgm k frame else []
  | _ => []

end CentralRouter

/-- A router, the records naming it that it has taken in since its membership was
installed, and the certificates it has run under since then. -/
structure Served (e : Capacities) (a : AuthCapacities) where
  router : CentralRouter e a
  heard : List RevocationRecord
  certs : List MembershipCert

namespace Served

variable {e : Capacities} {a : AuthCapacities} {k : Crypto}

def step (k : Crypto) (w : Served e a) (op : RouterOp a) : Served e a :=
  let router := w.router.step k op
  match op with
  | .setAuth auth => ⟨router, [], [auth.cert]⟩
  | _ => ⟨router, w.heard ++ w.router.servedBy k op,
      (router.auth.map OgmAuth.cert).toList ++ w.certs⟩

def start (e : Capacities) (a : AuthCapacities) (selfIdent : Mac) : Served e a :=
  ⟨.withCapacities e a selfIdent, [], []⟩

/-- A membership is installed with nothing latched, and the clock, once known, stays
known and does not go back. -/
def Lawful (w : Served e a) : RouterOp a → Prop
  | .setAuth auth => auth.selfRevocation = none
  | .setAuthTime _ wall => ∀ auth ∈ w.router.auth, OgmAuth.ClockForward auth.wall wall
  | _ => True

instance decidableLawful (w : Served e a) : (op : RouterOp a) → Decidable (w.Lawful op)
  | .setAuth _ => inferInstanceAs (Decidable (_ = _))
  | .setAuthTime .. => inferInstanceAs (Decidable (∀ auth ∈ w.router.auth, _ → _ ∧ _))
  | .noteSelfRevoked _ | .setRequireAuth _ | .setLazyCertDistribution _ | .setLinkFeatures ..
  | .takeSelfRevocation | .ingestRevocation .. | .handleFrame .. | .poll .. | .pollKeepalive _
  | .pollChallenge .. | .takeRenewedCert | .takeRenewalRequest | .driver _ | .engine _ =>
    inferInstanceAs (Decidable True)

end Served

namespace CentralRouter

variable {e : Capacities} {a : AuthCapacities} {k : Crypto}

def Armed (heard : List RevocationRecord) (certs : List MembershipCert)
    (r : CentralRouter e a) : Prop :=
  ∀ auth, r.auth = some auth → auth.Armed heard certs

section Armed
variable {r r' : CentralRouter e a} {heard : List RevocationRecord}
  {certs : List MembershipCert}

theorem Armed.of_auth (h : r.Armed heard certs) (hauth : r'.auth = r.auth) :
    r'.Armed heard certs := by
  intro auth hsome
  exact h auth (hauth ▸ hsome)

/-- A step of the auth state alone. -/
theorem Armed.of_some {auth auth' : OgmAuth a} (h : r.Armed heard certs)
    (hauth : r.auth = some auth) (hkept : OgmAuth.LatchKept auth auth')
    (hafter : r'.auth = some auth') : r'.Armed heard certs := by
  intro s hs
  rw [hafter] at hs
  obtain rfl := Option.some.inj hs
  exact (h auth hauth).of_kept hkept

theorem Armed.map (h : r.Armed heard certs) (f : OgmAuth a → OgmAuth a)
    (hkept : ∀ auth, OgmAuth.LatchKept auth (f auth)) (hafter : r'.auth = r.auth.map f) :
    r'.Armed heard certs := by
  intro s hs
  rw [hafter] at hs
  obtain ⟨auth, hauth, rfl⟩ := Option.map_eq_some_iff.mp hs
  exact (h auth hauth).of_kept (hkept auth)

theorem Armed.applySelfRevocation (h : r.Armed heard certs) :
    r.applySelfRevocation.1.Armed heard certs := by
  unfold CentralRouter.applySelfRevocation
  cases hauth : r.auth with
  | none =>
    intro auth hsome
    exact h auth hsome
  | some auth =>
    have htaken := (h auth hauth).takeSelfRevoked
    dsimp only
    generalize auth.takeSelfRevoked = taken at htaken
    obtain ⟨auth', _ | record⟩ := taken
    · intro s hs
      obtain rfl := Option.some.inj hs
      exact htaken rfl
    · intro s hs
      cases hs

theorem Armed.actOnTrickleHint (h : r.Armed heard certs) (now : Duration) :
    (r.actOnTrickleHint now).Armed heard certs := by
  unfold CentralRouter.actOnTrickleHint
  cases hauth : r.auth with
  | none =>
    intro auth hsome
    exact h auth hsome
  | some auth =>
    have hkept : OgmAuth.LatchKept auth auth.takeTrickleResetHint.1 := ⟨rfl, rfl, rfl, rfl⟩
    dsimp only
    generalize auth.takeTrickleResetHint = taken at hkept
    obtain ⟨auth', _ | _⟩ := taken
    · exact h.of_some hauth hkept rfl
    · exact h.of_some hauth hkept rfl

theorem servedOgm_eq_nil {frame : LinkFrame} (h : packetTypeOf frame ≠ some .ogm) :
    r.servedOgm k frame = [] := by
  unfold servedOgm
  split
  · rename_i htype _
    exact absurd htype h
  · rfl

theorem Armed.judgeFrame (h : r.Armed heard certs) (now : Duration) (ifaceIdx : Nat)
    (frame : LinkFrame) (txLen : Nat) :
    (r.judgeFrame k now ifaceIdx frame txLen).1.Armed (heard ++ r.servedOgm k frame) certs := by
  have hquiet : ∀ {r' : CentralRouter e a}, packetTypeOf frame ≠ some .ogm →
      r'.Armed heard certs → r'.Armed (heard ++ r.servedOgm k frame) certs := by
    intro r' hframe hr'
    rw [servedOgm_eq_nil hframe, List.append_nil]
    exact hr'
  unfold CentralRouter.judgeFrame
  split
  · rename_i auth htype hauth
    have hogm := (h auth hauth).verifyOgm (k := k) frame.payload
    have hserved : r.servedOgm k frame =
        (auth.recordsOf k (.auth (.verifyOgm frame.payload))).filter (auth.serves k) := by
      rw [servedOgm, htype, hauth]
    rw [hserved]
    generalize auth.verifyOgm k frame.payload = verdict at hogm
    obtain ⟨auth', verdict⟩ := verdict
    cases verdict with
    | verified | rejected =>
      intro s hs
      obtain rfl := Option.some.inj hs
      exact hogm
    | needCert orig fp =>
      intro s hs
      obtain rfl := Option.some.inj hs
      exact hogm.of_kept (auth'.buildCertReqFrame_latchKept k orig fp frame.src txLen)
  · rename_i auth htype hauth
    have hkept : OgmAuth.LatchKept auth (auth.verifyKeepalive k frame.src frame.payload).1 :=
      (OgmAuth.after_keysKept (.verifyKeepalive frame.src frame.payload) (by simp)
        (by simp)).latchKept
    refine hquiet (by simp [htype]) ?_
    generalize auth.verifyKeepalive k frame.src frame.payload = verdict at hkept
    obtain ⟨auth', _ | _⟩ := verdict
    · exact h.of_some hauth hkept rfl
    · exact h.of_some hauth hkept rfl
  · rename_i htype
    refine hquiet (by simp [htype]) ?_
    split <;> exact h
  · rename_i htype _
    exact hquiet (by simp [htype]) h
  · rename_i auth htype hauth
    refine hquiet (by simp [htype]) ?_
    split
    · exact h
    have hkept : OgmAuth.LatchKept auth
        (auth.verifyChallengeResponse k frame.src (innerBody frame.payload)).1 :=
      (OgmAuth.after_keysKept (.verifyChallengeResponse frame.src (innerBody frame.payload))
        (by simp) (by simp)).latchKept
    generalize auth.verifyChallengeResponse k frame.src (innerBody frame.payload) = verdict
      at hkept
    obtain ⟨auth', _ | _⟩ := verdict
    · exact h.of_some hauth hkept rfl
    · exact h.of_some hauth hkept rfl
  · have hserved : r.servedOgm k frame = [] := by
      unfold servedOgm
      split
      · simp_all
      · rfl
    rw [hserved, List.append_nil]
    exact h

/-- A packet for this node may bring a renewal, and then a certificate. -/
theorem Armed.deliver (h : r.Armed heard certs) (now : Duration) (frame : LinkFrame)
    (replyLen : Nat) {auth' : OgmAuth a}
    (hafter : (r.deliver k now frame replyLen).1.auth = some auth') :
    auth'.Armed heard (auth'.cert :: certs) := by
  have hkept : ∀ {auth : OgmAuth a}, r.auth = some auth → OgmAuth.LatchKept auth auth' →
      auth'.Armed heard (auth'.cert :: certs) :=
    fun hauth hlatch => ((h _ hauth).of_kept hlatch).mono _
  unfold CentralRouter.deliver at hafter
  dsimp only at hafter
  split at hafter
  · rename_i auth _ hauth
    obtain rfl := Option.some.inj hafter
    exact (h auth hauth).renew _
  · rename_i auth _ hauth
    obtain rfl := Option.some.inj hafter
    exact hkept hauth (OgmAuth.handleRenewReq_booked k auth _).latchKept
  · rename_i auth _ hauth
    obtain rfl := Option.some.inj hafter
    exact hkept hauth (auth.ingestCertReply_latchKept k _)
  · rename_i auth _ hauth
    obtain rfl := Option.some.inj hafter
    exact hkept hauth (auth.answerCertRequest_latchKept k r.batman now _ replyLen)
  all_goals exact hkept hafter (.refl _)

theorem Armed.flushParked (h : r.Armed heard certs) (now : Duration) (frame : LinkFrame)
    (replyLen : Nat) : (r.flushParked now frame replyLen).1.Armed heard certs := by
  unfold CentralRouter.flushParked
  split
  · rename_i ogm _ auth _ _ hauth
    exact h.of_some hauth (auth.flushPendingCertReply_latchKept r.batman now ogm.orig replyLen) rfl
  · exact h

theorem Armed.routeFrame (h : r.Armed heard certs) (now : Duration) (ifaceIdx : Nat)
    (frame : LinkFrame) (localQuality : Option U8) (txLen : Nat) (out : FrameSink)
    {auth' : OgmAuth a}
    (hafter : (r.routeFrame k now ifaceIdx frame localQuality txLen out).1.auth = some auth') :
    auth'.Armed heard (auth'.cert :: certs) := by
  have hengine : CentralRouter.Armed heard certs
      { r with batman := (r.batman.handleRx now frame localQuality txLen out).engine } :=
    h.of_auth rfl
  unfold CentralRouter.routeFrame at hafter
  dsimp only at hafter
  split at hafter
  · split at hafter
    · split at hafter <;> exact (hengine auth' hafter).mono _
    · exact (hengine.flushParked now frame txLen auth' hafter).mono _
  · exact (hengine auth' hafter).mono _
  · exact hengine.deliver now frame txLen hafter
  · exact (hengine auth' hafter).mono _

theorem Armed.handleFrame (h : r.Armed heard certs) (now : Duration) (ifaceIdx : Nat)
    (frame : LinkFrame) (localQuality : Option U8) (txLen : Nat) (out : FrameSink)
    {auth' : OgmAuth a}
    (hafter : (r.handleFrame k now ifaceIdx frame localQuality txLen out).1.auth = some auth') :
    auth'.Armed (heard ++ r.servedBy k (.handleFrame now ifaceIdx frame localQuality txLen out))
      (auth'.cert :: certs) := by
  rw [servedBy]
  unfold CentralRouter.handleFrame at hafter
  split at hafter
  · rename_i hgate
    rw [if_neg (by simpa using hgate), List.append_nil]
    exact (h auth' hafter).mono _
  rename_i hgate
  rw [if_pos (by simpa using hgate)]
  have hjudged := h.judgeFrame (k := k) now ifaceIdx frame txLen
  generalize r.judgeFrame k now ifaceIdx frame txLen = judged at hjudged hafter
  obtain ⟨r₁, _ | outcome⟩ := judged
  · have happlied := hjudged.applySelfRevocation
    dsimp only at hafter happlied
    generalize r₁.applySelfRevocation = applied at happlied hafter
    obtain ⟨r₂, _ | _⟩ := applied
    · exact (happlied.actOnTrickleHint now).routeFrame now ifaceIdx frame localQuality txLen out
        hafter
    · exact (happlied auth' hafter).mono _
  · exact (hjudged auth' hafter).mono _

theorem Armed.ingestRevocation (h : r.Armed heard certs) (record : RevocationRecord)
    (now : Duration) :
    (r.ingestRevocation k record now).1.Armed
      (heard ++ r.servedBy k (.ingestRevocation record now)) certs := by
  rw [servedBy]
  unfold CentralRouter.ingestRevocation
  cases hauth : r.auth with
  | none =>
    intro auth hsome
    rw [hauth] at hsome
    cases hsome
  | some auth =>
    have hingested := (h auth hauth).ingest (k := k) record
    rw [Option.elim_some]
    dsimp only
    generalize auth.ingestRevocation k record = ingested at hingested
    obtain ⟨auth', newly⟩ := ingested
    have hlatched : CentralRouter.Armed (heard ++ [record].filter (auth.serves k)) certs
        { r with auth := some auth' } := by
      intro s hs
      obtain rfl := Option.some.inj hs
      exact hingested
    have happlied := hlatched.applySelfRevocation
    dsimp only
    generalize CentralRouter.applySelfRevocation { r with auth := some auth' } = applied
      at happlied
    obtain ⟨r₁, _ | _⟩ := applied
    · exact happlied.actOnTrickleHint now
    · exact happlied

theorem Armed.poll (h : r.Armed heard certs) (now : Duration) (txLen : Nat) :
    (r.poll k now txLen).1.Armed heard certs := by
  have happlied := h.applySelfRevocation
  unfold CentralRouter.poll
  dsimp only
  split
  · exact happlied
  split
  · rename_i hnone
    intro auth hsome
    exact happlied auth hsome
  · rename_i auth hauth
    refine happlied.of_some hauth ?_ rfl
    exact (OgmAuth.after_keysKept (.augmentOgm _ txLen _) (by simp) (by simp)).latchKept

theorem Armed.pollKeepalive (h : r.Armed heard certs) (txLen : Nat) :
    (r.pollKeepalive k txLen).1.Armed heard certs := by
  unfold CentralRouter.pollKeepalive
  dsimp only
  split
  · exact h
  split
  · exact h
  split
  · exact h
  · rename_i auth hauth
    refine h.of_some hauth ?_ rfl
    exact (OgmAuth.after_keysKept (.augmentKeepalive _ txLen) (by simp) (by simp)).latchKept

theorem Armed.pollChallenge (h : r.Armed heard certs) (now : Duration) (txLen : Nat) :
    (r.pollChallenge k now txLen).1.Armed heard certs := by
  unfold CentralRouter.pollChallenge
  split
  · exact h
  split
  · exact h
  rename_i target _
  dsimp only
  split
  · exact h.of_auth rfl
  · rename_i auth hauth
    exact h.of_some hauth (auth.buildChallengeFrame_latchKept k target txLen) rfl

theorem Armed.setAuthTime (h : r.Armed heard certs) {now : Duration} {wall : Clocked}
    (hforward : ∀ auth ∈ r.auth, OgmAuth.ClockForward auth.wall wall) :
    (r.setAuthTime now wall).Armed heard certs := by
  unfold CentralRouter.setAuthTime
  cases hauth : r.auth with
  | none =>
    intro auth hsome
    exact h auth hsome
  | some auth =>
    have htimed : (auth.setTime now wall).Armed heard certs :=
      (h auth hauth).setTime (hforward auth hauth)
    dsimp only
    split
    · intro s hs
      obtain rfl := Option.some.inj hs
      exact htimed
    · intro s hs
      obtain rfl := Option.some.inj hs
      exact htimed

/-- An operation that is not the installation of a membership. -/
theorem Armed.step (h : r.Armed heard certs) {op : RouterOp a}
    (hop : ∀ auth, op ≠ .setAuth auth)
    (hclock : ∀ now wall, op = .setAuthTime now wall →
      ∀ auth ∈ r.auth, OgmAuth.ClockForward auth.wall wall)
    {auth' : OgmAuth a} (hafter : (r.step k op).auth = some auth') :
    auth'.Armed (heard ++ r.servedBy k op) (auth'.cert :: certs) := by
  have hquiet : (r.step k op).Armed heard certs → r.servedBy k op = [] →
      auth'.Armed (heard ++ r.servedBy k op) (auth'.cert :: certs) := by
    intro harmed hnothing
    rw [hnothing, List.append_nil]
    exact (harmed auth' hafter).mono _
  cases op with
  | setAuth auth => exact absurd rfl (hop auth)
  | setRequireAuth | setLazyCertDistribution | setLinkFeatures | takeSelfRevocation =>
    exact hquiet (h.of_auth rfl) rfl
  | noteSelfRevoked record => cases hafter
  | ingestRevocation record now =>
    exact (h.ingestRevocation record now auth' hafter).mono _
  | setAuthTime now wall => exact hquiet (h.setAuthTime (hclock now wall rfl)) rfl
  | handleFrame now ifaceIdx frame localQuality txLen out =>
    exact h.handleFrame now ifaceIdx frame localQuality txLen out hafter
  | poll now txLen => exact hquiet (h.poll now txLen) rfl
  | pollKeepalive txLen => exact hquiet (h.pollKeepalive txLen) rfl
  | pollChallenge now txLen => exact hquiet (h.pollChallenge now txLen) rfl
  | takeRenewedCert =>
    exact hquiet (h.map (fun auth => auth.takeRenewedCert.1) (fun _ => ⟨rfl, rfl, rfl, rfl⟩) rfl) rfl
  | takeRenewalRequest =>
    exact hquiet
      (h.map (fun auth => auth.takeRenewalRequest.1) (fun _ => ⟨rfl, rfl, rfl, rfl⟩) rfl) rfl
  | driver op =>
    refine hquiet ?_ rfl
    dsimp only [CentralRouter.step]
    split
    · rename_i hdriver
      refine h.map (fun auth => auth.after k op) ?_ rfl
      intro auth
      refine (OgmAuth.after_keysKept op ?_ ?_).latchKept
      · rintro op' rfl
        cases hdriver
      · rintro body rfl
        cases hdriver
    · exact h
  | engine op =>
    refine hquiet ?_ rfl
    dsimp only [CentralRouter.step]
    split
    · exact h.of_auth rfl
    · exact h

end Armed

end CentralRouter

namespace Served

variable {e : Capacities} {a : AuthCapacities} {k : Crypto} {w : Served e a}

def Inv (w : Served e a) : Prop := w.router.Armed w.heard w.certs

theorem step_inv {op : RouterOp a} (hinv : w.Inv) (hlawful : w.Lawful op) :
    (w.step k op).Inv := by
  have hstep : (∀ auth, op ≠ .setAuth auth) → (w.router.step k op).Armed
      (w.heard ++ w.router.servedBy k op)
      (((w.router.step k op).auth.map OgmAuth.cert).toList ++ w.certs) := by
    intro hop auth' hafter
    rw [hafter]
    refine hinv.step hop ?_ hafter
    rintro now wall rfl
    exact hlawful
  cases op with
  | setAuth auth =>
    intro s hs
    obtain rfl := Option.some.inj hs
    refine ⟨List.mem_singleton_self _, ?_, fun record h => nomatch h⟩
    intro record hrecord
    rw [show auth.selfRevocation = none from hlawful] at hrecord
    cases hrecord
  | _ => exact hstep (by simp)

theorem run_inv {selfIdent : Mac} {ops pre : List (RouterOp a)}
    (hrun : Run.AllSafe (step k) Lawful (start e a selfIdent) ops) (hpre : pre <+: ops) :
    (Run.run (step k) (start e a selfIdent) pre).Inv := by
  have hstart : (start e a selfIdent).Inv := by
    intro auth hauth
    cases hauth
  exact Run.allGood_of_allSafe hstart (fun _ _ hinv hop => step_inv hinv hop) hrun pre hpre

theorem applySelfRevocation_cases {r : CentralRouter e a} {auth : OgmAuth a}
    (hauth : r.auth = some auth) :
    (auth.takeSelfRevoked.2 = none ∧
        r.applySelfRevocation.1 = { r with auth := some auth.takeSelfRevoked.1 }) ∨
      ∃ record, auth.takeSelfRevoked.2 = some record ∧ r.applySelfRevocation.1 =
        { r with
          auth := none
          selfRevocation := some record
          pendingSelfRevocation := some record
          batman := r.batman.reset } := by
  unfold CentralRouter.applySelfRevocation
  rw [hauth]
  dsimp only
  generalize auth.takeSelfRevoked = taken
  obtain ⟨auth', _ | record⟩ := taken
  · exact Or.inl ⟨rfl, rfl⟩
  · exact Or.inr ⟨record, rfl, rfl⟩

/-- A poll acts on what the latch hands over, and on nothing else. -/
theorem poll_cases {r : CentralRouter e a} {auth : OgmAuth a} (hauth : r.auth = some auth)
    (now : Duration) (txLen : Nat) :
    let r' := (r.poll k now txLen).1
    (auth.takeSelfRevoked.2 = none ∧ r'.selfRevocation = r.selfRevocation) ∨
      ∃ record, auth.takeSelfRevoked.2 = some record ∧ r'.auth = none ∧
        r'.selfRevocation = some record := by
  unfold CentralRouter.poll
  rcases applySelfRevocation_cases hauth with ⟨hnone, heq⟩ | ⟨record, hsome, heq⟩
  · rw [heq]
    refine Or.inl ⟨hnone, ?_⟩
    dsimp only
    split <;> rfl
  · rw [heq]
    exact Or.inr ⟨record, hsome, rfl, rfl⟩

theorem cancels_of_window {cert : MembershipCert} {record : RevocationRecord} {t : Nat}
    (haimed : cert.aimedAt record = true) (hfrom : record.notBefore.get ≤ t)
    (huntil : t < record.notAfter.get) :
    record.cancelsCertFor cert.nodeMac cert.notBefore.get t = true := by
  obtain ⟨⟨hmac, hissued⟩, _⟩ := OgmAuth.aimedAt_iff.mp haimed
  simp [RevocationRecord.cancelsCertFor, RevocationRecord.namesCert, hmac, hissued, hfrom, huntil]

/-- At a poll with the clock at `t`, a node goes inert only for a record it has taken in
that cancels its certificate at `t`, or cancelled at `t` one it ran under before a renewal
issued after the record; and it does for the record that leads those aimed at its
certificate, when that one cancels it at `t`. -/
theorem self_revocation_exact (k : Crypto) (selfIdent : Mac) (ops : List (RouterOp a))
    (hrun : Run.AllSafe (step k) Lawful (start e a selfIdent) ops)
    (pre : List (RouterOp a)) (now : Duration) (txLen : Nat)
    (hpre : pre ++ [.poll now txLen] <+: ops) (auth : OgmAuth a)
    (hauth : (Run.run (step k) (start e a selfIdent) pre).router.auth = some auth)
    (hclock : auth.wall.judgesWindows = true) :
    let w := Run.run (step k) (start e a selfIdent) pre
    let r' := w.router.step k (.poll now txLen)
    let t := auth.wall.unixOrZero
    (∀ record, w.router.selfRevoked = false → r'.selfRevocation = some record →
        record ∈ w.heard ∧
          (record.cancelsCertFor auth.cert.nodeMac auth.cert.notBefore.get t = true ∨
            record.notBefore.get < auth.cert.notBefore.get ∧ ∃ cert ∈ w.certs,
              record.cancelsCertFor cert.nodeMac cert.notBefore.get t = true)) ∧
      ∀ record, latest OgmAuth.instant none (w.heard.filter auth.cert.aimedAt) = some record →
        record.cancelsCertFor auth.cert.nodeMac auth.cert.notBefore.get t = true →
        r'.auth = none ∧ r'.selfRevocation = some record := by
  intro w r' t
  have hinv : auth.Armed w.heard w.certs :=
    run_inv hrun ((List.prefix_append pre _).trans hpre) auth hauth
  have hpoll := poll_cases (k := k) (r := w.router) hauth now txLen
  refine ⟨?_, ?_⟩
  · intro record hlive hinert
    rcases hpoll with ⟨_, hkept⟩ | ⟨taken, htaken, _, hlatched⟩
    · rw [show r'.selfRevocation = w.router.selfRevocation from hkept] at hinert
      rw [CentralRouter.selfRevoked, hinert] at hlive
      cases hlive
    rw [show r'.selfRevocation = some taken from hlatched] at hinert
    obtain rfl := Option.some.inj hinert
    rcases auth.takeSelfRevoked_cases with
      ⟨heq, _⟩ | ⟨held, hheld, _, ⟨_, heq⟩ | ⟨hfrom, huntil, heq⟩⟩
    · rw [heq] at htaken
      cases htaken
    · rw [heq] at htaken
      cases htaken
    · rw [heq] at htaken
      obtain rfl := Option.some.inj htaken
      obtain ⟨hheard, hmac, cert, hcert, haimed⟩ := hinv.held held hheld
      refine ⟨hheard, ?_⟩
      by_cases hissued : auth.cert.notBefore.get ≤ held.notBefore.get
      · obtain ⟨_, hwindow⟩ := OgmAuth.aimedAt_iff.mp haimed
        exact Or.inl (cancels_of_window (OgmAuth.aimedAt_iff.mpr ⟨⟨hmac, hissued⟩, hwindow⟩)
          hfrom huntil)
      · exact Or.inr ⟨Nat.not_le.mp hissued, cert, hcert, cancels_of_window haimed hfrom huntil⟩
  · intro record hleads hcancels
    have hwindow : record.notBefore.get ≤ t ∧ t < record.notAfter.get := by
      simp only [RevocationRecord.cancelsCertFor, Bool.and_eq_true, decide_eq_true_eq] at hcancels
      exact hcancels.2
    have hlatch : auth.selfRevocation = some record := by
      rcases hinv.leads record hleads with hlatch | ⟨_, hexpired⟩
      · exact hlatch
      · exact absurd hexpired (Nat.not_le.mpr hwindow.2)
    -- The latch holds the record, and the clock is inside its window.
    have htaken : auth.takeSelfRevoked.2 = some record := by
      rcases auth.takeSelfRevoked_cases with
        ⟨_, hearly⟩ | ⟨held, hheld, _, ⟨hexpired, _⟩ | ⟨_, _, heq⟩⟩
      · exact absurd (hearly record hlatch hclock) (Nat.not_lt.mpr hwindow.1)
      · rw [hlatch] at hheld
        obtain rfl := Option.some.inj hheld
        exact absurd hexpired (Nat.not_le.mpr hwindow.2)
      · rw [hlatch] at hheld
        obtain rfl := Option.some.inj hheld
        rw [heq]
    rcases hpoll with ⟨hnone, _⟩ | ⟨taken, htaken', hgone, hlatched⟩
    · rw [htaken] at hnone
      cases hnone
    · rw [htaken] at htaken'
      obtain rfl := Option.some.inj htaken'
      exact ⟨hgone, hlatched⟩

end Served

namespace SmallMesh

open BatmanEngine (smallCapacities)

def installed2 : RouterOp capacities :=
  .setAuth (OgmAuth.withCapacities capacities (keypair 2) cert2 anchor)

/-- Node 2 is told of its revocation as of 500. -/
def toldRun : List (RouterOp capacities) :=
  [installed2, tick 100, .ingestRevocation revoked500 (Duration.ofSecs 100), tick 600]

/-- It is then told of one as of 700. -/
def toldTwiceRun : List (RouterOp capacities) :=
  toldRun.take 3 ++ [.ingestRevocation revoked700 (Duration.ofSecs 100), tick 600]

def poll600 : RouterOp capacities := .poll (Duration.ofSecs 600) 1500

def served2 (ops : List (RouterOp capacities)) : Served smallCapacities capacities :=
  Run.run (Served.step crypto) (.start _ _ mac2) ops

theorem self_revocation_exact_toldRun :
    ((served2 toldRun).router.step crypto poll600).selfRevocation = some revoked500 := by
  obtain ⟨auth, hauth⟩ : ∃ auth, (served2 toldRun).router.auth = some auth :=
    Option.isSome_iff_exists.mp (by decide +kernel)
  have hstands : ∀ auth ∈ (served2 toldRun).router.auth,
      auth.cert = cert2 ∧ auth.wall = .at 600 := by
    decide +kernel
  obtain ⟨hcert, hwall⟩ := hstands auth hauth
  have hjudges : auth.wall.judgesWindows = true := by
    rw [hwall]
    rfl
  have hexact := Served.self_revocation_exact (e := smallCapacities) (a := capacities) crypto mac2
    (toldRun ++ [poll600]) (by decide +kernel) toldRun _ _ List.prefix_rfl auth hauth hjudges
  rw [hcert, hwall] at hexact
  exact (hexact.2 revoked500 (by decide +kernel) (by decide +kernel)).2

/-- The second record supersedes the first: at 600 node 2 is not inert, while the first
is in its window and cancels its certificate. -/
theorem superseded_record_waits :
    Run.AllSafe (Served.step crypto) Served.Lawful (.start smallCapacities capacities mac2)
        (toldTwiceRun ++ [poll600]) ∧
      revoked500 ∈ (served2 toldTwiceRun).heard ∧
      (∀ auth ∈ (served2 toldTwiceRun).router.auth, auth.wall = .at 600 ∧
        revoked500.cancelsCertFor auth.cert.nodeMac auth.cert.notBefore.get 600 = true) ∧
      ((served2 toldTwiceRun).router.step crypto poll600).auth.isSome = true ∧
      ((served2 toldTwiceRun).router.step crypto poll600).authLocked = false := by
  decide +kernel

end SmallMesh

end Wayfinder
