import Wayfinder.Router
import Wayfinder.ProofGate
import Wayfinder.Auth.Challenge

/-!
# Runs of the router

Every public operation of a router as one step. A proof a neighbor gave rests on the
key it was given under, and the tick that moves the clock sweeps the proofs whose keys
are gone; it looks for them only when the count of keys lost differs from the count at
the last sweep. The count belongs to one auth state and the memory of it to the router,
which outlives that state: a new state that has lost as many keys as the old one had
when it was last swept is taken for unchanged.
-/

namespace Wayfinder

set_option autoImplicit false

open Table

/-- The calls a driver makes into the auth state itself: the trailers of directed and
fan-out frames, and a renewal that is due. -/
def StateOp.isDriver : StateOp → Bool
  | .verifyDirected .. | .verifyDirectedNonceFresh .. | .verifyFanout .. | .tagDirected ..
  | .signFanout .. | .buildRenewalRequest .. => true
  | _ => false

/-- The upkeep of the engine that concerns no other node. -/
def EngineOp.isLocal : EngineOp → Bool
  | .setLocalMcastGroups .. | .configureInterfaceOgm .. | .configureInterfaceKeepalive ..
  | .onInterfaceEmitted .. | .onKeepaliveEmitted .. | .nextBroadcastSeqno => true
  | _ => false

inductive RouterOp (a : AuthCapacities) where
  | setAuth (auth : OgmAuth a)
  | setRequireAuth (require : Bool)
  | setLazyCertDistribution (lazy : Bool)
  | setLinkFeatures (idx : Nat) (features : LinkFeatures)
  | noteSelfRevoked (record : RevocationRecord)
  | takeSelfRevocation
  | ingestRevocation (record : RevocationRecord) (now : Duration)
  | setAuthTime (now : Duration) (wall : Clocked)
  | handleFrame (now : Duration) (ifaceIdx : Nat) (frame : LinkFrame) (localQuality : Option U8)
      (txLen : Nat) (out : FrameSink)
  | poll (now : Duration) (txLen : Nat)
  | pollKeepalive (txLen : Nat)
  | pollChallenge (now : Duration) (txLen : Nat)
  | takeRenewedCert
  | takeRenewalRequest
  | driver (op : StateOp)
  | engine (op : EngineOp)

namespace CentralRouter

variable {e : Capacities} {a : AuthCapacities} {k : Crypto}

def step (k : Crypto) (r : CentralRouter e a) : RouterOp a → CentralRouter e a
  | .setAuth auth => r.setAuth auth
  | .setRequireAuth require => { r with requireAuth := require }
  | .setLazyCertDistribution lazy => { r with lazyCertDistribution := lazy }
  | .setLinkFeatures idx features => r.setLinkFeatures idx features
  | .noteSelfRevoked record => r.noteSelfRevoked record
  | .takeSelfRevocation => r.takeSelfRevocation.1
  | .ingestRevocation record now => (r.ingestRevocation k record now).1
  | .setAuthTime now wall => r.setAuthTime now wall
  | .handleFrame now ifaceIdx frame localQuality txLen out =>
    (r.handleFrame k now ifaceIdx frame localQuality txLen out).1
  | .poll now txLen => (r.poll k now txLen).1
  | .pollKeepalive txLen => (r.pollKeepalive k txLen).1
  | .pollChallenge now txLen => (r.pollChallenge k now txLen).1
  | .takeRenewedCert => { r with auth := r.auth.map fun auth => auth.takeRenewedCert.1 }
  | .takeRenewalRequest => { r with auth := r.auth.map fun auth => auth.takeRenewalRequest.1 }
  | .driver op =>
    if op.isDriver then { r with auth := r.auth.map fun auth => auth.after k op } else r
  | .engine op => if op.isLocal then { r with batman := r.batman.step op } else r

/-! ### Proofs and keys -/

def Proven (r : CentralRouter e a) (mac : Mac) : Prop := (r.batman.proven.get? mac).isSome = true

def hasLiveKey (r : CentralRouter e a) (mac : Mac) : Bool :=
  r.auth.any fun auth => (auth.liveNeighbor mac).isSome

/-- Every neighbor proven has a live key in the auth state there is. -/
def ProofsBacked (r : CentralRouter e a) : Prop := ∀ mac, r.Proven mac → r.hasLiveKey mac = true

/-- Nobody is proven anew, and an auth state lost takes every proof with it. -/
structure ProvesNone (r r' : CentralRouter e a) : Prop where
  proven : ∀ mac, r'.Proven mac → r.Proven mac
  inert : r'.auth = none → r.auth = none ∨ ∀ mac, ¬ r'.Proven mac

section Proofs
variable {r r' r'' : CentralRouter e a}

theorem ProvesNone.refl (r : CentralRouter e a) : ProvesNone r r :=
  ⟨fun _ h => h, fun h => Or.inl h⟩

theorem ProvesNone.trans (h : ProvesNone r r') (h' : ProvesNone r' r'') : ProvesNone r r'' := by
  refine ⟨fun mac hmac => h.proven mac (h'.proven mac hmac), ?_⟩
  intro hnone
  rcases h'.inert hnone with hnone' | hempty
  · rcases h.inert hnone' with hnone'' | hempty
    · exact Or.inl hnone''
    · exact Or.inr fun mac hmac => hempty mac (h'.proven mac hmac)
  · exact Or.inr hempty

theorem proven_of_step (op : EngineOp) {mac : Mac} {eng : BatmanEngine e}
    (hop : ∀ now m iface, op ≠ .noteProven now m iface)
    (h : ((eng.step op).proven.get? mac).isSome = true) :
    (eng.proven.get? mac).isSome = true := by
  obtain ⟨entry, hentry⟩ := Option.isSome_iff_exists.mp h
  rcases BatmanEngine.step_proven hentry with ⟨now, iface, hnote, _⟩ | ⟨hstood, _⟩
  · exact absurd hnote (hop now mac iface)
  · rw [hstood]
    rfl

/-- The engine takes a step that credits nobody; the auth state stays or is replaced. -/
theorem provesNone_of_step (op : EngineOp) (hop : ∀ now m iface, op ≠ .noteProven now m iface)
    (hbatman : r'.batman = r.batman.step op)
    (hauth : r'.auth = none → r.auth = none) : ProvesNone r r' := by
  refine ⟨?_, fun hnone => Or.inl (hauth hnone)⟩
  intro mac hmac
  rw [Proven, hbatman] at hmac
  exact proven_of_step op hop hmac

theorem provesNone_of_batman (hbatman : r'.batman = r.batman)
    (hauth : r'.auth = none → r.auth = none) : ProvesNone r r' := by
  refine ⟨?_, fun hnone => Or.inl (hauth hnone)⟩
  intro mac hmac
  rw [Proven, hbatman] at hmac
  exact hmac

theorem not_proven_reset (eng : BatmanEngine e) (mac : Mac) :
    ¬ (eng.reset.proven.get? mac).isSome = true := by
  intro h
  cases h

theorem setAuth_provesNone (r : CentralRouter e a) (auth : OgmAuth a) (mac : Mac) :
    ¬ (r.setAuth auth).Proven mac := not_proven_reset _ mac

theorem applySelfRevocation_provesNone (r : CentralRouter e a) :
    ProvesNone r r.applySelfRevocation.1 := by
  unfold applySelfRevocation
  cases hauth : r.auth with
  | none => exact .refl r
  | some auth =>
    dsimp only
    obtain ⟨auth', _ | record⟩ := auth.takeSelfRevoked
    · exact provesNone_of_batman rfl fun h => nomatch h
    · exact ⟨fun mac h => absurd h (not_proven_reset _ mac),
        fun _ => Or.inr fun mac => not_proven_reset _ mac⟩

theorem actOnTrickleHint_provesNone (r : CentralRouter e a) (now : Duration) :
    ProvesNone r (r.actOnTrickleHint now) := by
  unfold actOnTrickleHint
  cases hauth : r.auth with
  | none => exact .refl r
  | some auth =>
    dsimp only
    obtain ⟨auth', _ | _⟩ := auth.takeTrickleResetHint
    · exact provesNone_of_batman rfl fun h => nomatch h
    · refine ⟨?_, fun h => nomatch h⟩
      intro mac hmac
      have hpurged : (((r.batman.resetOgmTimers now).revokeOriginators
          auth'.macsToPurge).proven.get? mac).isSome = true :=
        proven_of_step (.purgeStale now) (by simp) hmac
      have hrevoked : ((r.batman.resetOgmTimers now).proven.get? mac).isSome = true :=
        proven_of_step (.revokeOriginators auth'.macsToPurge) (by simp) hpurged
      exact proven_of_step (.resetOgmTimers now) (by simp) hrevoked

theorem ingestRevocation_provesNone (r : CentralRouter e a) (record : RevocationRecord)
    (now : Duration) : ProvesNone r (r.ingestRevocation k record now).1 := by
  unfold ingestRevocation
  cases hauth : r.auth with
  | none => exact .refl r
  | some auth =>
    dsimp only
    generalize auth.ingestRevocation k record = ingested
    obtain ⟨auth', newly⟩ := ingested
    have hlatched : ProvesNone r { r with auth := some auth' } :=
      provesNone_of_batman rfl fun h => nomatch h
    have hacted := applySelfRevocation_provesNone { r with auth := some auth' }
    dsimp only
    generalize applySelfRevocation { r with auth := some auth' } = applied at hacted
    obtain ⟨r₁, _ | _⟩ := applied
    · exact (hlatched.trans hacted).trans (r₁.actOnTrickleHint_provesNone now)
    · exact hlatched.trans hacted

theorem deliver_provesNone (r : CentralRouter e a) (now : Duration) (frame : LinkFrame)
    (replyLen : Nat) : ProvesNone r (r.deliver k now frame replyLen).1 := by
  unfold deliver
  cases hauth : r.auth with
  | none => split <;> exact provesNone_of_batman rfl fun _ => hauth
  | some auth =>
    split <;> first
      | exact .refl r
      | exact provesNone_of_batman rfl fun h => nomatch h

theorem flushParked_provesNone (r : CentralRouter e a) (now : Duration) (frame : LinkFrame)
    (replyLen : Nat) : ProvesNone r (r.flushParked now frame replyLen).1 := by
  unfold flushParked
  split
  · exact provesNone_of_batman rfl fun h => nomatch h
  · exact .refl r

theorem routeFrame_provesNone (r : CentralRouter e a) (now : Duration) (ifaceIdx : Nat)
    (frame : LinkFrame) (localQuality : Option U8) (txLen : Nat) (out : FrameSink) :
    ProvesNone r (r.routeFrame k now ifaceIdx frame localQuality txLen out).1 := by
  have hengine : ProvesNone r
      { r with batman := (r.batman.handleRx now frame localQuality txLen out).engine } :=
    provesNone_of_step (.handleRx now frame localQuality txLen out) (by simp) rfl fun h => h
  unfold routeFrame
  dsimp only
  split
  · split
    · split <;> exact hengine
    · exact hengine.trans (flushParked_provesNone _ now frame txLen)
  · exact hengine
  · exact hengine.trans (deliver_provesNone _ now frame txLen)
  · exact hengine

/-- Whoever is proven anew has a live key. -/
structure Credits (r r' : CentralRouter e a) : Prop where
  proven : ∀ mac, r'.Proven mac → r.Proven mac ∨ r'.hasLiveKey mac = true
  inert : r'.auth = none → r.auth = none ∨ ∀ mac, ¬ r'.Proven mac

theorem ProvesNone.credits (h : ProvesNone r r') : Credits r r' :=
  ⟨fun mac hmac => Or.inl (h.proven mac hmac), h.inert⟩

/-- A frame the auth state is done with may have proven its sender; one that goes on has
proven nobody. -/
theorem judgeFrame_credits (r : CentralRouter e a) (now : Duration) (ifaceIdx : Nat)
    (frame : LinkFrame) (txLen : Nat) :
    let judged := r.judgeFrame k now ifaceIdx frame txLen
    Credits r judged.1 ∧ (judged.2 = none → ProvesNone r judged.1) := by
  have hkept : ∀ {r' : CentralRouter e a} {outcome : Option RxOutcome}, ProvesNone r r' →
      Credits r r' ∧ (outcome = none → ProvesNone r r') :=
    fun h => ⟨h.credits, fun _ => h⟩
  unfold judgeFrame
  split
  · split <;> exact hkept (provesNone_of_batman rfl fun h => nomatch h)
  · split <;> exact hkept (provesNone_of_batman rfl fun h => nomatch h)
  · split <;> exact hkept (.refl r)
  · exact hkept (.refl r)
  · rename_i auth _ hauth
    split
    · exact hkept (.refl r)
    rcases auth.verifyChallengeResponse_cases k frame.src (innerBody frame.payload) with
      ⟨hrefused, _⟩ | ⟨haccepted, challenge, hanswered, counters, hafter, _⟩
    · generalize auth.verifyChallengeResponse k frame.src (innerBody frame.payload) = verdict
        at hrefused
      obtain ⟨auth', _ | _⟩ := verdict
      · exact hkept (provesNone_of_batman rfl fun h => nomatch h)
      · cases hrefused
    · generalize auth.verifyChallengeResponse k frame.src (innerBody frame.payload) = verdict
        at haccepted hafter
      obtain ⟨auth', _ | _⟩ := verdict
      · cases haccepted
      refine ⟨⟨?_, fun h => nomatch h⟩, fun h => nomatch h⟩
      intro mac hmac
      obtain ⟨entry, hentry⟩ := Option.isSome_iff_exists.mp hmac
      have hnoted : (r.batman.step (.noteProven now frame.src ifaceIdx)).proven.get? mac =
          some entry := hentry
      rcases BatmanEngine.step_proven hnoted with ⟨_, _, hnote, _⟩ | ⟨hstood, _⟩
      · obtain ⟨_, rfl, _⟩ := EngineOp.noteProven.inj hnote
        refine Or.inr ?_
        dsimp only at hafter
        subst hafter
        exact Option.isSome_iff_exists.mpr (OgmAuth.answeredChallenge_finds hanswered).1
      · refine Or.inl ?_
        rw [Proven, hstood]
        rfl
  · exact hkept (.refl r)

theorem handleFrame_credits (r : CentralRouter e a) (now : Duration) (ifaceIdx : Nat)
    (frame : LinkFrame) (localQuality : Option U8) (txLen : Nat) (out : FrameSink) :
    Credits r (r.handleFrame k now ifaceIdx frame localQuality txLen out).1 := by
  unfold handleFrame
  split
  · exact (ProvesNone.refl r).credits
  obtain ⟨hcredits, hnone⟩ := r.judgeFrame_credits (k := k) now ifaceIdx frame txLen
  generalize r.judgeFrame k now ifaceIdx frame txLen = judged at hcredits hnone
  obtain ⟨r₁, _ | outcome⟩ := judged
  · have hjudged := hnone rfl
    have hacted := r₁.applySelfRevocation_provesNone
    dsimp only at hjudged ⊢
    generalize r₁.applySelfRevocation = applied at hacted
    obtain ⟨r₂, _ | _⟩ := applied
    · have hrouted := (r₂.actOnTrickleHint_provesNone now).trans
        (routeFrame_provesNone (k := k) _ now ifaceIdx frame localQuality txLen out)
      exact ((hjudged.trans hacted).trans hrouted).credits
    · exact (hjudged.trans hacted).credits
  · exact hcredits

theorem poll_provesNone (r : CentralRouter e a) (now : Duration) (txLen : Nat) :
    ProvesNone r (r.poll k now txLen).1 := by
  have hacted := r.applySelfRevocation_provesNone
  unfold poll
  dsimp only
  split
  · exact hacted
  have hbroadcast : ProvesNone r.applySelfRevocation.1
      { r.applySelfRevocation.1 with
        batman := (r.applySelfRevocation.1.batman.producePeriodicBroadcast now).1 } :=
    provesNone_of_step (.producePeriodicBroadcast now) (by simp) rfl fun h => h
  split
  · exact hacted.trans hbroadcast
  · exact (hacted.trans hbroadcast).trans (provesNone_of_batman rfl fun h => nomatch h)

theorem pollKeepalive_provesNone (r : CentralRouter e a) (txLen : Nat) :
    ProvesNone r (r.pollKeepalive k txLen).1 := by
  unfold pollKeepalive
  dsimp only
  split
  · exact .refl r
  split
  · exact .refl r
  split
  · exact .refl r
  · exact provesNone_of_batman rfl fun h => nomatch h

theorem pollChallenge_provesNone (r : CentralRouter e a) (now : Duration) (txLen : Nat) :
    ProvesNone r (r.pollChallenge k now txLen).1 := by
  unfold pollChallenge
  split
  · exact .refl r
  split
  · exact .refl r
  rename_i target _
  dsimp only
  split
  · exact provesNone_of_step (.noteChallenged now target) (by simp) rfl fun h => h
  · exact provesNone_of_step (.noteChallenged now target) (by simp) rfl fun h => nomatch h

theorem step_credits (r : CentralRouter e a) {op : RouterOp a}
    (hauth : ∀ auth, op ≠ .setAuth auth) (htime : ∀ now wall, op ≠ .setAuthTime now wall)
    (hboot : ∀ record, op ≠ .noteSelfRevoked record) : Credits r (r.step k op) := by
  have hmap : ∀ f : OgmAuth a → OgmAuth a, ProvesNone r { r with auth := r.auth.map f } :=
    fun f => provesNone_of_batman rfl Option.map_eq_none_iff.mp
  cases op with
  | setAuth auth => exact absurd rfl (hauth auth)
  | setAuthTime now wall => exact absurd rfl (htime now wall)
  | noteSelfRevoked record => exact absurd rfl (hboot record)
  | setRequireAuth | setLazyCertDistribution | setLinkFeatures | takeSelfRevocation =>
    apply ProvesNone.credits
    exact provesNone_of_batman rfl fun h => h
  | ingestRevocation record now => exact (r.ingestRevocation_provesNone record now).credits
  | handleFrame now ifaceIdx frame localQuality txLen out =>
    exact r.handleFrame_credits now ifaceIdx frame localQuality txLen out
  | poll now txLen => exact (r.poll_provesNone now txLen).credits
  | pollKeepalive txLen => exact (r.pollKeepalive_provesNone txLen).credits
  | pollChallenge now txLen => exact (r.pollChallenge_provesNone now txLen).credits
  | takeRenewedCert | takeRenewalRequest => exact (hmap _).credits
  | driver op =>
    dsimp only [step]
    split
    · exact (hmap _).credits
    · exact (ProvesNone.refl r).credits
  | engine op =>
    dsimp only [step]
    split
    · rename_i hlocal
      apply ProvesNone.credits
      refine provesNone_of_step op ?_ rfl fun h => h
      rintro now m iface rfl
      cases hlocal
    · exact (ProvesNone.refl r).credits

end Proofs

/-! ### The tick

What the sweep has to notice is a key that is gone while its proof is not. -/

/-- Some neighbor still proven has lost its key. -/
def lapses (r r' : CentralRouter e a) : Bool :=
  r'.batman.proven.keys.any fun mac => r.hasLiveKey mac && !r'.hasLiveKey mac

/-- The reading proves the certificate of a proven neighbor expired. -/
def provenPast (r : CentralRouter e a) (wall : Clocked) : Bool :=
  r.auth.any fun auth => auth.neighbors.toList.any fun n =>
    wall.provesPast n.cert.notAfter && (r.batman.proven.get? n.mac).isSome

end CentralRouter

/-- The count of keys lost, those included that the reading takes. -/
def OgmAuth.generationAt {c : AuthCapacities} (s : OgmAuth c) (wall : Clocked) : U32 :=
  if s.neighbors.toList.any fun n => wall.provesPast n.cert.notAfter then s.keyGeneration + 1
  else s.keyGeneration

/-- A router, and whether the key of a proven neighbor has gone since the last tick or
the last membership installed. -/
structure Watched (e : Capacities) (a : AuthCapacities) where
  router : CentralRouter e a
  lapsed : Bool

namespace Watched

variable {e : Capacities} {a : AuthCapacities} {k : Crypto}

def step (k : Crypto) (w : Watched e a) (op : RouterOp a) : Watched e a :=
  let router := w.router.step k op
  match op with
  | .setAuth _ | .setAuthTime .. => ⟨router, false⟩
  | _ => ⟨router, w.lapsed || w.router.lapses router⟩

/-- A tick with a proof to sweep does not find the count it last swept at, and the boot
path is taken before anyone is proven. -/
def Safe (w : Watched e a) : RouterOp a → Prop
  | .setAuthTime _ wall => (w.lapsed || w.router.provenPast wall) = true →
      ∀ auth ∈ w.router.auth, auth.generationAt wall ≠ w.router.sweptKeyGeneration
  | .noteSelfRevoked _ => w.router.batman.proven.keys = []
  | _ => True

instance decidableSafe (w : Watched e a) : (op : RouterOp a) → Decidable (w.Safe op)
  | .setAuthTime .. => inferInstanceAs (Decidable (_ → ∀ auth ∈ w.router.auth, _))
  | .noteSelfRevoked _ => inferInstanceAs (Decidable (_ = _))
  | .setAuth _ | .setRequireAuth _ | .setLazyCertDistribution _ | .setLinkFeatures ..
  | .takeSelfRevocation | .ingestRevocation .. | .handleFrame .. | .poll .. | .pollKeepalive _
  | .pollChallenge .. | .takeRenewedCert | .takeRenewalRequest | .driver _ | .engine _ =>
    inferInstanceAs (Decidable True)

structure Inv (w : Watched e a) : Prop where
  backed : w.lapsed = false → w.router.ProofsBacked
  inert : w.router.auth = none → ∀ mac, ¬ w.router.Proven mac

section Ticks
variable {r r' : CentralRouter e a} {w : Watched e a}

theorem mem_keys_of_proven {mac : Mac} (h : r.Proven mac) : mac ∈ r.batman.proven.keys := by
  rw [← IndexMap.contains_iff, IndexMap.contains_eq_isSome]
  exact h

/-- Where no proof lapses and whoever is proven anew has a key, the proofs stay backed. -/
theorem backed_of_credits (h : r.Credits r') (hlapse : r.lapses r' = false)
    (hbacked : r.ProofsBacked) : r'.ProofsBacked := by
  intro mac hmac
  rcases h.proven mac hmac with hstood | hlive
  · have hkept := List.any_eq_false.mp hlapse mac (mem_keys_of_proven hmac)
    rw [hbacked mac hstood] at hkept
    simpa using hkept
  · exact hlive

theorem generation_setTime (s : OgmAuth a) (now : Duration) (wall : Clocked) :
    (s.setTime now wall).keyGeneration = s.generationAt wall := by
  let s₁ : OgmAuth a := OgmAuth.reclaimBookkeeping { s with now := now, wall := wall }
  obtain ⟨revocations, hprune⟩ := s₁.pruneExpired_frame
  change s₁.pruneExpired.evictExpiredNeighbors.keyGeneration = _
  rw [hprune]
  unfold OgmAuth.evictExpiredNeighbors
  change (if !wall.judgesWindows then _ else _ : OgmAuth a).keyGeneration = _
  cases hany : s.neighbors.toList.any fun n => wall.provesPast n.cert.notAfter with
  | false =>
    rw [OgmAuth.generationAt, hany]
    split
    · rfl
    · have hall : (s.neighbors.toList.filter fun n =>
          !wall.provesPast n.cert.notAfter).length = s.neighbors.toList.length := by
        rw [List.length_filter_eq_length_iff]
        intro n hn
        simpa using List.any_eq_false.mp hany n hn
      exact if_neg (not_not.mpr hall)
  | true =>
    obtain ⟨n, hn, hpast⟩ := List.any_eq_true.mp hany
    have hjudges : wall.judgesWindows = true := by
      cases wall with
      | unknown => cases hpast
      | «at» t => rfl
      | atLeast t => rfl
    rw [OgmAuth.generationAt, hany, hjudges]
    have hshorter : (s.neighbors.toList.filter fun n =>
        !wall.provesPast n.cert.notAfter).length ≠ s.neighbors.toList.length := by
      rw [Ne, List.length_filter_eq_length_iff]
      intro hall
      have hkept := hall n hn
      rw [hpast] at hkept
      cases hkept
    exact if_pos hshorter

/-- A reading under which no proven certificate is past takes no proven key. -/
theorem hasLiveKey_setTime {auth : OgmAuth a} {now : Duration} {wall : Clocked} {mac : Mac}
    (hauth : r.auth = some auth) (hpast : r.provenPast wall = false) (hproven : r.Proven mac)
    (hlive : r.hasLiveKey mac = true) : ((auth.setTime now wall).liveNeighbor mac).isSome := by
  obtain ⟨hwall, _, hneighbors, _⟩ := auth.setTime_spec now wall
  rw [CentralRouter.hasLiveKey, hauth, Option.any_some] at hlive
  obtain ⟨n, hn⟩ := Option.isSome_iff_exists.mp hlive
  obtain ⟨hmem, hmac, _⟩ := OgmAuth.liveNeighbor_eq_some_iff.mp hn
  rw [CentralRouter.provenPast, hauth, Option.any_some] at hpast
  have hcurrent : wall.provesPast n.cert.notAfter = false := by
    have hn := List.any_eq_false.mp hpast n hmem
    have hkey : (r.batman.proven.get? n.mac).isSome = true := by
      rw [NeighborKeys.mac, hmac]
      exact hproven
    rw [hkey] at hn
    simpa using hn
  refine Option.isSome_iff_exists.mpr ⟨n, OgmAuth.liveNeighbor_eq_some_iff.mpr ⟨?_, hmac, ?_⟩⟩
  · exact (hneighbors n).mpr ⟨hmem, hcurrent⟩
  · rw [hwall]
    exact hcurrent

/-- The tick, when it sweeps or has nothing to sweep. -/
theorem setAuthTime_backed {now : Duration} {wall : Clocked} (hinv : w.Inv)
    (hsafe : w.Safe (.setAuthTime now wall)) :
    (w.router.setAuthTime now wall).ProofsBacked := by
  unfold CentralRouter.setAuthTime
  cases hauth : w.router.auth with
  | none =>
    intro mac hmac
    exact absurd hmac (hinv.inert hauth mac)
  | some auth =>
    dsimp only
    rw [generation_setTime]
    split
    · rename_i hswept
      have hquiet : ¬ (w.lapsed || w.router.provenPast wall) = true :=
        fun h => hsafe h auth hauth hswept
      rw [Bool.not_eq_true, Bool.or_eq_false_iff] at hquiet
      intro mac hmac
      exact hasLiveKey_setTime hauth hquiet.2 hmac (hinv.backed hquiet.1 mac hmac)
    · intro mac hmac
      obtain ⟨entry, hentry⟩ := Option.isSome_iff_exists.mp hmac
      exact BatmanEngine.retainProven_usable hentry

theorem setAuthTime_auth {now : Duration} {wall : Clocked}
    (h : (r.setAuthTime now wall).auth = none) : r.setAuthTime now wall = r := by
  unfold CentralRouter.setAuthTime at h ⊢
  cases hauth : r.auth with
  | none => rfl
  | some auth =>
    rw [hauth] at h
    dsimp only at h
    split at h <;> cases h

theorem step_inv {op : RouterOp a} (hinv : w.Inv) (hsafe : w.Safe op) : (w.step k op).Inv := by
  have hcredited : w.router.Credits (w.router.step k op) →
      Inv ⟨w.router.step k op, w.lapsed || w.router.lapses (w.router.step k op)⟩ := by
    intro hcredits
    refine ⟨?_, ?_⟩
    · intro hquiet
      obtain ⟨hlapsed, hlapse⟩ := Bool.or_eq_false_iff.mp hquiet
      exact backed_of_credits hcredits hlapse (hinv.backed hlapsed)
    · intro hnone mac hmac
      rcases hcredits.inert hnone with hwas | hempty
      · rcases hcredits.proven mac hmac with hstood | hlive
        · exact hinv.inert hwas mac hstood
        · rw [CentralRouter.hasLiveKey, hnone] at hlive
          cases hlive
      · exact hempty mac hmac
  cases op with
  | setAuth auth =>
    refine ⟨fun _ mac hmac => ?_, fun h => nomatch h⟩
    exact absurd hmac (w.router.setAuth_provesNone auth mac)
  | setAuthTime now wall =>
    refine ⟨fun _ => setAuthTime_backed hinv hsafe, ?_⟩
    intro hnone
    have hstays : w.router.setAuthTime now wall = w.router := setAuthTime_auth hnone
    change ∀ mac, ¬ (w.router.setAuthTime now wall).Proven mac
    rw [hstays]
    exact hinv.inert (hstays ▸ hnone)
  | noteSelfRevoked record =>
    have hempty : ∀ mac, ¬ (w.router.noteSelfRevoked record).Proven mac := by
      intro mac hmac
      have hkey : mac ∈ w.router.batman.proven.keys :=
        mem_keys_of_proven (r := w.router) hmac
      rw [show w.router.batman.proven.keys = [] from hsafe] at hkey
      cases hkey
    exact ⟨fun _ mac hmac => absurd hmac (hempty mac), fun _ => hempty⟩
  | _ => exact hcredited (w.router.step_credits (by simp) (by simp) (by simp))

theorem run_router (k : Crypto) (w : Watched e a) (ops : List (RouterOp a)) :
    (Run.run (step k) w ops).router = Run.run (CentralRouter.step k) w.router ops := by
  have hrouter : ∀ (w : Watched e a) op, (w.step k op).router = w.router.step k op := by
    intro w op
    cases op <;> rfl
  induction ops using List.reverseRecOn with
  | nil => rfl
  | append_singleton ops op ih =>
    rw [Run.run_append_singleton, Run.run_append_singleton, hrouter, ih]

end Ticks

end Watched

namespace CentralRouter

variable {e : Capacities} {a : AuthCapacities}

/-- After every tick of a run in which no tick with a proof to sweep is taken for an
idle one, every neighbor proven has a live key. -/
theorem proofs_backed_after_tick (k : Crypto) (selfIdent : Mac) (ops : List (RouterOp a))
    (hsafe : Run.AllSafe (Watched.step k) Watched.Safe
      ⟨withCapacities e a selfIdent, false⟩ ops)
    (pre : List (RouterOp a)) (now : Duration) (wall : Clocked)
    (hpre : pre ++ [.setAuthTime now wall] <+: ops) :
    (Run.run (step k) (withCapacities e a selfIdent)
      (pre ++ [.setAuthTime now wall])).ProofsBacked := by
  let start : Watched e a := ⟨withCapacities e a selfIdent, false⟩
  have hempty : ∀ mac, ¬ start.router.Proven mac := by
    intro mac hmac
    cases hmac
  have hstart : start.Inv := ⟨fun _ mac hmac => absurd hmac (hempty mac), fun _ => hempty⟩
  have hgood : Run.AllGood (Watched.step k) Watched.Inv start ops :=
    Run.allGood_of_allSafe hstart (fun _ _ hinv hop => Watched.step_inv hinv hop) hsafe
  have hbefore := hgood pre ((List.prefix_append pre _).trans hpre)
  have htick := Watched.setAuthTime_backed hbefore (hsafe pre _ hpre)
  rw [Run.run_append_singleton]
  rw [Watched.run_router] at htick
  exact htick

end CentralRouter

namespace SmallMesh

open BatmanEngine (smallCapacities)

def mac3 : Mac := cert3.nodeMac

def frameFrom2 (dst : Mac) (payload : Bytes) : LinkFrame := ⟨dst, mac2, ethPBatman, payload⟩

/-- Node 3 hears node 2, challenges it and has its answer. -/
def provingOf2 (t : Nat) : List (RouterOp capacities) :=
  [.handleFrame (Duration.ofSecs t) 0 (frameFrom2 Mac.broadcast (ogm7 228)) (some 255) 1500
      .unbounded,
    .pollChallenge (Duration.ofSecs t) 1500,
    .handleFrame (Duration.ofSecs t) 0
      (frameFrom2 mac3 (proofHeader .nextHopResponse ++ response1)) (some 255) 1500 .unbounded]

def installed3 : RouterOp capacities :=
  .setAuth (OgmAuth.withCapacities capacities (keypair 3) cert3 anchor)

def tick (t : Nat) : RouterOp capacities := .setAuthTime (Duration.ofSecs t) (.at t)

def router3 : CentralRouter smallCapacities capacities := .withCapacities _ _ mac3

/-- Node 2 is proven, and its certificate runs out. -/
def expiryRun : List (RouterOp capacities) :=
  [installed3, tick 600] ++ provingOf2 600 ++ [tick 1001]

theorem proofs_backed_after_tick_expiryRun :
    Watched.Safe ⟨Run.run (CentralRouter.step pairwiseCrypto) router3 (expiryRun.take 5), false⟩
        (tick 1001) ∧
      (Run.run (CentralRouter.step pairwiseCrypto) router3 (expiryRun.take 5)).Proven mac2 ∧
      ¬ (Run.run (CentralRouter.step pairwiseCrypto) router3 expiryRun).Proven mac2 := by
  refine ⟨by decide +kernel, ?_, ?_⟩
  · change (_ : Bool) = true
    decide +kernel
  · intro hproven
    have hlive := CentralRouter.proofs_backed_after_tick pairwiseCrypto mac3 expiryRun
      (by decide +kernel) (expiryRun.take 5) _ _ List.prefix_rfl mac2 hproven
    exact absurd hlive (by decide +kernel)

/-- The first membership loses a key and is swept; the second has proven node 2 before
its first tick. -/
def replacedRun : List (RouterOp capacities) :=
  [installed3, tick 600,
    .handleFrame (Duration.ofSecs 600) 0 (frameFrom2 Mac.broadcast (ogm7 228)) (some 255) 1500
      .unbounded,
    .ingestRevocation revoked500 (Duration.ofSecs 600), tick 601, installed3] ++
    provingOf2 602

/-- The tick takes node 2's key: one key lost, as when the first membership was swept. -/
theorem proof_outlives_key :
    ¬ (Run.run (CentralRouter.step pairwiseCrypto) router3
      (replacedRun ++ [tick 1001])).ProofsBacked := by
  intro hbacked
  have hproven : (Run.run (CentralRouter.step pairwiseCrypto) router3
      (replacedRun ++ [tick 1001])).Proven mac2 := by
    change (_ : Bool) = true
    decide +kernel
  exact absurd (hbacked mac2 hproven) (by decide +kernel)

end SmallMesh

end Wayfinder
