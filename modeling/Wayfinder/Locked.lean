import Wayfinder.Membership
import Wayfinder.Node

/-!
# A locked node is inert

While it is locked, for want of a membership or by its own revocation, a node puts nothing
on the air, hands nothing to its host and learns nothing. Most entry points ask for the
lock themselves. The two of the renewal exchange do not, and need no more than an
auth state and a route: a node that is locked with an auth state has no route, since the
state was installed over the revocation it is under and took every route with it.
-/

namespace Wayfinder

set_option autoImplicit false

open Table Run

/-! ### Operations -/

/-- An auth state as a caller makes one: it has heard nobody yet. -/
structure FreshAuth (a : AuthCapacities) where
  auth : OgmAuth a
  fresh : auth.neighbors.toList = []

/-- The operations that concern the core alone and answer with no frame. -/
def RouterOp.isPlain {a : AuthCapacities} : RouterOp a → Bool
  | .setRequireAuth _ | .setLazyCertDistribution _ | .noteSelfRevoked _ | .takeSelfRevocation
  | .setAuthTime .. | .takeRenewedCert | .takeRenewalRequest | .driver _ | .engine _ => true
  | _ => false

/-- The public operations of the router. A sink is one that holds nothing yet. -/
inductive NodeOp (a : AuthCapacities) where
  | setAuth (auth : FreshAuth a)
  | setLinkFeatures (idx : Nat) (features : InterfaceFeatures)
  | ingestRevocation (record : RevocationRecord) (now : Duration)
  | handleFrame (now : Duration) (ifaceIdx : Nat) (frame : LinkFrame) (metrics : LinkMetrics)
      (txLen : Nat) (accepts : List LinkFrameData → LinkFrameData → Bool)
  | poll (now : Duration) (txLen : Nat)
  | pollKeepalive (txLen : Nat)
  | pollChallenge (now : Duration) (txLen : Nat)
  | startPing (now : Duration) (target : Mac) (count : Nat) (interval timeout : Duration)
      (payloadLen : Nat)
  | cancelPing (sessionSeq : Nat)
  | pollPing (now : Duration) (txLen : Nat)
  | pollRenewal (now : Duration) (txLen : Nat)
  | sendRenewReply (now : Duration) (requester : Mac) (cert : MembershipCert) (txLen : Nat)
  | handleLocal (now : Duration) (dest : Mac) (payload : Bytes) (txLen : Nat)
  | handleLocalMcast (now : Duration) (dests : List Mac) (payload : Bytes) (txLen : Nat)
      (accepts : List LinkFrameData → LinkFrameData → Bool)
  | getEgressInterface (now : Duration) (dest : Mac)
  | plain (op : RouterOp a)

/-- What an operation puts out: the frames it returns or pushes, and what goes up to the
host. -/
structure Effects where
  frames : List LinkFrameData
  delivered : Option Bytes
  deriving DecidableEq

def Effects.nothing : Effects := ⟨[], none⟩

namespace NodeRouter

variable {e : Capacities} {a : AuthCapacities} {t : TableCapacities}

def perform (k : Crypto) (n : NodeRouter e a t) : NodeOp a → NodeRouter e a t × Effects
  | .setAuth auth => (n.setAuth auth.auth, .nothing)
  | .setLinkFeatures idx features =>
    ({ n with managed := n.managed.setLinkFeatures idx features }, .nothing)
  | .ingestRevocation record now => ((n.ingestRevocation k record now).1, .nothing)
  | .handleFrame now ifaceIdx frame metrics txLen accepts =>
    let (n, outcome, out) :=
      n.handleFrameWithMetrics k now ifaceIdx frame metrics txLen ⟨[], accepts⟩
    (n, ⟨outcome.forward.toList ++ out.frames, outcome.deliverLocal⟩)
  | .poll now txLen =>
    let (n, frame) := n.poll k now txLen
    (n, ⟨frame.toList, none⟩)
  | .pollKeepalive txLen =>
    let (core, frame) := n.core.pollKeepalive k txLen
    (n.withCore core, ⟨frame.toList, none⟩)
  | .pollChallenge now txLen =>
    let (core, frame) := n.core.pollChallenge k now txLen
    (n.withCore core, ⟨(frame.map Prod.snd).toList, none⟩)
  | .startPing now target count interval timeout payloadLen =>
    (n.withPing (n.asPing.startPing now target count interval timeout payloadLen).1, .nothing)
  | .cancelPing sessionSeq => (n.withPing (n.asPing.cancelPing sessionSeq), .nothing)
  | .pollPing now txLen =>
    let (p, frame) := n.asPing.pollPing now txLen
    (n.withPing p, ⟨frame.toList, none⟩)
  | .pollRenewal now txLen =>
    let (n, frame) := n.pollRenewal k now txLen
    (n, ⟨frame.toList, none⟩)
  | .sendRenewReply now requester cert txLen =>
    (n, ⟨(n.sendRenewReply now requester cert txLen).toList, none⟩)
  | .handleLocal now dest payload txLen =>
    let (n, sent) := n.handleLocal now dest payload txLen
    (n, ⟨sent.toOption.toList, none⟩)
  | .handleLocalMcast now dests payload txLen accepts =>
    let (n, _, out) := n.handleLocalMcast now dests payload txLen ⟨[], accepts⟩
    (n, ⟨out.frames, none⟩)
  | .getEgressInterface now dest => ((n.getEgressInterface now dest).1, .nothing)
  | .plain op => (if op.isPlain then n.withCore (n.core.step k op) else n, .nothing)

def step (k : Crypto) (n : NodeRouter e a t) (op : NodeOp a) : NodeRouter e a t :=
  (n.perform k op).1

/-- No route, link-quality row or neighbor key is added or refreshed. -/
structure LearnsNothing (n n' : NodeRouter e a t) : Prop where
  routes : ∀ orig record, n'.core.batman.originatorTable.get? orig = some record →
    n.core.batman.originatorTable.get? orig = some record
  quality : ∀ row ∈ n'.linkQuality.toList, row ∈ n.linkQuality.toList
  keys : ∀ auth', n'.core.auth = some auth' → ∀ key ∈ auth'.neighbors.toList,
    ∃ auth, n.core.auth = some auth ∧ key ∈ auth.neighbors.toList

end NodeRouter

/-! ### Nothing known of anyone -/

namespace CentralRouter

variable {e : Capacities} {a : AuthCapacities} {k : Crypto}

structure Bare (r : CentralRouter e a) : Prop where
  routes : ∀ mac, r.batman.originatorTable.contains mac = false
  keys : ∀ auth, r.auth = some auth → auth.neighbors.toList = []

/-- A node under its own revocation has no auth state, or knows nobody. -/
def Inert (r : CentralRouter e a) : Prop :=
  r.selfRevocation.isSome = true → r.auth = none ∨ r.Bare

/-- Bare routers stay bare, and the latch is not set beside an auth state. -/
structure KeepsInert (r r' : CentralRouter e a) : Prop where
  latch : r'.auth ≠ none → r'.selfRevocation.isSome = true → r.selfRevocation.isSome = true
  auth : r.auth = none → r'.auth = none
  bare : r.Bare → r'.Bare

section Bare
variable {r r' r'' : CentralRouter e a}

theorem KeepsInert.inert (h : KeepsInert r r') (hinert : r.Inert) : r'.Inert := by
  intro hlatched
  by_cases hauth : r'.auth = none
  · exact .inl hauth
  · cases hinert (h.latch hauth hlatched) with
    | inl hnone => exact .inl (h.auth hnone)
    | inr hbare => exact .inr (h.bare hbare)

theorem KeepsInert.refl (r : CentralRouter e a) : KeepsInert r r :=
  ⟨fun _ h => h, fun h => h, fun h => h⟩

theorem KeepsInert.trans (h : KeepsInert r r') (h' : KeepsInert r' r'') : KeepsInert r r'' := by
  refine ⟨?_, fun hnone => h'.auth (h.auth hnone), fun hbare => h'.bare (h.bare hbare)⟩
  intro hauth hlatched
  refine h.latch ?_ (h'.latch hauth hlatched)
  intro hnone
  exact hauth (h'.auth hnone)

/-- The engine takes a step that brings no routing information. -/
theorem keepsInert_of_batman (op : EngineOp) (hquiet : r.batman.currentOgm? op = none)
    (hreset : op ≠ .reset) (hbatman : r'.batman = r.batman.step op) (hauth : r'.auth = r.auth)
    (hlatch : r'.selfRevocation = r.selfRevocation) : KeepsInert r r' := by
  refine ⟨fun _ h => hlatch ▸ h, fun h => hauth.trans h, ?_⟩
  intro hbare
  refine ⟨?_, fun auth h => hbare.keys auth (hauth ▸ h)⟩
  intro mac
  rw [hbatman, Bool.eq_false_iff]
  intro hknown
  have hwas := (((r.batman.step_quiet hquiet hreset).2 mac).mp hknown).1
  rw [hbare.routes mac] at hwas
  cases hwas

/-- The auth state loses neighbors at most. -/
theorem keepsInert_of_auth {auth auth' : OgmAuth a} (hauth : r.auth = some auth)
    (hauth' : r'.auth = some auth')
    (hkeys : ∀ key ∈ auth'.neighbors.toList, key ∈ auth.neighbors.toList)
    (hroutes : ∀ mac, r.batman.originatorTable.contains mac = false →
      r'.batman.originatorTable.contains mac = false)
    (hlatch : r'.selfRevocation = r.selfRevocation) : KeepsInert r r' := by
  refine ⟨fun _ h => hlatch ▸ h, ?_, ?_⟩
  · intro hnone
    rw [hauth] at hnone
    cases hnone
  · intro hbare
    refine ⟨fun mac => hroutes mac (hbare.routes mac), ?_⟩
    intro auth'' hauth''
    obtain rfl := Option.some.inj (hauth'.symm.trans hauth'')
    rw [List.eq_nil_iff_forall_not_mem]
    intro key hkey
    have hwas := hkeys key hkey
    rw [hbare.keys auth hauth] at hwas
    cases hwas

theorem keepsInert_of_map (f : OgmAuth a → OgmAuth a)
    (hf : ∀ auth, (f auth).neighbors = auth.neighbors)
    (hauth : r'.auth = r.auth.map f) (hbatman : r'.batman = r.batman)
    (hlatch : r'.selfRevocation = r.selfRevocation) : KeepsInert r r' := by
  cases hwas : r.auth with
  | none =>
    rw [hwas] at hauth
    refine ⟨fun h => absurd hauth h, fun _ => hauth, ?_⟩
    intro hbare
    refine ⟨by rw [hbatman]; exact hbare.routes, ?_⟩
    intro auth hsome
    rw [hauth] at hsome
    cases hsome
  | some auth =>
    rw [hwas] at hauth
    refine keepsInert_of_auth hwas hauth ?_ ?_ hlatch
    · intro key hkey
      rw [hf] at hkey
      exact hkey
    · intro mac hmac
      rw [hbatman]
      exact hmac

theorem bare_setAuth (r : CentralRouter e a) (auth : FreshAuth a) : (r.setAuth auth.auth).Bare := by
  refine ⟨fun _ => rfl, ?_⟩
  intro auth' hauth'
  obtain rfl := Option.some.inj hauth'
  exact auth.fresh

theorem applySelfRevocation_keepsInert (r : CentralRouter e a) :
    KeepsInert r r.applySelfRevocation.1 := by
  unfold applySelfRevocation
  cases hauth : r.auth with
  | none => exact .refl r
  | some auth =>
    have hkept := auth.takeSelfRevoked_kept
    dsimp only
    generalize auth.takeSelfRevoked = taken at hkept
    obtain ⟨auth', _ | record⟩ := taken
    · refine keepsInert_of_auth hauth rfl ?_ (fun _ h => h) rfl
      intro key hkey
      rw [← hkept.neighbors]
      exact hkey
    · refine ⟨fun h => absurd rfl h, fun _ => rfl, ?_⟩
      intro _
      exact ⟨fun _ => rfl, fun _ h => nomatch h⟩

theorem actOnTrickleHint_keepsInert (r : CentralRouter e a) (now : Duration) :
    KeepsInert r (r.actOnTrickleHint now) := by
  unfold actOnTrickleHint
  cases hauth : r.auth with
  | none => exact .refl r
  | some auth =>
    have hkept : auth.takeTrickleResetHint.1.neighbors = auth.neighbors := rfl
    dsimp only
    generalize auth.takeTrickleResetHint = taken at hkept
    obtain ⟨auth', _ | _⟩ := taken
    · refine keepsInert_of_auth hauth rfl (fun key hkey => ?_) (fun _ h => h) rfl
      rw [← hkept]
      exact hkey
    · have hhinted : KeepsInert r { r with auth := some auth' } := by
        refine keepsInert_of_auth hauth rfl (fun key hkey => ?_) (fun _ h => h) rfl
        rw [← hkept]
        exact hkey
      have htimers : KeepsInert { r with auth := some auth' }
          { r with auth := some auth', batman := r.batman.resetOgmTimers now } :=
        keepsInert_of_batman (.resetOgmTimers now) rfl (by simp) rfl rfl rfl
      have hrevoked : KeepsInert { r with auth := some auth', batman := r.batman.resetOgmTimers now }
          { r with
            auth := some auth'
            batman := (r.batman.resetOgmTimers now).revokeOriginators auth'.macsToPurge } :=
        keepsInert_of_batman (.revokeOriginators auth'.macsToPurge) rfl (by simp) rfl rfl rfl
      have hpurged : KeepsInert
          { r with
            auth := some auth'
            batman := (r.batman.resetOgmTimers now).revokeOriginators auth'.macsToPurge }
          { r with
            auth := some auth'
            batman := ((r.batman.resetOgmTimers now).revokeOriginators
              auth'.macsToPurge).purgeStale now } :=
        keepsInert_of_batman (.purgeStale now) rfl (by simp) rfl rfl rfl
      exact hhinted.trans (htimers.trans (hrevoked.trans hpurged))

theorem ingestRevocation_keepsInert (r : CentralRouter e a) (record : RevocationRecord)
    (now : Duration) : KeepsInert r (r.ingestRevocation k record now).1 := by
  unfold ingestRevocation
  cases hauth : r.auth with
  | none => exact .refl r
  | some auth =>
    have hadds := (auth.ingestRevocation_adds k record).2.2.1
    dsimp only
    generalize auth.ingestRevocation k record = ingested at hadds
    obtain ⟨auth', newly⟩ := ingested
    have hheld : KeepsInert r { r with auth := some auth' } :=
      keepsInert_of_auth hauth rfl hadds (fun _ h => h) rfl
    have hacted := applySelfRevocation_keepsInert { r with auth := some auth' }
    dsimp only
    generalize applySelfRevocation { r with auth := some auth' } = applied at hacted
    obtain ⟨r₁, _ | _⟩ := applied
    · exact (hheld.trans hacted).trans (r₁.actOnTrickleHint_keepsInert now)
    · exact hheld.trans hacted

theorem setAuthTime_keepsInert (r : CentralRouter e a) (now : Duration) (wall : Clocked) :
    KeepsInert r (r.setAuthTime now wall) := by
  unfold setAuthTime
  cases hauth : r.auth with
  | none => exact .refl r
  | some auth =>
    have hspec := (auth.setTime_spec now wall).2.2.1
    have hkeys : ∀ key ∈ (auth.setTime now wall).neighbors.toList,
        key ∈ auth.neighbors.toList := fun key hkey => ((hspec key).mp hkey).1
    have hticked : KeepsInert r { r with auth := some (auth.setTime now wall) } :=
      keepsInert_of_auth hauth rfl hkeys (fun _ h => h) rfl
    dsimp only
    split
    · exact hticked
    · refine hticked.trans (keepsInert_of_batman (.retainProven now fun mac =>
        ((auth.setTime now wall).liveNeighbor mac).isSome) rfl (by simp) rfl rfl rfl)

theorem plain_keepsInert (r : CentralRouter e a) {op : RouterOp a} (hplain : op.isPlain = true) :
    KeepsInert r (r.step k op) := by
  cases op with
  | setRequireAuth | setLazyCertDistribution | takeSelfRevocation =>
    exact ⟨fun _ h => h, fun h => h, fun h => ⟨h.routes, h.keys⟩⟩
  | noteSelfRevoked record =>
    exact ⟨fun h => absurd rfl h, fun _ => rfl, fun h => ⟨h.routes, fun _ h => nomatch h⟩⟩
  | setAuthTime now wall => exact r.setAuthTime_keepsInert now wall
  | takeRenewedCert =>
    exact keepsInert_of_map (fun auth => auth.takeRenewedCert.1) (fun _ => rfl) rfl rfl rfl
  | takeRenewalRequest =>
    exact keepsInert_of_map (fun auth => auth.takeRenewalRequest.1) (fun _ => rfl) rfl rfl rfl
  | driver op =>
    rw [step]
    split
    · rename_i hdriver
      refine keepsInert_of_map _ (fun auth => ?_) rfl rfl rfl
      refine (OgmAuth.after_keysKept (s := auth) op ?_ ?_).neighbors
      · rintro op' rfl
        cases hdriver
      · rintro body rfl
        cases hdriver
    · exact .refl r
  | engine op =>
    rw [step]
    split
    · rename_i hlocal
      have hquiet : r.batman.currentOgm? op = none ∧ op ≠ .reset := by
        cases op with
        | handleRx | reset => exact absurd hlocal Bool.false_ne_true
        | _ => exact ⟨rfl, by simp⟩
      exact keepsInert_of_batman op hquiet.1 hquiet.2 rfl rfl rfl
    · exact .refl r
  | _ => cases hplain

/-! ### Where the latch is set -/

theorem judgeFrame_selfRevocation (r : CentralRouter e a) (now : Duration) (ifaceIdx : Nat)
    (frame : LinkFrame) (txLen : Nat) :
    (r.judgeFrame k now ifaceIdx frame txLen).1.selfRevocation = r.selfRevocation := by
  unfold judgeFrame
  repeat' split
  all_goals rfl

theorem actOnTrickleHint_selfRevocation (r : CentralRouter e a) (now : Duration) :
    (r.actOnTrickleHint now).selfRevocation = r.selfRevocation := by
  unfold actOnTrickleHint
  repeat' split
  all_goals rfl

theorem deliver_selfRevocation (r : CentralRouter e a) (now : Duration) (frame : LinkFrame)
    (replyLen : Nat) : (r.deliver k now frame replyLen).1.selfRevocation = r.selfRevocation := by
  unfold deliver
  split <;> rfl

theorem routeFrame_selfRevocation (r : CentralRouter e a) (now : Duration) (ifaceIdx : Nat)
    (frame : LinkFrame) (localQuality : Option U8) (txLen : Nat) (out : FrameSink) :
    (r.routeFrame k now ifaceIdx frame localQuality txLen out).1.selfRevocation =
      r.selfRevocation := by
  unfold routeFrame
  dsimp only
  split
  · split
    · split <;> rfl
    · unfold flushParked
      split <;> rfl
  · rfl
  · exact deliver_selfRevocation ..
  · rfl

/-- To act on its own revocation leaves the node without an auth state. -/
theorem applySelfRevocation_fired (r : CentralRouter e a) :
    (r.applySelfRevocation.2 = true → r.applySelfRevocation.1.auth = none) ∧
    (r.applySelfRevocation.2 = false →
      r.applySelfRevocation.1.selfRevocation = r.selfRevocation) := by
  unfold applySelfRevocation
  repeat' split
  all_goals refine ⟨?_, ?_⟩
  all_goals intro hfired
  all_goals first
    | rfl
    | cases hfired

theorem handleFrame_latch (r : CentralRouter e a) (now : Duration) (ifaceIdx : Nat)
    (frame : LinkFrame) (localQuality : Option U8) (txLen : Nat) (out : FrameSink) :
    (r.handleFrame k now ifaceIdx frame localQuality txLen out).1.auth = none ∨
      (r.handleFrame k now ifaceIdx frame localQuality txLen out).1.selfRevocation =
        r.selfRevocation := by
  unfold handleFrame
  split
  · exact .inr rfl
  have hjudged := r.judgeFrame_selfRevocation (k := k) now ifaceIdx frame txLen
  generalize r.judgeFrame k now ifaceIdx frame txLen = judged at hjudged
  obtain ⟨r₁, _ | outcome⟩ := judged
  · have hfired := r₁.applySelfRevocation_fired
    dsimp only
    generalize r₁.applySelfRevocation = applied at hfired
    obtain ⟨r₂, _ | _⟩ := applied
    · right
      rw [routeFrame_selfRevocation, actOnTrickleHint_selfRevocation, hfired.2 rfl]
      exact hjudged
    · exact .inl (hfired.1 rfl)
  · exact .inr hjudged

theorem poll_latch (r : CentralRouter e a) (now : Duration) (txLen : Nat) :
    (r.poll k now txLen).1.auth = none ∨
      (r.poll k now txLen).1.selfRevocation = r.selfRevocation := by
  have hfired := r.applySelfRevocation_fired
  unfold poll
  dsimp only
  generalize r.applySelfRevocation = applied at hfired
  obtain ⟨r₁, _ | _⟩ := applied
  · right
    rw [← hfired.2 rfl]
    repeat' split
    all_goals rfl
  · left
    have hnone := hfired.1 rfl
    dsimp only at hnone ⊢
    split
    · exact hnone
    · rw [hnone]

theorem inert_of_latch (h : r'.auth = none ∨ r'.selfRevocation = r.selfRevocation)
    (hunlocked : r.authLocked = false) : r'.Inert := by
  intro hlatched
  cases h with
  | inl hnone => exact .inl hnone
  | inr hkept =>
    have hself : r.selfRevocation.isSome = false := (Bool.or_eq_false_iff.mp hunlocked).1
    rw [hkept, hself] at hlatched
    cases hlatched

/-- What is locked has no auth state, or knows nobody. -/
theorem bare_of_locked (hinert : r.Inert) (hlocked : r.authLocked = true) :
    r.auth = none ∨ r.Bare := by
  rw [authLocked, Bool.or_eq_true, Bool.and_eq_true] at hlocked
  cases hlocked with
  | inl hlatched => exact hinert hlatched
  | inr hrequired => exact .inl (Option.isNone_iff_eq_none.mp hrequired.2)

theorem authLocked_applySelfRevocation (hlocked : r.authLocked = true) :
    r.applySelfRevocation.1.authLocked = true := by
  unfold applySelfRevocation
  split
  · exact hlocked
  · rename_i auth hauth
    split
    · rw [authLocked, hauth] at hlocked
      exact hlocked
    · rfl

theorem poll_locked (hlocked : r.authLocked = true) (now : Duration) (txLen : Nat) :
    r.poll k now txLen = (r.applySelfRevocation.1, none) := by
  rw [poll, if_pos (authLocked_applySelfRevocation hlocked)]

theorem pollKeepalive_locked (hlocked : r.authLocked = true) (txLen : Nat) :
    r.pollKeepalive k txLen = (r, none) := by
  rw [pollKeepalive, if_pos hlocked]

theorem pollChallenge_locked (hlocked : r.authLocked = true) (now : Duration) (txLen : Nat) :
    r.pollChallenge k now txLen = (r, none) := by
  rw [pollChallenge, if_pos hlocked]

theorem pollKeepalive_selfRevocation (r : CentralRouter e a) (txLen : Nat) :
    (r.pollKeepalive k txLen).1.selfRevocation = r.selfRevocation := by
  unfold pollKeepalive
  dsimp only
  repeat' split
  all_goals rfl

theorem pollChallenge_selfRevocation (r : CentralRouter e a) (now : Duration) (txLen : Nat) :
    (r.pollChallenge k now txLen).1.selfRevocation = r.selfRevocation := by
  unfold pollChallenge
  dsimp only
  repeat' split
  all_goals rfl

theorem nextHop_bare (hbare : r.Bare) (now : Duration) (dest : Mac) :
    r.batman.nextHop now dest = none := by
  have hunknown := hbare.routes dest
  rw [IndexMap.contains_eq_isSome, Option.isSome_eq_false_iff, Option.isNone_iff_eq_none]
    at hunknown
  rw [BatmanEngine.nextHop, hunknown]
  rfl

theorem pollRenewal_neighbors (auth : OgmAuth a) (paths : BatmanEngine e) (now : Duration)
    (txLen : Nat) : (auth.pollRenewal k paths now txLen).1.neighbors = auth.neighbors := by
  unfold OgmAuth.pollRenewal
  split
  · rfl
  unfold OgmAuth.askAuthority
  split
  · rfl
  split
  · rfl
  split
  · rfl
  split
  · rfl
  have hbuilt := OgmAuth.buildRenewalRequest_cases k
    { auth with nextRenewalPoll := now + renewalPollInterval }
    (txLen - BatmanUnicastPacket.size)
  generalize OgmAuth.buildRenewalRequest k
    { auth with nextRenewalPoll := now + renewalPollInterval }
    (txLen - BatmanUnicastPacket.size) = built at hbuilt ⊢
  obtain ⟨auth', _ | body⟩ := built
  all_goals
    rcases hbuilt with heq | ⟨_, _, heq⟩
    all_goals
      dsimp only at heq
      rw [heq]

theorem pollRenewal_unrouted (auth : OgmAuth a) {paths : BatmanEngine e} {now : Duration}
    (txLen : Nat) (hnone : ∀ dest, paths.nextHop now dest = none) :
    (auth.pollRenewal k paths now txLen).2 = none := by
  unfold OgmAuth.pollRenewal
  split
  · rfl
  unfold OgmAuth.askAuthority
  split
  · rfl
  split
  · rfl
  rw [hnone]

end Bare

end CentralRouter

/-! ### The whole router -/

namespace NodeRouter

variable {e : Capacities} {a : AuthCapacities} {t : TableCapacities} {k : Crypto}

section Frames
variable (n : NodeRouter e a t)

@[simp] theorem core_withCore (core : CentralRouter e a) : (n.withCore core).core = core := rfl

@[simp] theorem core_retainLive : n.retainLive.core = n.core := rfl

@[simp] theorem core_afterCore (core : CentralRouter e a) : (n.afterCore core).core = core := by
  unfold afterCore
  split <;> rfl

@[simp] theorem core_withPing (p : PingRouter e a) : (n.withPing p).core = p.core := rfl

@[simp] theorem core_measureFrame (ifaceIdx : Nat) (frame : LinkFrame) (metrics : LinkMetrics) :
    (n.measureFrame ifaceIdx frame metrics).core = n.core := by
  unfold measureFrame core ManagedRouter.touchIface
  dsimp only
  repeat' split
  all_goals rfl

@[simp] theorem core_creditEchoReply (now : Duration) (payload : Bytes) :
    (n.creditEchoReply now payload).core = n.core := by
  unfold creditEchoReply
  split <;> rfl

theorem quality_afterCore (core : CentralRouter e a) :
    ∀ row ∈ (n.afterCore core).linkQuality.toList, row ∈ n.linkQuality.toList := by
  intro row hrow
  unfold afterCore at hrow
  split at hrow
  · cases hrow
  · exact hrow

theorem quality_retainLive : ∀ row ∈ n.retainLive.linkQuality.toList, row ∈ n.linkQuality.toList :=
  fun _ hrow => List.mem_of_mem_filter hrow

theorem core_setLinkFeatures (idx : Nat) (features : InterfaceFeatures) :
    (n.managed.setLinkFeatures idx features).core.auth = n.core.auth ∧
      (n.managed.setLinkFeatures idx features).core.batman = n.core.batman ∧
      (n.managed.setLinkFeatures idx features).core.selfRevocation = n.core.selfRevocation := by
  unfold ManagedRouter.setLinkFeatures ManagedRouter.touchIface
  repeat' split
  all_goals exact ⟨rfl, rfl, rfl⟩

theorem core_pollPing (now : Duration) (txLen : Nat) :
    (n.asPing.pollPing now txLen).1.core = n.core := by
  unfold PingRouter.pollPing
  dsimp only
  repeat' split
  all_goals rfl

theorem core_getEgressInterface (now : Duration) (dest : Mac) :
    (n.getEgressInterface now dest).1.core = n.core ∧
      (n.getEgressInterface now dest).1.linkQuality = n.linkQuality := by
  unfold getEgressInterface
  dsimp only
  repeat' split
  all_goals exact ⟨rfl, rfl⟩

theorem core_handleLocalMcast (now : Duration) (dests : List Mac) (payload : Bytes) (txLen : Nat)
    (out : FrameSink) : (n.handleLocalMcast now dests payload txLen out).1.core = n.core := by
  unfold handleLocalMcast
  dsimp only
  repeat' split
  all_goals rfl

theorem pollRenewal_keepsInert (now : Duration) (txLen : Nat) :
    n.core.KeepsInert (n.pollRenewal k now txLen).1.core := by
  unfold pollRenewal
  split
  · exact .refl _
  · rename_i auth hauth
    have hneighbors := CentralRouter.pollRenewal_neighbors (k := k) auth n.core.batman now txLen
    exact CentralRouter.keepsInert_of_auth hauth rfl (fun key hkey => hneighbors ▸ hkey)
      (fun _ h => h) rfl

theorem handleLocal_keepsInert (now : Duration) (dest : Mac) (payload : Bytes) (txLen : Nat) :
    n.core.KeepsInert (n.handleLocal now dest payload txLen).1.core := by
  unfold handleLocal
  split
  · exact .refl _
  split
  · have hkept : n.core.KeepsInert
        { n.core with batman := (n.core.batman.handleLocalBroadcast payload txLen).1 } := by
      refine CentralRouter.keepsInert_of_batman .nextBroadcastSeqno rfl (by simp) ?_ rfl rfl
      unfold BatmanEngine.handleLocalBroadcast
      dsimp only
      split <;> rfl
    generalize n.core.batman.handleLocalBroadcast payload txLen = sent at hkept
    obtain ⟨batman, _ | frame⟩ := sent
    · exact hkept
    · exact hkept
  split
  · exact .refl _
  dsimp only
  split <;> exact .refl _

theorem core_step_ingestRevocation (record : RevocationRecord) (now : Duration) :
    (n.step k (.ingestRevocation record now)).core = (n.core.ingestRevocation k record now).1 := by
  rw [step, perform, ingestRevocation]
  dsimp only
  split
  · rw [core_retainLive, core_afterCore]
  · rw [core_afterCore]

theorem core_step_poll (now : Duration) (txLen : Nat) :
    (n.step k (.poll now txLen)).core = (n.core.poll k now txLen).1 := by
  rw [step, perform, poll]
  dsimp only
  split
  · rw [core_afterCore]
  · rw [core_retainLive, core_afterCore]

theorem step_handleFrame_locked {n : NodeRouter e a t} (hlocked : n.core.authLocked = true)
    (now : Duration) (ifaceIdx : Nat) (frame : LinkFrame) (metrics : LinkMetrics) (txLen : Nat)
    (accepts : List LinkFrameData → LinkFrameData → Bool) :
    n.perform k (.handleFrame now ifaceIdx frame metrics txLen accepts) = (n, .nothing) := by
  rw [perform, handleFrameWithMetrics, if_pos hlocked]
  rfl

theorem core_step_handleFrame (now : Duration) (ifaceIdx : Nat) (frame : LinkFrame)
    (metrics : LinkMetrics) (txLen : Nat) (accepts : List LinkFrameData → LinkFrameData → Bool)
    (hunlocked : n.core.authLocked = false) : ∃ localQuality,
      (n.step k (.handleFrame now ifaceIdx frame metrics txLen accepts)).core =
        (n.core.handleFrame k now ifaceIdx frame localQuality txLen ⟨[], accepts⟩).1 := by
  refine ⟨(n.measureFrame ifaceIdx frame metrics).linkQuality.qualityFor frame.src ifaceIdx, ?_⟩
  rw [step, perform, handleFrameWithMetrics, hunlocked, if_neg Bool.false_ne_true]
  dsimp only
  split
  · rw [core_creditEchoReply, core_afterCore, core_measureFrame]
  · rw [core_afterCore, core_measureFrame]

/-- The one thing that brings a node to know others is an operation of an unlocked one. -/
theorem step_inert (op : NodeOp a) (hinert : n.core.Inert) : (n.step k op).core.Inert := by
  cases op with
  | setAuth auth => exact fun _ => .inr (n.core.bare_setAuth auth)
  | setLinkFeatures idx features =>
    obtain ⟨hauth, hbatman, hlatch⟩ := n.core_setLinkFeatures idx features
    refine CentralRouter.KeepsInert.inert ?_ hinert
    refine CentralRouter.keepsInert_of_map id (fun _ => rfl) ?_ hbatman hlatch
    rw [Option.map_id]
    exact hauth
  | ingestRevocation record now =>
    rw [core_step_ingestRevocation]
    exact (n.core.ingestRevocation_keepsInert record now).inert hinert
  | handleFrame now ifaceIdx frame metrics txLen accepts =>
    cases hlocked : n.core.authLocked with
    | true =>
      rw [step, step_handleFrame_locked hlocked]
      exact hinert
    | false =>
      obtain ⟨localQuality, hcore⟩ :=
        n.core_step_handleFrame (k := k) now ifaceIdx frame metrics txLen accepts hlocked
      rw [hcore]
      exact CentralRouter.inert_of_latch (CentralRouter.handleFrame_latch ..) hlocked
  | poll now txLen =>
    rw [core_step_poll]
    cases hlocked : n.core.authLocked with
    | true =>
      rw [CentralRouter.poll_locked hlocked]
      exact n.core.applySelfRevocation_keepsInert.inert hinert
    | false => exact CentralRouter.inert_of_latch (CentralRouter.poll_latch ..) hlocked
  | pollKeepalive txLen =>
    cases hlocked : n.core.authLocked with
    | true =>
      rw [step, perform, CentralRouter.pollKeepalive_locked hlocked]
      exact hinert
    | false =>
      refine CentralRouter.inert_of_latch (.inr ?_) hlocked
      exact n.core.pollKeepalive_selfRevocation txLen
  | pollChallenge now txLen =>
    cases hlocked : n.core.authLocked with
    | true =>
      rw [step, perform, CentralRouter.pollChallenge_locked hlocked]
      exact hinert
    | false =>
      refine CentralRouter.inert_of_latch (.inr ?_) hlocked
      exact n.core.pollChallenge_selfRevocation now txLen
  | startPing => exact hinert
  | cancelPing => exact hinert
  | pollPing now txLen =>
    have hcore : (n.step k (.pollPing now txLen)).core = n.core := n.core_pollPing now txLen
    rw [hcore]
    exact hinert
  | pollRenewal now txLen => exact (n.pollRenewal_keepsInert now txLen).inert hinert
  | sendRenewReply => exact hinert
  | handleLocal now dest payload txLen =>
    exact (n.handleLocal_keepsInert now dest payload txLen).inert hinert
  | handleLocalMcast now dests payload txLen accepts =>
    have hcore : (n.step k (.handleLocalMcast now dests payload txLen accepts)).core = n.core :=
      n.core_handleLocalMcast now dests payload txLen ⟨[], accepts⟩
    rw [hcore]
    exact hinert
  | getEgressInterface now dest =>
    have hcore : (n.step k (.getEgressInterface now dest)).core = n.core :=
      (n.core_getEgressInterface now dest).1
    rw [hcore]
    exact hinert
  | plain op =>
    rw [step, perform]
    split
    · rename_i hplain
      exact (n.core.plain_keepsInert hplain).inert hinert
    · exact hinert

end Frames

/-! ### Nothing comes of a locked node -/

section Nothing
variable {n n' : NodeRouter e a t}

theorem learnsNothing_of_core (hbatman : n'.core.batman = n.core.batman)
    (hauth : n'.core.auth = n.core.auth)
    (hquality : ∀ row ∈ n'.linkQuality.toList, row ∈ n.linkQuality.toList) :
    n.LearnsNothing n' := by
  refine ⟨?_, hquality, ?_⟩
  · intro orig record hrecord
    rw [hbatman] at hrecord
    exact hrecord
  · intro auth hsome key hkey
    rw [hauth] at hsome
    exact ⟨auth, hsome, hkey⟩

theorem LearnsNothing.refl (n : NodeRouter e a t) : n.LearnsNothing n :=
  learnsNothing_of_core rfl rfl fun _ hrow => hrow

theorem learnsNothing_of_bare (hbare : n'.core.Bare)
    (hquality : ∀ row ∈ n'.linkQuality.toList, row ∈ n.linkQuality.toList) :
    n.LearnsNothing n' := by
  refine ⟨?_, hquality, ?_⟩
  · intro orig record hrecord
    have hunknown := hbare.routes orig
    rw [IndexMap.contains_eq_isSome, hrecord] at hunknown
    cases hunknown
  · intro auth hsome key hkey
    rw [hbare.keys auth hsome] at hkey
    cases hkey

/-- What a locked node may do to its core: without an auth state it leaves the routes
alone, and with one there is nothing to leave alone. -/
theorem learnsNothing_of_locked (hinert : n.core.Inert) (hlocked : n.core.authLocked = true)
    (hkeeps : n.core.KeepsInert n'.core)
    (htable : n.core.auth = none →
      n'.core.batman.originatorTable = n.core.batman.originatorTable)
    (hquality : ∀ row ∈ n'.linkQuality.toList, row ∈ n.linkQuality.toList) :
    n.LearnsNothing n' := by
  cases CentralRouter.bare_of_locked hinert hlocked with
  | inl hnone =>
    refine ⟨?_, hquality, ?_⟩
    · intro orig record hrecord
      rw [htable hnone] at hrecord
      exact hrecord
    · intro auth hsome
      rw [hkeeps.auth hnone] at hsome
      cases hsome
  | inr hbare => exact learnsNothing_of_bare (hkeeps.bare hbare) hquality

theorem pollRenewal_locked (hinert : n.core.Inert) (hlocked : n.core.authLocked = true)
    (now : Duration) (txLen : Nat) : (n.pollRenewal k now txLen).2 = none := by
  unfold pollRenewal
  split
  · rfl
  · rename_i auth hauth
    cases CentralRouter.bare_of_locked hinert hlocked with
    | inl hnone =>
      rw [hauth] at hnone
      cases hnone
    | inr hbare =>
      exact CentralRouter.pollRenewal_unrouted auth txLen fun dest =>
        CentralRouter.nextHop_bare hbare now dest

theorem sendRenewReply_locked (hinert : n.core.Inert) (hlocked : n.core.authLocked = true)
    (now : Duration) (requester : Mac) (cert : MembershipCert) (txLen : Nat) :
    n.sendRenewReply now requester cert txLen = none := by
  unfold sendRenewReply
  split
  · rfl
  · rename_i auth hauth
    cases CentralRouter.bare_of_locked hinert hlocked with
    | inl hnone =>
      rw [hauth] at hnone
      cases hnone
    | inr hbare => rw [OgmAuth.sendRenewReply, CentralRouter.nextHop_bare hbare]

theorem pollPing_locked (hlocked : n.core.authLocked = true) (now : Duration) (txLen : Nat) :
    (n.asPing.pollPing now txLen).2 = none := by
  have hcore : n.asPing.core.authLocked = true := hlocked
  unfold PingRouter.pollPing
  split
  · rfl
  rw [hcore]
  dsimp only
  split <;> rfl

theorem step_local_table (batman : BatmanEngine e) {op : EngineOp} (hlocal : op.isLocal = true) :
    (batman.step op).originatorTable = batman.originatorTable := by
  cases op with
  | setLocalMcastGroups =>
    unfold BatmanEngine.step BatmanEngine.setLocalMcastGroups
    dsimp only
    split <;> rfl
  | configureInterfaceOgm =>
    unfold BatmanEngine.step BatmanEngine.configureInterfaceOgm
    dsimp only
    split <;> rfl
  | configureInterfaceKeepalive =>
    unfold BatmanEngine.step BatmanEngine.configureInterfaceKeepalive
    dsimp only
    split <;> rfl
  | onInterfaceEmitted => rfl
  | onKeepaliveEmitted => rfl
  | nextBroadcastSeqno => rfl
  | _ => cases hlocal

/-- An operation on a core without an auth state leaves its routes alone. -/
theorem plain_table {r : CentralRouter e a} {op : RouterOp a} (hplain : op.isPlain = true)
    (hnone : r.auth = none) :
    (r.step k op).batman.originatorTable = r.batman.originatorTable := by
  cases op with
  | setRequireAuth | setLazyCertDistribution | takeSelfRevocation | noteSelfRevoked
  | takeRenewedCert | takeRenewalRequest => rfl
  | setAuthTime =>
    rw [CentralRouter.step, CentralRouter.setAuthTime, hnone]
  | driver op =>
    rw [CentralRouter.step]
    split <;> rfl
  | engine op =>
    rw [CentralRouter.step]
    split
    · rename_i hlocal
      exact step_local_table r.batman hlocal
    · rfl
  | _ => cases hplain

theorem perform_locked (hinert : n.core.Inert) (hlocked : n.core.authLocked = true)
    (op : NodeOp a) : (n.perform k op).2 = .nothing ∧ n.LearnsNothing (n.perform k op).1 := by
  cases op with
  | setAuth auth =>
    refine ⟨rfl, learnsNothing_of_bare (n.core.bare_setAuth auth) ?_⟩
    exact fun row hrow => absurd hrow List.not_mem_nil
  | setLinkFeatures idx features =>
    obtain ⟨hauth, hbatman, _⟩ := n.core_setLinkFeatures idx features
    exact ⟨rfl, learnsNothing_of_core hbatman hauth fun _ hrow => hrow⟩
  | ingestRevocation record now =>
    refine ⟨rfl, learnsNothing_of_locked hinert hlocked ?_ ?_ ?_⟩
    · have hcore := n.core_step_ingestRevocation (k := k) record now
      rw [step] at hcore
      rw [hcore]
      exact n.core.ingestRevocation_keepsInert record now
    · intro hnone
      have hcore := n.core_step_ingestRevocation (k := k) record now
      rw [step] at hcore
      rw [hcore, CentralRouter.ingestRevocation, hnone]
    · intro row hrow
      rw [perform, ingestRevocation] at hrow
      dsimp only at hrow
      split at hrow
      · exact n.quality_afterCore _ row (quality_retainLive _ row hrow)
      · exact n.quality_afterCore _ row hrow
  | handleFrame now ifaceIdx frame metrics txLen accepts =>
    rw [step_handleFrame_locked hlocked]
    exact ⟨rfl, .refl n⟩
  | poll now txLen =>
    have hcore := n.core_step_poll (k := k) now txLen
    rw [step, CentralRouter.poll_locked hlocked] at hcore
    refine ⟨?_, learnsNothing_of_locked hinert hlocked ?_ ?_ ?_⟩
    · rw [perform, poll, CentralRouter.poll_locked hlocked]
      rfl
    · rw [hcore]
      exact n.core.applySelfRevocation_keepsInert
    · intro hnone
      rw [hcore, CentralRouter.applySelfRevocation, hnone]
    · intro row hrow
      rw [perform, poll] at hrow
      dsimp only at hrow
      split at hrow
      · exact n.quality_afterCore _ row hrow
      · exact n.quality_afterCore _ row (quality_retainLive _ row hrow)
  | pollKeepalive txLen =>
    rw [perform, CentralRouter.pollKeepalive_locked hlocked]
    exact ⟨rfl, .refl n⟩
  | pollChallenge now txLen =>
    rw [perform, CentralRouter.pollChallenge_locked hlocked]
    exact ⟨rfl, .refl n⟩
  | startPing => exact ⟨rfl, learnsNothing_of_core rfl rfl fun _ hrow => hrow⟩
  | cancelPing => exact ⟨rfl, learnsNothing_of_core rfl rfl fun _ hrow => hrow⟩
  | pollPing now txLen =>
    have hcore : (n.perform k (.pollPing now txLen)).1.core = n.core := n.core_pollPing now txLen
    refine ⟨?_, learnsNothing_of_core (by rw [hcore]) (by rw [hcore]) fun _ hrow => hrow⟩
    change Effects.mk (n.asPing.pollPing now txLen).2.toList none = .nothing
    rw [pollPing_locked hlocked]
    rfl
  | pollRenewal now txLen =>
    refine ⟨?_, learnsNothing_of_locked hinert hlocked (n.pollRenewal_keepsInert now txLen) ?_ ?_⟩
    · change Effects.mk (n.pollRenewal k now txLen).2.toList none = .nothing
      rw [pollRenewal_locked hinert hlocked]
      rfl
    · intro hnone
      rw [perform, pollRenewal, hnone]
    · intro row hrow
      rw [perform, pollRenewal] at hrow
      dsimp only at hrow
      split at hrow <;> exact hrow
  | sendRenewReply now requester cert txLen =>
    rw [perform, sendRenewReply_locked hinert hlocked]
    exact ⟨rfl, .refl n⟩
  | handleLocal now dest payload txLen =>
    rw [perform, handleLocal, if_pos hlocked]
    exact ⟨rfl, .refl n⟩
  | handleLocalMcast now dests payload txLen accepts =>
    rw [perform, handleLocalMcast, if_pos hlocked]
    exact ⟨rfl, .refl n⟩
  | getEgressInterface now dest =>
    obtain ⟨hcore, hquality⟩ := n.core_getEgressInterface now dest
    refine ⟨rfl, learnsNothing_of_core ?_ ?_ ?_⟩
    · rw [perform, hcore]
    · rw [perform, hcore]
    · intro row hrow
      rw [perform, hquality] at hrow
      exact hrow
  | plain op =>
    rw [perform]
    split
    · rename_i hplain
      refine ⟨rfl, learnsNothing_of_locked hinert hlocked ?_ ?_ fun _ hrow => hrow⟩
      · exact n.core.plain_keepsInert hplain
      · exact plain_table hplain
    · exact ⟨rfl, .refl n⟩

theorem inert_run (k : Crypto) (e : Capacities) (a : AuthCapacities) (t : TableCapacities)
    (selfIdent : Mac) (ops : List (NodeOp a)) :
    (run (step k) (new e a t selfIdent) ops).core.Inert := by
  have hinit : (new e a t selfIdent).core.Inert := by
    intro hlatched
    cases hlatched
  have hstep : ∀ (n : NodeRouter e a t) op, n.core.Inert → (n.step k op).core.Inert :=
    fun n op hinert => n.step_inert op hinert
  exact @Run.invariant _ _ (step k) (fun n : NodeRouter e a t => n.core.Inert) _ ops hinit hstep

/-- In every state a router reaches, an operation of a locked one puts nothing on the
air, hands nothing up and learns nothing. -/
theorem locked_inert (k : Crypto) (e : Capacities) (a : AuthCapacities) (t : TableCapacities)
    (selfIdent : Mac) (ops : List (NodeOp a)) (op : NodeOp a) :
    let n := run (step k) (new e a t selfIdent) ops
    n.core.authLocked = true →
      (n.perform k op).2 = .nothing ∧ n.LearnsNothing (n.perform k op).1 := by
  intro n hlocked
  exact perform_locked (inert_run k e a t selfIdent ops) hlocked op

end Nothing

end NodeRouter

namespace SmallMesh

open BatmanEngine (smallCapacities)

/-- Node 2 restarts under its own revocation, and the certificate it cancels is installed. -/
def relocked : List (NodeOp capacities) :=
  [.plain (.noteSelfRevoked revoked500),
    .setAuth ⟨OgmAuth.withCapacities capacities (keypair 2) cert2 anchor, rfl⟩]

theorem locked_inert_relocked :
    let n := run (NodeRouter.step crypto)
      (NodeRouter.new smallCapacities capacities ⟨4, 4⟩ mac2) relocked
    n.core.auth.isSome = true ∧
      (n.perform crypto (.pollRenewal (Duration.ofSecs 600) 256)).2 = .nothing ∧
      n.LearnsNothing (n.perform crypto (.pollRenewal (Duration.ofSecs 600) 256)).1 := by
  refine ⟨by decide +kernel, ?_⟩
  exact NodeRouter.locked_inert crypto smallCapacities capacities ⟨4, 4⟩ mac2 relocked
    (.pollRenewal (Duration.ofSecs 600) 256) (by decide +kernel)

end SmallMesh

end Wayfinder
