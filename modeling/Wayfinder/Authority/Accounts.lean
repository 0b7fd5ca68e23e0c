import Wayfinder.Authority.Run

/-!
# One account over its life

An account is opened by an administrator or by a registration, and from then on people try
to sign in to it while administrators reset it. The time steps of its second factor are
spent in order, each at most once, and while nothing clears its count of failures it looks
at no more guesses within the length of a lock than it takes to be locked.
-/

namespace Wayfinder

set_option autoImplicit false

open Run Fallible

namespace UserRecord

/-! ### Opening and changing an account -/

def checkPasswordPresent (password : String) : Except String Unit :=
  if password.isEmpty then .error "a password is required" else .ok ()

/-- The hash is what `argon2` makes of the password and a salt drawn for it; the identifier
and the secret are drawn too. -/
def new (username password : String) (role : UserRole) (sessionTtlSecs : Nat) (id : AccountId)
    (hashed : Except String String) (secret : Bytes) : Except String UserRecord := do
  checkPasswordPresent password
  let passwordHash ← hashed
  pure ⟨id, username, passwordHash, some secret, 0, 0, 0, role, sessionTtlSecs, false⟩

/-- The account of a redeemed invitation: its secret is enrolled, and the step it was proved
under is spent. -/
def fromRegistration (username password : String) (totpSecret : Bytes) (totpLastStep : Nat)
    (role : UserRole) (sessionTtlSecs : Nat) (id : AccountId) (hashed : Except String String) :
    Except String UserRecord := do
  checkPasswordPresent password
  let passwordHash ← hashed
  pure ⟨id, username, passwordHash, some totpSecret, totpLastStep, 0, 0, role, sessionTtlSecs,
    false⟩

def withoutTotp (u : UserRecord) : UserRecord := { u with totpSecret := none }

def setPassword (u : UserRecord) (password : String) (hashed : Except String String) :
    Except String Unit × UserRecord :=
  match checkPasswordPresent password >>= fun _ => hashed with
  | .ok passwordHash =>
    (.ok (), { u with passwordHash := passwordHash, failedAttempts := 0, lockedUntil := 0 })
  | .error e => (.error e, u)

/-- Whether the account already is as asked, with no lockout to clear. -/
def settled (u : UserRecord) (enabled : Bool) (nowUnix : Nat) : Bool :=
  (u.disabled != enabled) && (!enabled || !u.isLocked nowUnix)

def setEnabled (u : UserRecord) (enabled : Bool) (nowUnix : Nat) : UserRecord :=
  if u.settled enabled nowUnix then u
  else if enabled then { u with disabled := !enabled, failedAttempts := 0, lockedUntil := 0 }
  else { u with disabled := !enabled }

/-! ### Calls -/

inductive AccountOp where
  | authenticate (password totpCode : String)
  | setPassword (password : String) (hashed : Except String String)
  | setEnabled (enabled : Bool)
  | setRole (role : UserRole)

structure AccountCall where
  now : BitVec 64
  op : AccountOp

section Calls
variable (cr : Credentials) (u : UserRecord)

def step (call : AccountCall) : UserRecord :=
  match call.op with
  | .authenticate password totpCode => (u.authenticate cr password totpCode call.now.toNat).2
  | .setPassword password hashed => (u.setPassword password hashed).2
  | .setEnabled enabled => u.setEnabled enabled call.now.toNat
  | .setRole role => { u with role := role }

def accepted (call : AccountCall) : Option Nat :=
  match call.op with
  | .authenticate password totpCode =>
    let outcome := u.authenticate cr password totpCode call.now.toNat
    if outcome.1 then some outcome.2.totpLastStep else none
  | _ => none

def evaluated (call : AccountCall) : Option Nat :=
  match call.op with
  | .authenticate _ _ =>
    if u.disabled || u.isLocked call.now.toNat then none else some call.now.toNat
  | _ => none

def clears (call : AccountCall) : Bool :=
  match call.op with
  | .authenticate _ _ => (u.accepted cr call).isSome
  | .setPassword password hashed => (u.setPassword password hashed).1.isOk
  | .setEnabled enabled => enabled && !u.settled enabled call.now.toNat
  | .setRole _ => false

def after (calls : List AccountCall) : UserRecord := run (step cr) u calls

def acceptedSteps (calls : List AccountCall) : List Nat := trace (step cr) (accepted cr) u calls

/-- How many attempts of a run had their credentials looked at from `t` on, for the length of
a lock. -/
def evaluatedFrom (t : Nat) (calls : List AccountCall) : Nat :=
  (trace (step cr) evaluated u calls).countP fun now => t ≤ now && now < t + lockoutSecs

/-- Nothing clears the count of failures from `t` on, for the length of a lock. -/
def Undisturbed (t : Nat) (calls : List AccountCall) : Prop :=
  AllSafe (step cr) (fun u call => t ≤ call.now.toNat → call.now.toNat < t + lockoutSecs →
    u.clears cr call = false) u calls

end Calls

def Forward (calls : List AccountCall) : Prop :=
  calls.Pairwise fun call call' => call.now.toNat ≤ call'.now.toNat

/-- In the last second of the clock no lock is in force, and the account has not failed so
often that one should be. -/
def Locks (u : UserRecord) (call : AccountCall) : Prop :=
  match call.op with
  | .authenticate _ _ =>
    call.now.toNat = 2 ^ 64 - 1 → u.disabled = true ∨ u.failedAttempts < lockoutThreshold
  | _ => True

instance decidableLocks (u : UserRecord) : (call : AccountCall) → Decidable (Locks u call)
  | ⟨_, .authenticate _ _⟩ => inferInstanceAs (Decidable (_ → _ ∨ _))
  | ⟨_, .setPassword _ _⟩ => .isTrue trivial
  | ⟨_, .setEnabled _⟩ => .isTrue trivial
  | ⟨_, .setRole _⟩ => .isTrue trivial

instance decidableUndisturbed (cr : Credentials) (u : UserRecord) (t : Nat)
    (calls : List AccountCall) : Decidable (Undisturbed cr u t calls) :=
  inferInstanceAs (Decidable (AllSafe _ _ _ _))

instance decidableForward (calls : List AccountCall) : Decidable (Forward calls) :=
  inferInstanceAs (Decidable (List.Pairwise _ _))

/-- How an account begins, and the last time step spent by then. -/
inductive Opened (cr : Credentials) : UserRecord → Nat → Prop where
  | created {username password : String} {role : UserRole} {sessionTtlSecs : Nat}
      {id : AccountId} {hashed : Except String String} {secret : Bytes} {u : UserRecord}
      (h : new username password role sessionTtlSecs id hashed secret = .ok u) : Opened cr u 0
  | createdWithoutTotp {username password : String} {role : UserRole} {sessionTtlSecs : Nat}
      {id : AccountId} {hashed : Except String String} {secret : Bytes} {u : UserRecord}
      (h : new username password role sessionTtlSecs id hashed secret = .ok u) :
      Opened cr u.withoutTotp 0
  | registered {username password totpCode : String} {role : UserRole} {sessionTtlSecs : Nat}
      {id : AccountId} {hashed : Except String String} {secret : Bytes} {u : UserRecord}
      {nowUnix s : Nat} (hcode : cr.verifyTotp secret totpCode nowUnix 0 = some s)
      (h : fromRegistration username password secret s role sessionTtlSecs id hashed = .ok u) :
      Opened cr u s

/-! ### Time steps are spent in order -/

section Steps
variable {cr : Credentials} {u : UserRecord} {call : AccountCall} {calls : List AccountCall}

theorem lt_of_verifyTotp {secret : Bytes} {code : String} {nowUnix lastStep s : Nat}
    (h : cr.verifyTotp secret code nowUnix lastStep = some s) : lastStep < s := by
  unfold Credentials.verifyTotp at h
  dsimp only at h
  split at h
  · cases h
  · have hfound := List.find?_some h
    simp only [Bool.and_eq_true, decide_eq_true_eq] at hfound
    exact hfound.1

theorem lt_of_acceptedStep {password totpCode : String} {nowUnix s : Nat}
    (hsecret : u.totpSecret.isSome) (h : u.acceptedStep cr password totpCode nowUnix = some s) :
    u.totpLastStep < s := by
  obtain ⟨secret, hsecret⟩ := Option.isSome_iff_exists.mp hsecret
  unfold acceptedStep at h
  split at h
  · rw [hsecret] at h
    exact lt_of_verifyTotp h
  · cases h

/-- An attempt is turned away unseen, accepted under a step, or counted as a failure. -/
theorem authenticate_cases (password totpCode : String) (nowUnix : Nat) :
    ((u.disabled || u.isLocked nowUnix) = true ∧
      u.authenticate cr password totpCode nowUnix = (false, u)) ∨
    ((u.disabled || u.isLocked nowUnix) = false ∧
      ((∃ s, u.acceptedStep cr password totpCode nowUnix = some s ∧
        u.authenticate cr password totpCode nowUnix =
          (true, { u with totpLastStep := s, failedAttempts := 0, lockedUntil := 0 })) ∨
      (u.acceptedStep cr password totpCode nowUnix = none ∧
        u.authenticate cr password totpCode nowUnix = (false, u.countFailure nowUnix)))) := by
  unfold authenticate
  cases hclosed : u.disabled || u.isLocked nowUnix with
  | true => exact Or.inl ⟨rfl, rfl⟩
  | false =>
    refine Or.inr ⟨rfl, ?_⟩
    cases hstep : u.acceptedStep cr password totpCode nowUnix with
    | some s => exact Or.inl ⟨s, rfl, rfl⟩
    | none => exact Or.inr ⟨rfl, rfl⟩

theorem setPassword_totp (password : String) (hashed : Except String String) :
    (u.setPassword password hashed).2.totpSecret = u.totpSecret ∧
      (u.setPassword password hashed).2.totpLastStep = u.totpLastStep := by
  unfold setPassword
  split
  · exact ⟨rfl, rfl⟩
  · exact ⟨rfl, rfl⟩

theorem setEnabled_totp (enabled : Bool) (nowUnix : Nat) :
    (u.setEnabled enabled nowUnix).totpSecret = u.totpSecret ∧
      (u.setEnabled enabled nowUnix).totpLastStep = u.totpLastStep := by
  unfold setEnabled
  split
  · exact ⟨rfl, rfl⟩
  · split
    · exact ⟨rfl, rfl⟩
    · exact ⟨rfl, rfl⟩

theorem step_totp : (step cr u call).totpSecret = u.totpSecret ∧
    (step cr u call).totpLastStep = (u.accepted cr call).getD u.totpLastStep := by
  obtain ⟨now, op⟩ := call
  cases op with
  | authenticate password totpCode =>
    simp only [step, accepted]
    rcases authenticate_cases password totpCode now.toNat with
      ⟨_, h⟩ | ⟨_, ⟨s, _, h⟩ | ⟨_, h⟩⟩
    · rw [h]
      exact ⟨rfl, rfl⟩
    · rw [h]
      exact ⟨rfl, rfl⟩
    · rw [h]
      exact ⟨rfl, rfl⟩
  | setPassword password hashed => exact setPassword_totp password hashed
  | setEnabled enabled => exact setEnabled_totp enabled now.toNat
  | setRole role => exact ⟨rfl, rfl⟩

theorem lt_of_accepted {s : Nat} (hsecret : u.totpSecret.isSome)
    (h : u.accepted cr call = some s) : u.totpLastStep < s := by
  obtain ⟨now, op⟩ := call
  cases op with
  | authenticate password totpCode =>
    simp only [accepted] at h
    rcases authenticate_cases password totpCode now.toNat with
      ⟨_, hout⟩ | ⟨_, ⟨s', hs', hout⟩ | ⟨_, hout⟩⟩
    · rw [hout] at h
      cases h
    · rw [hout] at h
      obtain rfl : s' = s := Option.some.inj h
      exact lt_of_acceptedStep hsecret hs'
    · rw [hout] at h
      cases h
  | setPassword password hashed => cases h
  | setEnabled enabled => cases h
  | setRole role => cases h

theorem acceptedSteps_sorted (hsecret : u.totpSecret.isSome) :
    (u.acceptedSteps cr calls).Pairwise (· < ·) ∧
      ∀ s ∈ u.acceptedSteps cr calls, u.totpLastStep < s := by
  induction calls generalizing u with
  | nil => exact ⟨.nil, fun s hs => by cases hs⟩
  | cons call calls ih =>
    obtain ⟨hkept, hspent⟩ := @step_totp cr u call
    obtain ⟨hsorted, hbeyond⟩ := ih (u := step cr u call) (by rw [hkept]; exact hsecret)
    rw [hspent] at hbeyond
    have htrace : u.acceptedSteps cr (call :: calls) =
        (u.accepted cr call).toList ++ (step cr u call).acceptedSteps cr calls := rfl
    rw [htrace]
    cases haccepted : u.accepted cr call with
    | none =>
      rw [haccepted] at hbeyond
      exact ⟨hsorted, hbeyond⟩
    | some s =>
      rw [haccepted] at hbeyond
      have hs := lt_of_accepted hsecret haccepted
      refine ⟨List.pairwise_cons.mpr ⟨hbeyond, hsorted⟩, ?_⟩
      intro s' hs'
      rcases List.mem_cons.mp hs' with rfl | hs'
      · exact hs
      · exact hs.trans (hbeyond s' hs')

theorem Opened.totpLastStep {s : Nat} (h : Opened cr u s) : u.totpLastStep = s := by
  cases h with
  | created h =>
    obtain ⟨_, _, h⟩ := exists_of_bind_ok h
    obtain ⟨_, _, h⟩ := exists_of_bind_ok h
    rw [← Except.ok.inj h]
  | createdWithoutTotp h =>
    obtain ⟨_, _, h⟩ := exists_of_bind_ok h
    obtain ⟨_, _, h⟩ := exists_of_bind_ok h
    rw [← Except.ok.inj h]
    rfl
  | registered hcode h =>
    obtain ⟨_, _, h⟩ := exists_of_bind_ok h
    obtain ⟨_, _, h⟩ := exists_of_bind_ok h
    rw [← Except.ok.inj h]

end Steps

/-! ### Guesses in the length of a lock -/

section Lockout
variable {cr : Credentials} {u : UserRecord} {call : AccountCall} {calls : List AccountCall}
  {t : Nat}

/-- A call that clears nothing leaves the count and the lock alone, or it was a guess that
failed. -/
theorem step_uncleared (h : u.clears cr call = false) :
    (u.evaluated call = none ∧ (step cr u call).failedAttempts = u.failedAttempts ∧
      (step cr u call).lockedUntil = u.lockedUntil) ∨
    (u.evaluated call = some call.now.toNat ∧
      step cr u call = u.countFailure call.now.toNat) := by
  obtain ⟨now, op⟩ := call
  cases op with
  | authenticate password totpCode =>
    simp only [step, clears, accepted, evaluated] at h ⊢
    rcases authenticate_cases password totpCode now.toNat with
      ⟨hclosed, hout⟩ | ⟨hopen, ⟨s, _, hout⟩ | ⟨_, hout⟩⟩
    · rw [hout, hclosed]
      exact Or.inl ⟨rfl, rfl, rfl⟩
    · rw [hout] at h
      cases h
    · rw [hout, hopen]
      exact Or.inr ⟨rfl, rfl⟩
  | setPassword password hashed =>
    refine Or.inl ⟨rfl, ?_⟩
    simp only [step, clears, setPassword] at h ⊢
    split at h
    · cases h
    · exact ⟨rfl, rfl⟩
  | setEnabled enabled =>
    refine Or.inl ⟨rfl, ?_⟩
    simp only [step, clears, setEnabled] at h ⊢
    cases hsettled : u.settled enabled now.toNat with
    | true => exact ⟨rfl, rfl⟩
    | false =>
      rw [hsettled] at h
      obtain rfl : enabled = false := by simpa using h
      exact ⟨rfl, rfl⟩
  | setRole role => exact Or.inl ⟨rfl, rfl, rfl⟩

theorem evaluatedFrom_cons_none (h : u.evaluated call = none) :
    u.evaluatedFrom cr t (call :: calls) = (step cr u call).evaluatedFrom cr t calls := by
  unfold evaluatedFrom
  rw [trace, h]
  rfl

theorem evaluatedFrom_cons_some {now : Nat} (h : u.evaluated call = some now) :
    u.evaluatedFrom cr t (call :: calls) = (step cr u call).evaluatedFrom cr t calls +
      if t ≤ now ∧ now < t + lockoutSecs then 1 else 0 := by
  unfold evaluatedFrom
  rw [trace, h, Option.toList_some, List.singleton_append, List.countP_cons]
  simp only [Bool.and_eq_true, decide_eq_true_eq]

theorem evaluated_cases : u.evaluated call = none ∨
    (u.evaluated call = some call.now.toNat ∧ u.disabled = false ∧
      u.lockedUntil ≤ call.now.toNat ∧ ∃ password totpCode,
        call.op = .authenticate password totpCode) := by
  obtain ⟨now, op⟩ := call
  cases op with
  | authenticate password totpCode =>
    simp only [evaluated]
    split
    · exact Or.inl rfl
    · rename_i hopen
      simp only [isLocked, Bool.or_eq_true, decide_eq_true_eq, not_or, Bool.not_eq_true,
        Nat.not_lt] at hopen
      exact Or.inr ⟨rfl, hopen.1, hopen.2, password, totpCode, rfl⟩
  | setPassword password hashed => exact Or.inl rfl
  | setEnabled enabled => exact Or.inl rfl
  | setRole role => exact Or.inl rfl

theorem evaluatedFrom_cons_outside
    (h : ¬ (t ≤ call.now.toNat ∧ call.now.toNat < t + lockoutSecs)) :
    u.evaluatedFrom cr t (call :: calls) = (step cr u call).evaluatedFrom cr t calls := by
  rcases @evaluated_cases u call with hnone | ⟨hsome, _⟩
  · exact evaluatedFrom_cons_none hnone
  · rw [evaluatedFrom_cons_some hsome, if_neg h, Nat.add_zero]

theorem evaluatedFrom_of_past (h : ∀ call ∈ calls, t + lockoutSecs ≤ call.now.toNat) :
    u.evaluatedFrom cr t calls = 0 := by
  induction calls generalizing u with
  | nil => rfl
  | cons call calls ih =>
    have hpast := h call List.mem_cons_self
    rw [evaluatedFrom_cons_outside (by omega)]
    exact ih fun call' hcall' => h call' (List.mem_cons_of_mem _ hcall')

/-- Under a lock that lasts to the end of the window, or of the clock, no guess is looked
at any more. -/
theorem evaluatedFrom_of_locked (hfailed : lockoutThreshold ≤ u.failedAttempts)
    (hlock : saturatingAdd64 t lockoutSecs ≤ u.lockedUntil)
    (hforward : Forward calls) (hfrom : ∀ call ∈ calls, t ≤ call.now.toNat)
    (hsafe : AllSafe (step cr) Locks u calls) (hquiet : Undisturbed cr u t calls) :
    u.evaluatedFrom cr t calls = 0 := by
  induction calls generalizing u with
  | nil => rfl
  | cons call calls ih =>
    obtain ⟨hhead, htail⟩ := List.pairwise_cons.mp hforward
    obtain ⟨hlocks, hsafe⟩ := allSafe_cons.mp hsafe
    obtain ⟨hcleared, hquiet⟩ := allSafe_cons.mp hquiet
    have hstart := hfrom call List.mem_cons_self
    by_cases hin : call.now.toNat < t + lockoutSecs
    · have hnone : u.evaluated call = none := by
        rcases @evaluated_cases u call with
          hnone | ⟨_, henabled, hopen, _, _, hop⟩
        · exact hnone
        · -- An open account in the window is open because the clock can go no further.
          have hlast : call.now.toNat ≠ 2 ^ 64 - 1 := by
            intro hlast
            simp only [Locks, hop] at hlocks
            rcases hlocks hlast with hdisabled | hmissing
            · rw [henabled] at hdisabled
              cases hdisabled
            · omega
          have hnow := call.now.isLt
          unfold saturatingAdd64 at hlock
          omega
      have hkept := step_uncleared (hcleared hstart hin)
      rw [hnone] at hkept
      obtain ⟨_, hf, hl⟩ := hkept.resolve_right fun h => nomatch h.1
      rw [evaluatedFrom_cons_none hnone]
      apply ih
      · rw [hf]
        exact hfailed
      · rw [hl]
        exact hlock
      · exact htail
      · exact fun call' hcall' => hfrom call' (List.mem_cons_of_mem _ hcall')
      · exact hsafe
      · exact hquiet
    · apply evaluatedFrom_of_past
      intro call' hcall'
      rcases List.mem_cons.mp hcall' with rfl | hcall'
      · omega
      · have := hhead call' hcall'
        omega

theorem evaluatedFrom_le_missing (hforward : Forward calls)
    (hfrom : ∀ call ∈ calls, t ≤ call.now.toNat) (hsafe : AllSafe (step cr) Locks u calls)
    (hquiet : Undisturbed cr u t calls) :
    u.evaluatedFrom cr t calls ≤ max 1 (lockoutThreshold - u.failedAttempts) := by
  induction calls generalizing u with
  | nil => exact Nat.zero_le _
  | cons call calls ih =>
    obtain ⟨hhead, htail⟩ := List.pairwise_cons.mp hforward
    obtain ⟨_, hsafe⟩ := allSafe_cons.mp hsafe
    obtain ⟨hcleared, hquiet⟩ := allSafe_cons.mp hquiet
    have hstart := hfrom call List.mem_cons_self
    have hrest : ∀ call ∈ calls, t ≤ call.now.toNat :=
      fun call' hcall' => hfrom call' (List.mem_cons_of_mem _ hcall')
    by_cases hin : call.now.toNat < t + lockoutSecs
    · rcases step_uncleared (hcleared hstart hin) with ⟨hnone, hf, _⟩ | ⟨hsome, hstep⟩
      · rw [evaluatedFrom_cons_none hnone, ← hf]
        exact ih htail hrest hsafe hquiet
      · rw [evaluatedFrom_cons_some hsome, if_pos ⟨hstart, hin⟩]
        have hcount : (step cr u call).failedAttempts =
            min (u.failedAttempts + 1) (2 ^ 32 - 1) := by
          rw [hstep]
          rfl
        by_cases hfull : lockoutThreshold ≤ (step cr u call).failedAttempts
        · -- The failure that locks the account is the last that is looked at.
          have hlock : (step cr u call).lockedUntil =
              saturatingAdd64 call.now.toNat lockoutSecs := by
            rw [hcount] at hfull
            rw [hstep]
            exact if_pos hfull
          rw [evaluatedFrom_of_locked hfull ?_ htail hrest hsafe hquiet]
          · omega
          · rw [hlock]
            unfold saturatingAdd64
            omega
        · have hle := ih htail hrest hsafe hquiet
          unfold lockoutThreshold at hfull hle ⊢
          omega
    · rw [evaluatedFrom_of_past]
      · exact Nat.zero_le _
      · intro call' hcall'
        rcases List.mem_cons.mp hcall' with rfl | hcall'
        · omega
        · have := hhead call' hcall'
          omega

/-- Whatever came before it, a window in which nothing clears the count of failures has at
most as many looked-at guesses as it takes to be locked. -/
theorem evaluatedFrom_le (hforward : Forward calls) (hsafe : AllSafe (step cr) Locks u calls)
    (hquiet : Undisturbed cr u t calls) : u.evaluatedFrom cr t calls ≤ lockoutThreshold := by
  induction calls generalizing u with
  | nil => exact Nat.zero_le _
  | cons call calls ih =>
    obtain ⟨hhead, htail⟩ := List.pairwise_cons.mp hforward
    by_cases hbefore : call.now.toNat < t
    · rw [evaluatedFrom_cons_outside (by omega)]
      exact ih htail (allSafe_cons.mp hsafe).2 (allSafe_cons.mp hquiet).2
    · have hfrom : ∀ call' ∈ call :: calls, t ≤ call'.now.toNat := by
        intro call' hcall'
        rcases List.mem_cons.mp hcall' with rfl | hcall'
        · omega
        · have := hhead call' hcall'
          omega
      have hle := evaluatedFrom_le_missing hforward hfrom hsafe hquiet
      unfold lockoutThreshold at hle ⊢
      omega

end Lockout

/-- The steps a second factor is accepted under grow and lie beyond the one it was enrolled
with; a closed account does not move; and a window of a lock's length in which nothing clears
the count of failures has at most `lockoutThreshold` looked-at guesses, where every lock
holds. -/
theorem attempts_contained (cr : Credentials) (u : UserRecord) (s : Nat) (hopened : Opened cr u s)
    (calls : List AccountCall) :
    (u.totpSecret.isSome → (u.acceptedSteps cr calls).Pairwise (· < ·) ∧
      ∀ step ∈ u.acceptedSteps cr calls, s < step) ∧
    (∀ password totpCode nowUnix,
      ((u.after cr calls).disabled = true ∨ (u.after cr calls).isLocked nowUnix = true) →
        (u.after cr calls).authenticate cr password totpCode nowUnix =
          (false, u.after cr calls)) ∧
    (Forward calls → AllSafe (step cr) Locks u calls → ∀ t, Undisturbed cr u t calls →
      u.evaluatedFrom cr t calls ≤ lockoutThreshold) := by
  refine ⟨?_, ?_, ?_⟩
  · intro hsecret
    rw [← hopened.totpLastStep]
    exact acceptedSteps_sorted hsecret
  · intro password totpCode nowUnix hclosed
    exact if_pos (by simpa using hclosed)
  · intro hforward hsafe t hquiet
    exact evaluatedFrom_le hforward hsafe hquiet

end UserRecord

namespace SmallMesh

/-! ### An account of the small mesh -/

def totpSecret : Bytes :=
  [0x31, 0x32, 0x33, 0x34, 0x35, 0x36, 0x37, 0x38, 0x39, 0x30,
    0x31, 0x32, 0x33, 0x34, 0x35, 0x36, 0x37, 0x38, 0x39, 0x30]

/-- What `hmac` makes of the secret and the time steps about the epoch, and of the first. -/
def stepDigests : List (Nat × Octets 20) :=
  [(1, .be 20 0x75a48a19d4cbe100644e8ac1397eea747a2d33ab),
    (59999999, .be 20 0x670b3e4b965b57c50d74a2a179b3486f409f813d),
    (60000000, .be 20 0x935db6fa8b27f5628211ba19c81357de9d1c30fa),
    (60000001, .be 20 0xdac9ff46fd0db4abdb9a90c5705f4f40d8a31ff4),
    (60000002, .be 20 0x7fde4d822be9ce413ecc579e28ad572c16ab66fd),
    (60000003, .be 20 0x57f0c64768555e329eea99b76590240a19cc7b2c)]

def authenticator : Credentials where
  verifyPassword := accounts.verifyPassword
  hmacSha1 key msg :=
    ((stepDigests.find? fun d => key = totpSecret && msg = (Be64.ofNat d.1).toList).map
      Prod.snd).getD (.zero 20)

def registered : UserRecord :=
  ⟨userId, "alice",
    "$argon2id$v=19$m=256,t=2,p=1$c29tZXNhbHQ$nf65EOgLrQMR/uIPnA4rEsF5h7TKyQwu9U1bMCHGi/4",
    some totpSecret, 60000000, 0, 0, .viewer, 28800, false⟩

def attemptAt (now : Nat) (password totpCode : String) : UserRecord.AccountCall :=
  ⟨.ofNat 64 now, .authenticate password totpCode⟩

/-- The code of the registration again, the next two, the first of them again, and guesses
until the account is locked and beyond. -/
def signIns : List UserRecord.AccountCall :=
  [attemptAt epoch "password" "768147", attemptAt (epoch + 30) "password" "050219",
    attemptAt (epoch + 31) "password" "687638", attemptAt (epoch + 32) "password" "050219"] ++
  List.replicate 6 (attemptAt (epoch + 40) "guess" "000000")

theorem opened_registered : UserRecord.Opened authenticator registered 60000000 :=
  @UserRecord.Opened.registered authenticator "alice" "password" "768147" .viewer 28800
    registered.id (.ok registered.passwordHash) totpSecret registered epoch 60000000
    (by decide +kernel) rfl

theorem attempts_contained_registered :
    registered.acceptedSteps authenticator signIns = [60000001, 60000002] ∧
      (registered.acceptedSteps authenticator signIns).Pairwise (· < ·) ∧
      (∀ step ∈ registered.acceptedSteps authenticator signIns, 60000000 < step) ∧
      (registered.after authenticator signIns).authenticate authenticator "password" "687638"
        (epoch + 41) = (false, registered.after authenticator signIns) ∧
      registered.evaluatedFrom authenticator (epoch + 32) signIns ≤ lockoutThreshold := by
  obtain ⟨hsteps, hclosed, hbound⟩ := UserRecord.attempts_contained authenticator registered
    60000000 opened_registered signIns
  obtain ⟨hsorted, hbeyond⟩ := hsteps rfl
  exact ⟨by decide +kernel, hsorted, hbeyond, hclosed _ _ _ (by decide +kernel),
    hbound (by decide +kernel) (by decide +kernel) (epoch + 32) (by decide +kernel)⟩

/-- Six guesses in the last second of the clock, in which no lock is in force. -/
theorem lastSecond_unlocked :
    let calls := List.replicate 6 (attemptAt (2 ^ 64 - 1) "guess" "000000")
    UserRecord.Opened authenticator registered 60000000 ∧ UserRecord.Forward calls ∧
      UserRecord.Undisturbed authenticator registered (2 ^ 64 - lockoutSecs) calls ∧
      registered.evaluatedFrom authenticator (2 ^ 64 - lockoutSecs) calls = 6 ∧
      ¬ registered.evaluatedFrom authenticator (2 ^ 64 - lockoutSecs) calls ≤
        lockoutThreshold :=
  ⟨opened_registered, by decide +kernel, by decide +kernel, by decide +kernel,
    by decide +kernel⟩

end SmallMesh

end Wayfinder
