import Wayfinder.Auth.Credential
import Wayfinder.Install

/-!
# The certificate and the keys

A node signs with the keys derived from its seed, and its peers derive theirs from the
certificate it shows. An install and a renewal both compare the signing key; neither
compares the agreement key, so a certificate that names another one is run under, and
the pairwise keys of the two ends differ.
-/

namespace Wayfinder

set_option autoImplicit false

open Table Fallible

/-- What may change the credential: the auth state's own operations, and an install over
the management API of the host the state lives on. -/
inductive CredentialOp (e : Capacities) (a : AuthCapacities) where
  | auth (callee : AuthCall e)
  | install (host : RouterAdapter e a) (seed cert trustAnchor : Bytes)
      (provider : Option RenewalProviderData) (installerUnix : Nat)

namespace RouterAdapter

variable {e : Capacities} {a : AuthCapacities}

def holding (host : RouterAdapter e a) (s : OgmAuth a) : RouterAdapter e a :=
  { host with router := { host.router with auth := some s } }

end RouterAdapter

namespace OgmAuth

variable {e : Capacities} {a : AuthCapacities}

def credentialStep (k : Crypto) (s : OgmAuth a) : CredentialOp e a → OgmAuth a
  | .auth callee => s.call k callee
  | .install host seed cert trustAnchor provider installerUnix =>
    match (host.holding s).setAuth k seed cert trustAnchor provider installerUnix with
    | .ok host' => host'.router.auth.getD s
    | .error _ => s

/-- The certificate names the keys the node holds, so a peer that agrees with it by the
certificate arrives at the key the node arrives at. -/
structure Certified (k : Crypto) (s : OgmAuth a) : Prop where
  edPubkey : s.cert.edPubkey = k.edPubkey s.keypair
  xPubkey : s.cert.xPubkey = k.xPubkey s.keypair
  agreement : ∀ peer : Keypair,
    k.pairwiseKey peer s.cert.xPubkey = k.pairwiseKey s.keypair (k.xPubkey peer)

/-- What the reply to a renewal or the request of an install brings in is checked for
everything but this: the certificate names the agreement key of the keypair. -/
def NamesAgreementKey (k : Crypto) (s : OgmAuth a) : CredentialOp e a → Prop
  | .auth (.state (.ingestRenewReply body)) =>
    ∀ cert rest, MembershipCert.readFromPrefix body = some (cert, rest) →
      s.renewalOutstanding = true → s.anchor.verifyCert k cert s.wall = .ok cert.facts →
      Forward s.cert cert → cert.xPubkey = k.xPubkey s.keypair
  | .auth _ => True
  | .install host seed cert trustAnchor provider installerUnix =>
    ∀ identity parsed rest host', (host.holding s).seedFor seed = .ok identity →
      MembershipCert.readFromPrefix cert = some (parsed, rest) →
      (host.holding s).setAuth k seed cert trustAnchor provider installerUnix = .ok host' →
      parsed.xPubkey = k.xPubkey ⟨identity⟩

section Match
variable {k : Crypto} {s s' : OgmAuth a}

theorem certified_iff (hdh : ∀ x y : Keypair,
      k.diffieHellman x (k.xPubkey y) = k.diffieHellman y (k.xPubkey x)) :
    Certified k s ↔
      s.cert.edPubkey = k.edPubkey s.keypair ∧ s.cert.xPubkey = k.xPubkey s.keypair := by
  constructor
  · intro h
    exact ⟨h.edPubkey, h.xPubkey⟩
  · rintro ⟨hed, hx⟩
    refine ⟨hed, hx, ?_⟩
    intro peer
    unfold Crypto.pairwiseKey
    rw [hx, hdh peer s.keypair]

theorem CredentialKept.certified_iff (h : CredentialKept s s') :
    Certified k s' ↔ Certified k s := by
  constructor
  · rintro ⟨hed, hx, hagree⟩
    rw [h.cert, h.keypair] at hed hx
    simp only [h.cert, h.keypair] at hagree
    exact ⟨hed, hx, hagree⟩
  · rintro ⟨hed, hx, hagree⟩
    refine ⟨?_, ?_, ?_⟩
    · rw [h.cert, h.keypair, hed]
    · rw [h.cert, h.keypair, hx]
    · rw [h.cert, h.keypair]
      exact hagree

theorem renewedCert_of_checks {body rest : Bytes} {cert : MembershipCert}
    (hread : MembershipCert.readFromPrefix body = some (cert, rest))
    (hout : s.renewalOutstanding = true)
    (hverify : s.anchor.verifyCert k cert s.wall = .ok cert.facts)
    (hforward : Forward s.cert cert) : s.renewedCert k body = some cert := by
  unfold renewedCert
  rw [hread]
  dsimp only
  rw [hout, hverify, Bool.not_true, if_neg Bool.false_ne_true]
  dsimp only
  rw [if_neg, if_neg]
  · apply not_or.mpr
    exact ⟨Nat.not_le.mpr hforward.notAfter, Nat.not_lt.mpr hforward.notBefore⟩
  · apply not_or.mpr
    exact ⟨not_not.mpr hforward.nodeMac, not_not.mpr hforward.edPubkey⟩

theorem checks_of_renewedCert {body : Bytes} {cert : MembershipCert}
    (h : s.renewedCert k body = some cert) :
    (∃ rest, MembershipCert.readFromPrefix body = some (cert, rest)) ∧
      s.renewalOutstanding = true ∧ s.anchor.verifyCert k cert s.wall = .ok cert.facts := by
  unfold renewedCert at h
  split at h
  · cases h
  rename_i read rest hread
  split at h
  · cases h
  rename_i hout
  split at h
  · cases h
  rename_i verified hverify
  obtain ⟨_, _, rfl⟩ := TrustAnchor.verifyCert_ok.mp hverify
  split at h
  · cases h
  split at h
  · cases h
  obtain rfl := Option.some.inj h
  exact ⟨⟨rest, hread⟩, by simpa using hout, hverify⟩

end Match

end OgmAuth

section Install
variable {e : Capacities} {a : AuthCapacities} {k : Crypto} {adapter : RouterAdapter e a}
  {seed cert trustAnchor : Bytes} {provider : Option RenewalProviderData}

theorem RouterAdapter.examine_ok
    {examined : Octets 32 × MembershipCert × TrustAnchor × VerifiedCert}
    (h : adapter.examine k seed cert trustAnchor provider = .ok examined) :
    adapter.seedFor seed = .ok examined.1 ∧
      (∃ rest, MembershipCert.readFromPrefix cert = some (examined.2.1, rest)) ∧
      adapter.checkIdentity k seed.isEmpty ⟨examined.1⟩ examined.2.1 = .ok () := by
  unfold RouterAdapter.examine at h
  obtain ⟨_, _, h⟩ := exists_of_bind_ok h
  obtain ⟨identity, hidentity, h⟩ := exists_of_bind_ok h
  obtain ⟨⟨parsed, rest⟩, hparsed, h⟩ := exists_of_bind_ok h
  obtain ⟨anchor, _, h⟩ := exists_of_bind_ok h
  obtain ⟨verified, _, h⟩ := exists_of_bind_ok h
  obtain ⟨_, hcheck, h⟩ := exists_of_bind_ok h
  obtain rfl := Except.ok.inj h
  refine ⟨hidentity, ⟨rest, ?_⟩, hcheck⟩
  cases hcert : MembershipCert.readFromPrefix cert with
  | none =>
    rw [hcert] at hparsed
    cases hparsed
  | some read =>
    rw [hcert] at hparsed
    exact congrArg some (Except.ok.inj hparsed)

theorem RouterAdapter.checkIdentity_ok {certifying : Bool} {keypair : Keypair}
    {parsed : MembershipCert} (h : adapter.checkIdentity k certifying keypair parsed = .ok ()) :
    parsed.edPubkey = k.edPubkey keypair ∧
      (certifying = true → parsed.nodeMac = adapter.router.batman.selfIdent) := by
  unfold RouterAdapter.checkIdentity at h
  split at h
  · cases h
  rename_i hkey
  split at h
  · cases h
  rename_i hmac
  refine ⟨not_not.mp hkey, ?_⟩
  intro hcertifying
  rw [hcertifying] at hmac
  simpa using hmac

theorem RouterAdapter.setAuth_credential {adapter' : RouterAdapter e a} {installerUnix : Nat}
    (h : adapter.setAuth k seed cert trustAnchor provider installerUnix = .ok adapter') :
    ∃ identity parsed rest auth, adapter.seedFor seed = .ok identity ∧
      MembershipCert.readFromPrefix cert = some (parsed, rest) ∧
      adapter'.router.auth = some auth ∧ auth.cert = parsed ∧ auth.keypair = ⟨identity⟩ ∧
      parsed.edPubkey = k.edPubkey ⟨identity⟩ := by
  unfold RouterAdapter.setAuth at h
  obtain ⟨examined, hexamine, h⟩ := exists_of_bind_ok h
  obtain ⟨_, _, h⟩ := exists_of_bind_ok h
  obtain rfl := Except.ok.inj h
  obtain ⟨hidentity, ⟨rest, hread⟩, hcheck⟩ := RouterAdapter.examine_ok hexamine
  exact ⟨_, _, rest, _, hidentity, hread, rfl, rfl, rfl,
    (RouterAdapter.checkIdentity_ok hcheck).1⟩

end Install

namespace OgmAuth

section Runs
variable {e : Capacities} {a : AuthCapacities} {k : Crypto} {s : OgmAuth a}

theorem certified_call_iff (hdh : ∀ x y : Keypair,
      k.diffieHellman x (k.xPubkey y) = k.diffieHellman y (k.xPubkey x))
    (h : Certified k s) (callee : AuthCall e) :
    Certified k (s.call k callee) ↔ NamesAgreementKey (e := e) k s (.auth callee) := by
  by_cases hreply : ∃ body, callee = .state (.ingestRenewReply body)
  · obtain ⟨body, rfl⟩ := hreply
    rcases ingestRenewReply_cases k s body with ⟨hnone, heq⟩ | ⟨cert, hcert, heq⟩
    · rw [call, after, perform, heq]
      refine ⟨fun _ => ?_, fun _ => h⟩
      intro cert rest hread hout hverify hforward
      rw [renewedCert_of_checks hread hout hverify hforward] at hnone
      cases hnone
    · obtain ⟨⟨rest, hread⟩, hout, hverify⟩ := checks_of_renewedCert hcert
      have hforward : Forward s.cert cert := by
        rcases s.ingestRenewReply_forward k body with hrefused | ⟨_, hforward, _⟩
        · rw [heq] at hrefused
          cases (Prod.mk.inj hrefused).2
        · rw [heq] at hforward
          exact hforward
      rw [call, after, perform, heq, certified_iff hdh]
      constructor
      · rintro ⟨_, hx⟩ cert' rest' hread' _ _ _
        rw [hread] at hread'
        obtain rfl := (Prod.mk.inj (Option.some.inj hread')).1
        exact hx
      · intro hnames
        exact ⟨hforward.edPubkey.trans h.edPubkey, hnames cert rest hread hout hverify hforward⟩
  · have hsafe : NamesAgreementKey (e := e) k s (.auth callee) := by
      unfold NamesAgreementKey
      split
      · rename_i body heq
        exact absurd ⟨body, CredentialOp.auth.inj heq⟩ hreply
      · trivial
      · rename_i heq
        cases heq
    refine ⟨fun _ => hsafe, fun _ => ?_⟩
    rcases s.call_cases k callee with ⟨_, hkept⟩ | ⟨_, hkeypair, hcert, _⟩ | ⟨body, hcallee, _⟩
    · exact hkept.certified_iff.mpr h
    · refine (certified_iff hdh).mpr ?_
      rw [hkeypair, hcert]
      exact ⟨h.edPubkey, h.xPubkey⟩
    · exact absurd ⟨body, hcallee⟩ hreply

theorem certified_install_iff (hdh : ∀ x y : Keypair,
      k.diffieHellman x (k.xPubkey y) = k.diffieHellman y (k.xPubkey x))
    (h : Certified k s) (host : RouterAdapter e a) (seed cert trustAnchor : Bytes)
    (provider : Option RenewalProviderData) (installerUnix : Nat) :
    Certified k (s.credentialStep k (.install host seed cert trustAnchor provider installerUnix)) ↔
      NamesAgreementKey k s (.install host seed cert trustAnchor provider installerUnix) := by
  unfold credentialStep NamesAgreementKey
  dsimp only
  cases hset : (host.holding s).setAuth k seed cert trustAnchor provider installerUnix with
  | error err =>
    refine ⟨fun _ => ?_, fun _ => h⟩
    intro _ _ _ _ _ _ hok
    cases hok
  | ok host' =>
    obtain ⟨identity, parsed, rest, auth, hidentity, hread, hauth, hcert, hkeypair, hed⟩ :=
      RouterAdapter.setAuth_credential hset
    dsimp only
    rw [hauth, Option.getD_some, certified_iff hdh, hcert, hkeypair]
    constructor
    · rintro ⟨_, hx⟩ identity' parsed' rest' _ hidentity' hread' _
      rw [hidentity] at hidentity'
      rw [hread] at hread'
      obtain rfl := Except.ok.inj hidentity'
      obtain rfl := (Prod.mk.inj (Option.some.inj hread')).1
      exact hx
    · intro hnames
      exact ⟨hed, hnames identity parsed rest host' hidentity hread rfl⟩

/-- From a state that is certified: every state of a run is, exactly if every
certificate that a reply or an install brings in names the agreement key. -/
theorem certified_run_iff (k : Crypto) (hdh : ∀ x y : Keypair,
      k.diffieHellman x (k.xPubkey y) = k.diffieHellman y (k.xPubkey x))
    (s : OgmAuth a) (h : Certified k s) (ops : List (CredentialOp e a)) :
    Run.AllGood (credentialStep k) (Certified k) s ops ↔
      Run.AllSafe (credentialStep k) (NamesAgreementKey k) s ops := by
  apply Run.allGood_iff_allSafe h
  intro pre op hbefore
  cases op with
  | auth callee => exact certified_call_iff hdh hbefore callee
  | install host seed cert trustAnchor provider installerUnix =>
    exact certified_install_iff hdh hbefore host seed cert trustAnchor provider installerUnix

end Runs

end OgmAuth

namespace SmallMesh

open OgmAuth

def prolonged2 : MembershipCert :=
  { cert2 with
    notBefore := .ofNat 600
    notAfter := .ofNat 2000
    signature := signatureOf
      0x006de2f1e22e1ac47fc3ee323ecfcd1152f6bb4882802ceb27281146d302c20e
      0x3a6a7b5a7a933b1e432d56dd7b9c4846a84178ad61d43e7202b4a3af972d7f00 }

def rotated2 : MembershipCert :=
  { cert2 with
    xPubkey := cert3.xPubkey
    notBefore := .ofNat 600
    notAfter := .ofNat 2000
    signature := signatureOf
      0xdbebbab84edebbb86ad6019c240737c28baf69ab99d87af490a860703ac9b7d3
      0x2d5fc9e50c8121e530046f7dbfc9e5725c2e96fe6f8b0eedc15babb7681eb207 }

/-- The primitives where both renewals are signed and agreement is defined for every
pair of nodes. -/
def renewalCrypto : Crypto :=
  { crypto with
    verifySignature := fun pubkey msg signature =>
      (pubkey, msg, signature) ∈ (anchor.rootPubkey, prolonged2.signedBody, prolonged2.signature) ::
        (anchor.rootPubkey, rotated2.signedBody, rotated2.signature) :: signatures
    blake2s256 := fun msg =>
      if msg = macDeriveLabel ++ cert3.edPubkey.toList then
        .be 32 0xef84322a92b7366da9a3dc17dde08ca7829184fb0d6858ae11215d65fda54149
      else crypto.blake2s256 msg
    diffieHellman := fun keypair peer =>
      if crypto.xPubkey keypair = cert4.xPubkey ∨ peer = cert4.xPubkey then shared24 else shared23
    low_order := by
      intro x y peer h
      split at h
      · exact absurd h (by decide)
      · exact absurd h (by decide)
    own_key := by
      intro x
      split
      · decide
      · decide }

theorem renewalCrypto_commutes (x y : Keypair) :
    renewalCrypto.diffieHellman x (renewalCrypto.xPubkey y) =
      renewalCrypto.diffieHellman y (renewalCrypto.xPubkey x) := by
  change (if _ ∨ _ then shared24 else shared23) = if _ ∨ _ then shared24 else shared23
  rw [if_congr or_comm rfl rfl]
  rfl

def node2 : OgmAuth capacities := .withCapacities capacities (keypair 2) cert2 anchor

theorem node2_certified : Certified renewalCrypto node2 :=
  (certified_iff renewalCrypto_commutes).mpr ⟨by decide +kernel, by decide +kernel⟩

def renewalWith (reply : MembershipCert) :
    List (CredentialOp BatmanEngine.smallCapacities capacities) :=
  [.auth (.setRenewalAuthority (some cert3.edPubkey)),
    .auth (.state (.auth (.setTime (Duration.ofSecs 800) (.at 800)))),
    .auth (.state (.buildRenewalRequest 300)),
    .auth (.state (.ingestRenewReply reply.asBytes))]

theorem certified_run_iff_renewed :
    Run.AllGood (credentialStep renewalCrypto) (Certified renewalCrypto) node2
      (renewalWith prolonged2) := by
  refine (certified_run_iff renewalCrypto renewalCrypto_commutes node2 node2_certified _).mpr ?_
  unfold renewalWith
  rw [Run.allSafe_cons, Run.allSafe_cons, Run.allSafe_cons, Run.allSafe_cons]
  refine ⟨trivial, trivial, trivial, ?_, Run.allSafe_nil⟩
  intro cert rest hread _ _ _
  have hread' := MembershipCert.readFromPrefix_asBytes prolonged2 []
  rw [List.append_nil, hread] at hread'
  obtain rfl := (Prod.mk.inj (Option.some.inj hread')).1
  decide +kernel

/-- A reply the authority signed leaves node 2 under a certificate that is not for its
keys. -/
theorem renewal_rotates_agreement_key :
    Certified renewalCrypto node2 ∧ anchor.Issued renewalCrypto rotated2 ∧
      ¬ Run.AllGood (credentialStep renewalCrypto) (Certified renewalCrypto) node2
        (renewalWith rotated2) := by
  refine ⟨node2_certified, ⟨by decide +kernel, by decide +kernel, by decide +kernel,
    by decide +kernel, by decide +kernel⟩, ?_⟩
  intro hgood
  have hmatch := (hgood (renewalWith rotated2) (List.prefix_refl _)).xPubkey
  revert hmatch
  decide +kernel

end SmallMesh

end Wayfinder
