import Wayfinder.Auth.Memo
import Wayfinder.Auth.Control

/-!
# The latch

A record that names the node itself is not enforced but latched, for the router to act
on once the clock is inside its window. A later instant supersedes the record held, so
that of all records aimed at the certificate in force the first of the latest instant is
latched, until it has expired.
-/

namespace Wayfinder

set_option autoImplicit false

open Table Latest

/-- The record cancels the certificate, the enforcement window aside. -/
def MembershipCert.aimedAt (cert : MembershipCert) (record : RevocationRecord) : Bool :=
  record.cancelsCertFor cert.nodeMac cert.notBefore.get record.notBefore.get

namespace OgmAuth

variable {c : AuthCapacities}

/-- The record is signed, has not expired, and names this node. -/
def serves (k : Crypto) (s : OgmAuth c) (record : RevocationRecord) : Bool :=
  match s.anchor.verifyRevocation k record s.wall.unixOrZero with
  | .ok mac => mac = s.cert.nodeMac
  | .error _ => false

/-- Nothing is changed that decides what is latched and when it is acted on. -/
structure LatchKept (s s' : OgmAuth c) : Prop where
  cert : s'.cert = s.cert
  wall : s'.wall = s.wall
  anchor : s'.anchor = s.anchor
  selfRevocation : s'.selfRevocation = s.selfRevocation

theorem LatchKept.refl (s : OgmAuth c) : LatchKept s s := ⟨rfl, rfl, rfl, rfl⟩

theorem LatchKept.trans {s s' s'' : OgmAuth c} (h : LatchKept s s') (h' : LatchKept s' s'') :
    LatchKept s s'' :=
  ⟨h'.cert.trans h.cert, h'.wall.trans h.wall, h'.anchor.trans h.anchor,
    h'.selfRevocation.trans h.selfRevocation⟩

theorem Kept.latchKept {s s' : OgmAuth c} (h : Kept s s') : LatchKept s s' :=
  ⟨h.cert, h.wall, h.anchor, h.selfRevocation⟩

theorem KeysKept.latchKept {s s' : OgmAuth c} (h : KeysKept s s') : LatchKept s s' :=
  ⟨h.cert, h.wall, h.anchor, h.selfRevocation⟩

theorem cacheNeighbor_latchKept (s : OgmAuth c) (keys : NeighborKeys) :
    LatchKept s (s.cacheNeighbor keys).1 := by
  unfold cacheNeighbor
  split
  · exact .refl s
  · exact ⟨rfl, rfl, rfl, rfl⟩

theorem buildCertReqFrame_latchKept (k : Crypto) (s : OgmAuth c) (orig : Mac) (fp : Octets 8)
    (firstHop : Mac) (bufLen : Nat) :
    LatchKept s (s.buildCertReqFrame k orig fp firstHop bufLen).1 := by
  unfold buildCertReqFrame
  split
  · exact .refl s
  have hbooked := buildCertRequest_booked (k := k) (s := s) orig fp firstHop
    (bufLen - BatmanUnicastPacket.size)
  generalize s.buildCertRequest k orig fp firstHop (bufLen - BatmanUnicastPacket.size) = built
    at hbooked
  obtain ⟨s', _ | body⟩ := built
  · exact hbooked.latchKept
  · exact hbooked.latchKept

theorem answerCertRequest_latchKept {e : Capacities} (k : Crypto) (s : OgmAuth c)
    (paths : BatmanEngine e) (now : Duration) (body : Bytes) (replyLen : Nat) :
    LatchKept s (s.answerCertRequest k paths now body replyLen).1 := by
  have hverify : LatchKept s (s.verifyCertRequest k body).1 := by
    rcases verifyCertRequest_cases k s body with ⟨_, hkept⟩ | ⟨_, _, s₁, keys, hkept, _, _, heq⟩
    · exact hkept.latchKept
    · rw [heq]
      exact hkept.latchKept.trans (s₁.cacheNeighbor_latchKept keys)
  unfold answerCertRequest
  generalize s.verifyCertRequest k body = verified at hverify
  obtain ⟨s', _ | requester⟩ := verified
  · exact hverify
  have hparked : LatchKept s (s'.parkPendingReply requester) :=
    hverify.trans ⟨rfl, rfl, rfl, rfl⟩
  dsimp only
  split
  · split
    · exact hverify
    · exact hparked
  · exact hparked

theorem ingestCertReply_latchKept (k : Crypto) (s : OgmAuth c) (body : Bytes) :
    LatchKept s (s.ingestCertReply k body).1 := by
  rcases ingestCertReply_cases k s body with ⟨_, hkept⟩ | ⟨_, _, _, keys, _, _, _, hkept⟩
  · exact hkept.latchKept
  · exact (s.cacheNeighbor_latchKept keys).trans hkept.latchKept

theorem flushPendingCertReply_latchKept {e : Capacities} (s : OgmAuth c)
    (paths : BatmanEngine e) (now : Duration) (orig : Mac) (replyLen : Nat) :
    LatchKept s (s.flushPendingCertReply paths now orig replyLen).1 := by
  unfold flushPendingCertReply
  split
  · exact .refl s
  split
  · exact .refl s
  split
  · exact .refl s
  · exact ⟨rfl, rfl, rfl, rfl⟩

theorem buildChallengeFrame_latchKept (k : Crypto) (s : OgmAuth c) (target : Mac)
    (bufLen : Nat) : LatchKept s (s.buildChallengeFrame k target bufLen).1 := by
  have hissued : LatchKept s (s.issueChallenge k target).1 :=
    (after_keysKept (.issueChallenge target) (by simp) (by simp)).latchKept
  unfold buildChallengeFrame
  generalize s.issueChallenge k target = issued at hissued
  obtain ⟨s', _ | nonce⟩ := issued
  · exact hissued
  · exact hissued

/-- What is latched comes from the records taken in under a certificate the node has run
under since it was enrolled; the leading one of those aimed at the certificate in force
is latched, unless it has expired. -/
structure Armed (heard : List RevocationRecord) (certs : List MembershipCert) (s : OgmAuth c) :
    Prop where
  current : s.cert ∈ certs
  held : ∀ record, s.selfRevocation = some record → record ∈ heard ∧
    record.nodeMac = s.cert.nodeMac ∧ ∃ cert ∈ certs, cert.aimedAt record = true
  leads : ∀ record, latest instant none (heard.filter s.cert.aimedAt) = some record →
    s.selfRevocation = some record ∨
      s.wall.judgesWindows = true ∧ record.notAfter.get ≤ s.wall.unixOrZero

section Armed
variable {k : Crypto} {s s' : OgmAuth c} {heard : List RevocationRecord}
  {certs : List MembershipCert} {record : RevocationRecord}

theorem aimedAt_iff {cert : MembershipCert} : cert.aimedAt record = true ↔
    (record.nodeMac = cert.nodeMac ∧ cert.notBefore.get ≤ record.notBefore.get) ∧
      record.notBefore.get < record.notAfter.get := by
  simp [MembershipCert.aimedAt, RevocationRecord.cancelsCertFor, RevocationRecord.namesCert]

theorem Armed.of_kept (h : Armed heard certs s) (hkept : LatchKept s s') :
    Armed heard certs s' := by
  obtain ⟨hcurrent, hheld, hleads⟩ := h
  refine ⟨?_, ?_, ?_⟩
  · rw [hkept.cert]
    exact hcurrent
  · rw [hkept.selfRevocation, hkept.cert]
    exact hheld
  · rw [hkept.selfRevocation, hkept.cert, hkept.wall]
    exact hleads

theorem Armed.mono (h : Armed heard certs s) (cert : MembershipCert) :
    Armed heard (cert :: certs) s := by
  refine ⟨List.mem_cons_of_mem _ h.current, ?_, h.leads⟩
  intro record hrecord
  obtain ⟨hheard, hmac, old, hold, haimed⟩ := h.held record hrecord
  exact ⟨hheard, hmac, old, List.mem_cons_of_mem _ hold, haimed⟩

/-- Whatever is latched is no later than a record aimed at the certificate in force that
leads, and earlier than one aimed at it when nothing has led so far. -/
theorem Armed.held_instant (h : Armed heard certs s) {held : RevocationRecord}
    (hheld : s.selfRevocation = some held) (haimed : s.cert.aimedAt record = true)
    (hlate : ∀ leader, latest instant none (heard.filter s.cert.aimedAt) = some leader →
      instant leader < instant record) : instant held < instant record := by
  obtain ⟨hheard, hmac, cert, _, hcert⟩ := h.held held hheld
  obtain ⟨_, hwindow⟩ := aimedAt_iff.mp hcert
  obtain ⟨⟨_, hissued⟩, _⟩ := aimedAt_iff.mp haimed
  by_cases hold : s.cert.aimedAt held = true
  · have hmem : held ∈ heard.filter s.cert.aimedAt := List.mem_filter.mpr ⟨hheard, hold⟩
    cases hleader : latest instant none (heard.filter s.cert.aimedAt) with
    | none =>
      rw [eq_nil_of_latest hleader] at hmem
      cases hmem
    | some leader =>
      exact Nat.lt_of_le_of_lt ((leads_of_latest hleader).2.1 held hmem) (hlate leader hleader)
  · -- The record held misses the certificate by its instant alone.
    have hbefore : held.notBefore.get < s.cert.notBefore.get := by
      by_contra hafter
      exact hold (aimedAt_iff.mpr ⟨⟨hmac, Nat.not_lt.mp hafter⟩, hwindow⟩)
    exact Nat.lt_of_lt_of_le hbefore hissued

/-- A record aimed at the certificate in force, and the latch. -/
theorem Armed.latch (h : Armed heard certs s) (hmac : record.nodeMac = s.cert.nodeMac) :
    Armed (heard ++ [record]) certs (s.latchSelfRevocation record) := by
  have hheld : ∀ r, s.selfRevocation = some r → r ∈ heard ++ [record] ∧
      r.nodeMac = s.cert.nodeMac ∧ ∃ cert ∈ certs, cert.aimedAt r = true := by
    intro r hr
    obtain ⟨hheard, hrest⟩ := h.held r hr
    exact ⟨List.mem_append_left _ hheard, hrest⟩
  unfold latchSelfRevocation
  split
  · rename_i hmiss
    have haimed : ¬ s.cert.aimedAt record = true := by
      simpa [MembershipCert.aimedAt] using hmiss
    refine ⟨h.current, hheld, ?_⟩
    rw [List.filter_append, List.filter_cons_of_neg haimed, List.filter_nil, List.append_nil]
    exact h.leads
  rename_i hmiss
  have haimed : s.cert.aimedAt record = true := by
    simpa [MembershipCert.aimedAt] using hmiss
  have hleader : latest instant none ((heard ++ [record]).filter s.cert.aimedAt) =
      keepLatest instant (latest instant none (heard.filter s.cert.aimedAt)) record := by
    rw [List.filter_append, List.filter_cons_of_pos haimed, List.filter_nil,
      latest_append_singleton]
  split
  · rename_i hknown
    obtain ⟨held, hlatch, hle⟩ : ∃ held, s.selfRevocation = some held ∧
        instant record ≤ instant held := by
      simpa [Option.any_eq_true, instant] using hknown
    refine ⟨h.current, hheld, ?_⟩
    rw [hleader]
    cases hlatest : latest instant none (heard.filter s.cert.aimedAt) with
    | none =>
      have hlt := h.held_instant hlatch haimed (by simp [hlatest])
      exact absurd hlt (Nat.not_lt.mpr hle)
    | some leader =>
      have hstays : instant record ≤ instant leader := by
        by_contra hlater
        have hlt := h.held_instant hlatch haimed (by
          rintro leader' hleader'
          rw [hlatest] at hleader'
          obtain rfl := Option.some.inj hleader'
          exact Nat.not_le.mp hlater)
        exact absurd hlt (Nat.not_lt.mpr hle)
      rw [keepLatest_of_le hstays, ← hlatest]
      exact h.leads
  · rename_i hnews
    refine ⟨h.current, ?_, ?_⟩
    · intro r hr
      obtain rfl := Option.some.inj hr
      exact ⟨by simp, hmac, s.cert, h.current, haimed⟩
    · rw [hleader]
      intro r hr
      cases hlatest : latest instant none (heard.filter s.cert.aimedAt) with
      | none =>
        rw [hlatest] at hr
        exact Or.inl hr
      | some leader =>
        by_cases hlt : instant leader < instant record
        · rw [hlatest] at hr
          rw [keepLatest_of_lt (by simpa using hlt)] at hr
          exact Or.inl hr
        · -- The leader stands, so it is not what is latched: it has expired.
          rw [hlatest, keepLatest_of_le (Nat.not_lt.mp hlt)] at hr
          obtain rfl := Option.some.inj hr
          rcases h.leads _ hlatest with hlatch | hexpired
          · exact absurd (by simpa [hlatch, instant] using Nat.not_lt.mp hlt) hnews
          · exact Or.inr hexpired

theorem serves_congr (hkept : s'.cert = s.cert ∧ s'.wall = s.wall ∧ s'.anchor = s.anchor) :
    s'.serves k = s.serves k := by
  obtain ⟨hcert, hwall, hanchor⟩ := hkept
  unfold serves
  rw [hcert, hwall, hanchor]

theorem ingestRevocation_sameWorld (k : Crypto) (s : OgmAuth c) (record : RevocationRecord) :
    let s' := (s.ingestRevocation k record).1
    s'.cert = s.cert ∧ s'.wall = s.wall ∧ s'.anchor = s.anchor := by
  rcases ingestRevocation_cases k s record with ⟨_, _, heq⟩ | ⟨_, latch, heq⟩
  · rw [heq]
    exact ⟨rfl, rfl, rfl⟩
  · rw [heq]
    exact ⟨rfl, rfl, rfl⟩

theorem Armed.ingest (h : Armed heard certs s) (record : RevocationRecord) :
    Armed (heard ++ [record].filter (s.serves k)) certs (s.ingestRevocation k record).1 := by
  unfold ingestRevocation
  cases hverify : s.anchor.verifyRevocation k record s.wall.unixOrZero with
  | error e =>
    have hserves : ¬ s.serves k record = true := by simp [serves, hverify]
    rw [List.filter_cons_of_neg hserves, List.filter_nil, List.append_nil]
    exact h
  | ok mac =>
    obtain ⟨_, _, rfl⟩ := TrustAnchor.verifyRevocation_ok.mp hverify
    dsimp only
    by_cases hself : record.nodeMac = s.cert.nodeMac
    · have hserves : s.serves k record = true := by simp [serves, hverify, hself]
      rw [if_pos hself, List.filter_cons_of_pos hserves, List.filter_nil]
      exact h.latch hself
    · have hserves : ¬ s.serves k record = true := by simp [serves, hverify, hself]
      rw [if_neg hself, List.filter_cons_of_neg hserves, List.filter_nil, List.append_nil]
      -- A record of another node does not touch the latch.
      have hhold : Armed heard certs (s.holdRevocation record record.nodeMac) :=
        h.of_kept ⟨rfl, rfl, rfl, rfl⟩
      cases s.revocations.find? record.nodeMac with
      | none => exact hhold
      | some slot =>
        dsimp only
        split
        · exact h
        · exact hhold

theorem Armed.ingestAll (h : Armed heard certs s) (records : List RevocationRecord) :
    Armed (heard ++ records.filter (s.serves k)) certs (s.ingestAll k records) := by
  induction records generalizing s heard with
  | nil =>
    rw [List.filter_nil, List.append_nil]
    exact h
  | cons record records ih =>
    have hrest := ih (h.ingest (k := k) record)
    rw [serves_congr (ingestRevocation_sameWorld k s record), List.append_assoc,
      ← List.filter_append] at hrest
    exact hrest

/-- An OGM arms the latch with the records it carries, if it verifies. -/
theorem Armed.verifyOgm (h : Armed heard certs s) (payload : Bytes) :
    Armed (heard ++ (s.recordsOf k (.auth (.verifyOgm payload))).filter (s.serves k)) certs
      (s.verifyOgm k payload).1 := by
  rcases verifyOgm_cases k s payload with
    ⟨hverdict, hkept⟩ | ⟨hverdict, ogm, tail, s₁, keys, hread, hkept, _, heq⟩
  · rw [recordsOf, if_neg hverdict, List.filter_nil, List.append_nil]
    exact h.of_kept hkept.latchKept
  · rw [recordsOf, if_pos hverdict, hread, heq]
    have hcached := hkept.latchKept.trans (s₁.cacheNeighbor_latchKept keys)
    have hingested := (h.of_kept hcached).ingestAll (k := k) (tailRecords tail)
    rw [serves_congr ⟨hcached.cert, hcached.wall, hcached.anchor⟩] at hingested
    exact hingested

theorem renewedCert_spec {body : Bytes} {cert : MembershipCert}
    (h : s.renewedCert k body = some cert) :
    cert.nodeMac = s.cert.nodeMac ∧ s.cert.notBefore.get ≤ cert.notBefore.get := by
  unfold renewedCert at h
  split at h
  · cases h
  split at h
  · cases h
  split at h
  · cases h
  rename_i hverify
  obtain ⟨_, _, rfl⟩ := TrustAnchor.verifyCert_ok.mp hverify
  split at h
  · cases h
  rename_i hsame
  split at h
  · cases h
  rename_i hforward
  obtain rfl := Option.some.inj h
  exact ⟨not_not.mp (not_or.mp hsame).1, Nat.not_lt.mp (not_or.mp hforward).2⟩

/-- A renewal moves the certificate forward, past some of the records taken in; the
latch stays as it is. -/
theorem Armed.renew (h : Armed heard certs s) (body : Bytes) :
    let s' := (s.ingestRenewReply k body).1
    Armed heard (s'.cert :: certs) s' := by
  rcases ingestRenewReply_cases k s body with ⟨_, heq⟩ | ⟨cert, hcert, heq⟩
  · rw [heq]
    exact h.mono s.cert
  obtain ⟨hmac, hlater⟩ := renewedCert_spec hcert
  rw [heq]
  refine ⟨List.mem_cons_self, ?_, ?_⟩
  · intro record hrecord
    obtain ⟨hheard, hnames, old, hold, haimed⟩ := h.held record hrecord
    exact ⟨hheard, hnames.trans hmac.symm, old, List.mem_cons_of_mem _ hold, haimed⟩
  · intro record hlatest
    apply h.leads record
    -- What is aimed at the new certificate is aimed at the old one, and is the latest of it.
    have hnarrow : heard.filter cert.aimedAt =
        (heard.filter s.cert.aimedAt).filter cert.aimedAt := by
      rw [List.filter_filter]
      apply List.filter_congr
      intro r _
      by_cases hnew : cert.aimedAt r = true
      · obtain ⟨⟨hr, hissued⟩, hwindow⟩ := aimedAt_iff.mp hnew
        have hold : s.cert.aimedAt r = true :=
          aimedAt_iff.mpr ⟨⟨hr.trans hmac, hlater.trans hissued⟩, hwindow⟩
        rw [hnew, hold]
        rfl
      · rw [Bool.not_eq_true] at hnew
        rw [hnew]
        rfl
    dsimp only at hlatest
    rw [hnarrow] at hlatest
    refine latest_of_filter ?_ hlatest
    intro r _ r' hr' haimed hle
    obtain ⟨⟨_, hissued⟩, _⟩ := aimedAt_iff.mp haimed
    obtain ⟨⟨hmac', _⟩, hwindow'⟩ := aimedAt_iff.mp (List.mem_filter.mp hr').2
    exact aimedAt_iff.mpr ⟨⟨hmac'.trans hmac.symm, hissued.trans hle⟩, hwindow'⟩

/-- A clock that once known stays known and does not go back. -/
def ClockForward (old new : Clocked) : Prop :=
  old.judgesWindows = true → new.judgesWindows = true ∧ old.unixOrZero ≤ new.unixOrZero

theorem Armed.setTime (h : Armed heard certs s) {now : Duration} {wall : Clocked}
    (hforward : ClockForward s.wall wall) : Armed heard certs (s.setTime now wall) := by
  obtain ⟨revocations, neighbors, keyGeneration, heq⟩ := s.setTime_frame now wall
  rw [heq]
  refine ⟨h.current, h.held, ?_⟩
  intro record hrecord
  rcases h.leads record hrecord with hlatch | ⟨hjudges, hexpired⟩
  · exact Or.inl hlatch
  · obtain ⟨hjudges', hle⟩ := hforward hjudges
    exact Or.inr ⟨hjudges', hexpired.trans hle⟩

/-- Asking for a record to act on drops one that has expired, and leaves the latch alone
otherwise when there is none. -/
theorem Armed.takeSelfRevoked (h : Armed heard certs s) (hnone : s.takeSelfRevoked.2 = none) :
    Armed heard certs s.takeSelfRevoked.1 := by
  rcases s.takeSelfRevoked_cases with
    ⟨heq, _⟩ | ⟨held, hlatch, hjudges, ⟨hexpired, heq⟩ | ⟨_, _, heq⟩⟩
  · rw [heq]
    exact h
  · rw [heq]
    refine ⟨h.current, fun record hrecord => (nomatch hrecord), ?_⟩
    intro record hrecord
    rcases h.leads record hrecord with hlatch' | hexpired'
    · rw [hlatch] at hlatch'
      obtain rfl := Option.some.inj hlatch'
      exact Or.inr ⟨hjudges, hexpired⟩
    · exact Or.inr hexpired'
  · rw [heq] at hnone
    cases hnone

end Armed

end OgmAuth

end Wayfinder
