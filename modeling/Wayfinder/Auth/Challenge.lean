import Wayfinder.Auth.Memo

/-!
# Challenges and the marks they move

A mark of the replay guard falls when its sender answers the challenge outstanding for
it, and with the sender's keys. Challenges are numbered by a counter that never runs
backward, so none is answered twice; and the nonce of each is its own, so that while
tags do not collide an answer to one is no answer to another.
-/

namespace Wayfinder

set_option autoImplicit false

open Table

namespace OgmAuth

variable {c : AuthCapacities} {k : Crypto} {s : OgmAuth c} {mac : Mac}

/-! ### What lowers a mark -/

def Falls (s s' : OgmAuth c) (mac : Mac) : Prop :=
  ∃ n, s.highWater mac = some n ∧ ∀ m, s'.highWater mac = some m → m < n

/-- The step accepts an answer of `mac` to the nonce outstanding for it. -/
def ProvesRestart (k : Crypto) (s : OgmAuth c) (op : StateOp) (mac : Mac) : Prop :=
  ∃ tag challenge, op = .verifyChallengeResponse mac tag ∧
    (s.verifyChallengeResponse k mac tag).2 = true ∧
    s.inProgress.find? mac = some challenge ∧ s.answeredChallenge k mac tag = some challenge

theorem disturbs_of_falls {op : StateOp} (h : Falls s (s.after k op) mac) :
    Disturbs k mac s op := by
  obtain ⟨n, hbefore, hafter⟩ := h
  by_contra hcalm
  obtain ⟨m, hm, hle⟩ := after_markedAt hcalm ⟨n, hbefore, Nat.le_refl n⟩
  exact absurd (hafter m hm) (Nat.not_lt.mpr hle)

/-- A neighbor whose revocation is newly recorded is not in the cache afterwards, even
if it is the one whose OGM carries the record. -/
theorem not_caches_of_newlyRevoked {op : StateOp}
    (h : mac ∈ newlyRevoked k s (recordsOf k s op)) : ¬ (s.after k op).Caches mac := by
  intro hcached
  cases op with
  | auth op =>
    cases op with
    | verifyOgm payload =>
      rw [recordsOf] at h
      rcases verifyOgm_cases k s payload with
        ⟨hverdict, _⟩ | ⟨hverdict, ogm, tail, s₁, keys, hread, hkept, _, heq⟩
      · rw [if_neg hverdict] at h
        cases h
      · rw [if_pos hverdict, hread] at h
        change (s.verifyOgm k payload).1.Caches mac at hcached
        rw [heq, ingestAll_caches] at hcached
        have hsame := hkept.toCacheKept.sameRecords.trans (s₁.cacheNeighbor_sameRecords keys)
        rw [newlyRevoked_congr hsame] at hcached
        exact hcached.2 h
    | ingestRevocation record =>
      exact ((ingestAll_caches [record]).mp hcached).2 h
    | _ => cases h
  | _ => cases h

/-- A mark falls on an answer to a challenge, or with the keys of its sender. -/
theorem falls_cases {op : StateOp} (h : Falls s (s.after k op) mac) :
    ProvesRestart k s op mac ∨
      (mac ∈ newlyRevoked k s (recordsOf k s op) ∧ ¬ (s.after k op).Caches mac) := by
  rcases disturbs_of_falls h with hrevoked | ⟨tag, rfl, haccepted⟩
  · exact Or.inr ⟨hrevoked, not_caches_of_newlyRevoked hrevoked⟩
  · rcases verifyChallengeResponse_cases k s mac tag with
      ⟨hrefused, _⟩ | ⟨_, challenge, hanswered, _⟩
    · rw [haccepted] at hrefused
      cases hrefused
    · exact Or.inl ⟨tag, challenge, rfl, haccepted, (answeredChallenge_caches hanswered).2,
        hanswered⟩

/-! ### The books of challenges -/

structure ChallengesKept (s s' : OgmAuth c) : Prop where
  inProgress : s'.inProgress = s.inProgress
  challengeCounter : s'.challengeCounter = s.challengeCounter
  keypair : s'.keypair = s.keypair

theorem ChallengesKept.refl (s : OgmAuth c) : ChallengesKept s s := ⟨rfl, rfl, rfl⟩

theorem ChallengesKept.trans {s s' s'' : OgmAuth c} (h : ChallengesKept s s')
    (h' : ChallengesKept s' s'') : ChallengesKept s s'' :=
  ⟨h'.inProgress.trans h.inProgress, h'.challengeCounter.trans h.challengeCounter,
    h'.keypair.trans h.keypair⟩

theorem Kept.challengesKept {s' : OgmAuth c} (h : Kept s s') : ChallengesKept s s' :=
  ⟨h.inProgress, h.challengeCounter, h.keypair⟩

theorem cacheNeighbor_challengesKept (s : OgmAuth c) (keys : NeighborKeys) :
    ChallengesKept s (s.cacheNeighbor keys).1 := by
  unfold cacheNeighbor
  split
  · exact .refl s
  · exact ⟨rfl, rfl, rfl⟩

theorem ingestAll_challengesKept (k : Crypto) (s : OgmAuth c) (records : List RevocationRecord) :
    ChallengesKept s (s.ingestAll k records) := by
  induction records generalizing s with
  | nil => exact .refl s
  | cons record rest ih =>
    refine ChallengesKept.trans ?_ (ih (s.ingestRevocation k record).1)
    rcases ingestRevocation_cases k s record with ⟨_, _, heq⟩ | ⟨_, latch, heq⟩
    · rw [heq]
      exact ⟨rfl, rfl, rfl⟩
    · rw [heq]
      exact ⟨rfl, rfl, rfl⟩

theorem step_challengesKept (k : Crypto) (s : OgmAuth c) (op : AuthOp) :
    ChallengesKept s (s.step k op) := by
  cases op with
  | verifyOgm payload =>
    rcases verifyOgm_cases k s payload with ⟨_, hkept⟩ | ⟨_, _, tail, s₁, keys, _, hkept, _, heq⟩
    · exact hkept.challengesKept
    · rw [step, heq]
      exact (hkept.challengesKept.trans (s₁.cacheNeighbor_challengesKept keys)).trans
        (ingestAll_challengesKept k _ _)
  | ingestCertReply body =>
    rcases ingestCertReply_cases k s body with ⟨_, hkept⟩ | ⟨_, _, _, keys, _, _, _, hkept⟩
    · exact hkept.challengesKept
    · exact (s.cacheNeighbor_challengesKept keys).trans hkept.challengesKept
  | verifyCertRequest body =>
    rcases verifyCertRequest_cases k s body with ⟨_, hkept⟩ | ⟨_, _, s₁, keys, hkept, _, _, heq⟩
    · exact hkept.challengesKept
    · rw [step, heq]
      exact hkept.challengesKept.trans (s₁.cacheNeighbor_challengesKept keys)
  | buildCertRequest orig fp firstHop bufLen =>
    exact (buildCertRequest_booked orig fp firstHop bufLen).challengesKept
  | ingestRevocation record => exact ingestAll_challengesKept k s [record]
  | takeSelfRevoked =>
    obtain ⟨latch, heq⟩ := s.takeSelfRevoked_frame
    rw [step, heq]
    exact ⟨rfl, rfl, rfl⟩
  | setTime now wall =>
    obtain ⟨revocations, neighbors, keyGeneration, heq⟩ := s.setTime_frame now wall
    rw [step, heq]
    exact ⟨rfl, rfl, rfl⟩
  | pruneExpired =>
    obtain ⟨revocations, heq⟩ := s.pruneExpired_frame
    rw [step, heq]
    exact ⟨rfl, rfl, rfl⟩

def issues (k : Crypto) (s : OgmAuth c) : StateOp → Option OutstandingChallenge
  | .issueChallenge neighbor =>
    (s.issueChallenge k neighbor).2.map fun nonce => ⟨neighbor, nonce, s.challengeCounter + 1⟩
  | _ => none

def consumes (k : Crypto) (s : OgmAuth c) : StateOp → Option OutstandingChallenge
  | .verifyChallengeResponse neighbor tag => s.answeredChallenge k neighbor tag
  | _ => none

/-- The books agree: what is outstanding was issued and not consumed, and the numbers
are given out once each. -/
structure Ledger (k : Crypto) (keypair : Keypair) (s : OgmAuth c)
    (issued consumed : List OutstandingChallenge) : Prop where
  own : s.keypair = keypair
  outstanding : ∀ ch ∈ s.inProgress.toList,
    ch ∈ issued ∧ ch.issuedSeq ∉ consumed.map OutstandingChallenge.issuedSeq
  counted : ∀ ch ∈ issued, ch.issuedSeq ≤ s.challengeCounter
  distinct : (issued.map OutstandingChallenge.issuedSeq).Nodup
  nonces : ∀ ch ∈ issued, ch.nonce = k.frameTag (nonceInput k keypair ch.issuedSeq ch.neighbor)
  drawn : ∀ ch ∈ consumed, ch ∈ issued
  spent : (consumed.map OutstandingChallenge.issuedSeq).Nodup

section Ledger
variable {keypair : Keypair} {issued consumed : List OutstandingChallenge}

theorem Ledger.eq_of_seq (h : Ledger k keypair s issued consumed) {ch ch' : OutstandingChallenge}
    (hch : ch ∈ issued) (hch' : ch' ∈ issued) (hseq : ch.issuedSeq = ch'.issuedSeq) : ch = ch' :=
  List.inj_on_of_nodup_map h.distinct hch hch' hseq

theorem Ledger.of_frame {s' : OgmAuth c} (h : Ledger k keypair s issued consumed)
    (hkeypair : s'.keypair = s.keypair) (hopen : s'.inProgress = s.inProgress)
    (hcounter : s.challengeCounter ≤ s'.challengeCounter) :
    Ledger k keypair s' issued consumed := by
  refine ⟨hkeypair.trans h.own, ?_, ?_, h.distinct, h.nonces, h.drawn, h.spent⟩
  · rw [hopen]
    exact h.outstanding
  · intro ch hch
    exact (h.counted ch hch).trans hcounter

theorem Ledger.kept {s' : OgmAuth c} (h : Ledger k keypair s issued consumed)
    (hkept : ChallengesKept s s') : Ledger k keypair s' issued consumed :=
  h.of_frame hkept.keypair hkept.inProgress hkept.challengeCounter.ge

theorem Ledger.issue (h : Ledger k keypair s issued consumed) (neighbor : Mac) :
    Ledger k keypair (s.issueChallenge k neighbor).1
      (issued ++ (issues k s (.issueChallenge neighbor)).toList) consumed := by
  rw [issues]
  unfold issueChallenge
  split
  · simpa using h
  split
  · have hfresh : s.challengeCounter + 1 ∉ issued.map OutstandingChallenge.issuedSeq := by
      intro hmem
      obtain ⟨ch, hch, hseq⟩ := List.mem_map.mp hmem
      have hle := h.counted ch hch
      omega
    dsimp only
    rw [Option.map_some, Option.toList_some]
    refine ⟨h.own, ?_, ?_, ?_, ?_, ?_, h.spent⟩
    · intro ch hch
      rcases KeyedVec.mem_put hch with rfl | ⟨hold, _⟩
      · refine ⟨by simp, ?_⟩
        intro hmem
        obtain ⟨ch, hch, hseq⟩ := List.mem_map.mp hmem
        exact hfresh (List.mem_map.mpr ⟨ch, h.drawn ch hch, hseq⟩)
      · obtain ⟨hissued, hopen⟩ := h.outstanding ch hold
        exact ⟨List.mem_append_left _ hissued, hopen⟩
    · intro ch hch
      rcases List.mem_append.mp hch with hold | hnew
      · exact (h.counted ch hold).trans (Nat.le_succ _)
      · rw [List.mem_singleton.mp hnew]
    · rw [List.map_append, List.nodup_append']
      refine ⟨h.distinct, by simp, ?_⟩
      simpa using hfresh
    · intro ch hch
      rcases List.mem_append.mp hch with hold | hnew
      · exact h.nonces ch hold
      · rw [List.mem_singleton.mp hnew, h.own]
    · intro ch hch
      exact List.mem_append_left _ (h.drawn ch hch)
  · simpa using h

theorem Ledger.answer (h : Ledger k keypair s issued consumed) (neighbor : Mac) (tag : Bytes) :
    Ledger k keypair (s.verifyChallengeResponse k neighbor tag).1 issued
      (consumed ++ (consumes k s (.verifyChallengeResponse neighbor tag)).toList) := by
  rw [consumes]
  rcases verifyChallengeResponse_cases k s neighbor tag with
    ⟨_, hanswered, heq⟩ | ⟨_, challenge, hanswered, counters, heq, _⟩
  · rw [hanswered, heq]
    rw [Option.toList_none, List.append_nil]
    refine h.of_frame ?_ ?_ (Nat.le_refl _) <;> rfl
  · rw [hanswered, heq, Option.toList_some]
    obtain ⟨hmem, hneighbor⟩ :=
      KeyedVec.find?_eq_some_iff.mp (answeredChallenge_caches hanswered).2
    obtain ⟨hissued, hopen⟩ := h.outstanding challenge hmem
    refine ⟨h.own, ?_, h.counted, h.distinct, h.nonces, ?_, ?_⟩
    · intro ch hch
      obtain ⟨hold, hother⟩ := KeyedVec.mem_remove.mp hch
      obtain ⟨hissued', hopen'⟩ := h.outstanding ch hold
      refine ⟨hissued', ?_⟩
      rw [List.map_append, List.mem_append, not_or]
      refine ⟨hopen', ?_⟩
      intro hseq
      have hsame := h.eq_of_seq hissued' hissued (by simpa using hseq)
      rw [hsame] at hother
      exact hother hneighbor
    · intro ch hch
      rcases List.mem_append.mp hch with hold | hnew
      · exact h.drawn ch hold
      · rw [List.mem_singleton.mp hnew]
        exact hissued
    · rw [List.map_append, List.nodup_append']
      exact ⟨h.spent, by simp, by simpa using hopen⟩

theorem HandsOver.challengesKept {src : Mac} {counter : Option Nat} {r : OgmAuth c × Bool}
    (h : s.HandsOver src counter r) : ChallengesKept s r.1 := by
  obtain ⟨counters, heq⟩ := h.frame
  rw [heq]
  exact ⟨rfl, rfl, rfl⟩

theorem Ledger.after (h : Ledger k keypair s issued consumed) (op : StateOp) :
    Ledger k keypair (s.after k op) (issued ++ (issues k s op).toList)
      (consumed ++ (consumes k s op).toList) := by
  have hquiet : ∀ {s' : OgmAuth c}, Ledger k keypair s' issued consumed →
      Ledger k keypair s' (issued ++ (none : Option OutstandingChallenge).toList)
        (consumed ++ (none : Option OutstandingChallenge).toList) := by
    intro s' hs'
    simpa using hs'
  cases op with
  | auth op => exact hquiet (h.kept (step_challengesKept k s op))
  | verifyDirected src frame trailer =>
    exact hquiet (h.kept (verifyDirected_handsOver k s src frame trailer).challengesKept)
  | verifyDirectedNonceFresh src frame trailer =>
    obtain ⟨counters, claim, heq⟩ := verifyDirectedNonceFresh_frame k s src frame trailer
    apply hquiet
    rw [OgmAuth.after, perform, heq]
    exact h.kept ⟨rfl, rfl, rfl⟩
  | verifyFanout src frame trailer =>
    exact hquiet (h.kept (verifyFanout_handsOver k s src frame trailer).challengesKept)
  | verifyKeepalive src payload =>
    exact hquiet (h.kept (verifyKeepalive_handsOver k s src payload).challengesKept)
  | issueChallenge neighbor =>
    have hnone : consumes k s (.issueChallenge neighbor) = none := rfl
    rw [hnone, Option.toList_none, List.append_nil]
    exact h.issue neighbor
  | verifyChallengeResponse neighbor tag =>
    have hnone : issues k s (.verifyChallengeResponse neighbor tag) = none := rfl
    rw [hnone, Option.toList_none, List.append_nil]
    exact h.answer neighbor tag
  | tagDirected dst frame trailerLen =>
    exact hquiet (h.kept (tagDirected_booked k s dst frame trailerLen).challengesKept)
  | signFanout frame trailerLen =>
    exact hquiet (h.kept (signFanout_booked k s frame trailerLen).challengesKept)
  | augmentKeepalive len bufLen =>
    exact hquiet (h.kept (augmentKeepalive_booked k s len bufLen).challengesKept)
  | augmentOgm base bufLen lazy =>
    apply hquiet
    rcases augmentOgm_cases k s base bufLen lazy with heq | ⟨sent, heq⟩
    · rw [OgmAuth.after, perform, heq]
      exact h
    · rw [OgmAuth.after, perform, heq]
      exact h.kept ⟨rfl, rfl, rfl⟩
  | buildRenewalRequest bufLen =>
    -- A renewal request draws from the same counter, and leaves a gap in the numbers.
    apply hquiet
    rcases buildRenewalRequest_cases k s bufLen with heq | ⟨_, _, heq⟩
    · rw [OgmAuth.after, perform, heq]
      exact h
    · rw [OgmAuth.after, perform, heq]
      exact h.of_frame rfl rfl (Nat.le_succ _)
  | ingestRenewReply body =>
    apply hquiet
    rcases ingestRenewReply_cases k s body with ⟨_, heq⟩ | ⟨_, _, heq⟩
    · rw [OgmAuth.after, perform, heq]
      exact h
    · rw [OgmAuth.after, perform, heq]
      exact h.kept ⟨rfl, rfl, rfl⟩
  | handleRenewReq body => exact hquiet (h.kept (handleRenewReq_booked k s body).challengesKept)

end Ledger

/-! ### Whole runs -/

/-- The challenges a run has issued, and those it has consumed. -/
def issuedIn (k : Crypto) (s : OgmAuth c) (ops : List StateOp) : List OutstandingChallenge :=
  Run.trace (after k) (issues k) s ops

def consumedIn (k : Crypto) (s : OgmAuth c) (ops : List StateOp) : List OutstandingChallenge :=
  Run.trace (after k) (consumes k) s ops

theorem run_ledger (k : Crypto) (keypair : Keypair) (cert : MembershipCert)
    (anchor : TrustAnchor) (ops : List StateOp) :
    Ledger k keypair ((withCapacities c keypair cert anchor).play k ops)
      (issuedIn k (withCapacities c keypair cert anchor) ops)
      (consumedIn k (withCapacities c keypair cert anchor) ops) := by
  induction ops using List.reverseRecOn with
  | nil =>
    refine ⟨rfl, ?_, ?_, List.nodup_nil, ?_, ?_, List.nodup_nil⟩
    all_goals
      intro ch hch
      cases hch
  | append_singleton ops op ih =>
    rw [issuedIn, consumedIn, Run.trace_append_singleton, Run.trace_append_singleton, play,
      Run.run_append_singleton]
    exact ih.after op

/-- The inputs of the tags a run has to do with: the nonces it issues, and the answers to
them under the keys it holds. -/
inductive MacInput (k : Crypto) (s : OgmAuth c) (ops : List StateOp) : TagInput → Prop
  | nonce {ch : OutstandingChallenge} (hissued : ch ∈ issuedIn k s ops) :
      MacInput k s ops (nonceInput k s.keypair ch.issuedSeq ch.neighbor)
  | response {ch : OutstandingChallenge} {pre : List StateOp} {n : NeighborKeys}
      (hissued : ch ∈ issuedIn k s ops) (hpre : pre <+: ops)
      (hkey : n ∈ (s.play k pre).neighbors.toList) :
      MacInput k s ops (responseInput n.pairwiseKey ch.neighbor ch.nonce.toList)

theorem issuedIn_of_prefix {pre ops : List StateOp} (hpre : pre <+: ops)
    {ch : OutstandingChallenge} (hch : ch ∈ issuedIn k s pre) : ch ∈ issuedIn k s ops := by
  obtain ⟨rest, rfl⟩ := hpre
  rw [issuedIn, Run.trace_append]
  exact List.mem_append_left _ hch

/-- The challenge a tag answers is outstanding, and the tag is that of its nonce under a
key in the cache. -/
theorem answeredChallenge_spec {neighbor : Mac} {tag : Bytes} {challenge : OutstandingChallenge}
    (h : s.answeredChallenge k neighbor tag = some challenge) :
    challenge ∈ s.inProgress.toList ∧ challenge.neighbor = neighbor ∧
      ∃ n ∈ s.neighbors.toList,
        tag = (k.frameTag (responseInput n.pairwiseKey neighbor challenge.nonce.toList)).toList := by
  obtain ⟨hmem, hneighbor⟩ := KeyedVec.find?_eq_some_iff.mp (answeredChallenge_caches h).2
  refine ⟨hmem, hneighbor, ?_⟩
  unfold answeredChallenge at h
  split at h
  · rename_i octets _ n htag _ hlive
    split at h
    · rename_i hverify
      obtain rfl := Option.some.inj h
      refine ⟨n, (liveNeighbor_eq_some_iff.mp hlive).1, ?_⟩
      rw [Crypto.verifyFrameTag, decide_eq_true_eq] at hverify
      rw [hverify]
      exact (Octets.toList_of_tryFrom htag).symm
    · cases h
  · cases h

/-- While tags do not collide, an answer to one challenge of a run answers no other. -/
theorem answers_one (k : Crypto) (keypair : Keypair) (cert : MembershipCert)
    (anchor : TrustAnchor) {ops pre pre' : List StateOp} {neighbor : Mac} {tag : Bytes}
    {challenge past : OutstandingChallenge} {n : NeighborKeys}
    (hfree : Set.InjOn k.frameTag
      { i | MacInput k (withCapacities c keypair cert anchor) ops i })
    (hpre : pre <+: ops)
    (hanswered : ((withCapacities c keypair cert anchor).play k pre).answeredChallenge k neighbor
      tag = some challenge)
    (hpast : past ∈ issuedIn k (withCapacities c keypair cert anchor) ops) (hpre' : pre' <+: ops)
    (hn : n ∈ ((withCapacities c keypair cert anchor).play k pre').neighbors.toList)
    (htag : tag = (k.frameTag (responseInput n.pairwiseKey past.neighbor
      past.nonce.toList)).toList) : past = challenge := by
  have hledger := run_ledger (c := c) k keypair cert anchor ops
  obtain ⟨hopen, rfl, m, hm, htag'⟩ := answeredChallenge_spec hanswered
  have hissued := issuedIn_of_prefix hpre
    ((run_ledger k keypair cert anchor pre).outstanding challenge hopen).1
  have hresponse := hfree (.response hpast hpre' hn) (.response hissued hpre hm)
    (Octets.eq_of_toList (htag.symm.trans htag'))
  have hnonce : past.nonce = challenge.nonce := Octets.eq_of_toList (congrArg TagInput.frame hresponse)
  rw [hledger.nonces past hpast, hledger.nonces challenge hissued] at hnonce
  have hinput := hfree (.nonce hpast) (.nonce hissued) hnonce
  exact hledger.eq_of_seq hpast hissued (congrArg TagInput.counter hinput)

/-- In every run a mark falls only on an answer to the challenge outstanding for its
sender, or with the keys of a sender newly revoked; each challenge is consumed once at
most; no answer to another challenge is accepted for it; and of each neighbor one
challenge is outstanding, of all of them no more than the table holds. -/
theorem marks_fall_on_proof (k : Crypto) (keypair : Keypair) (cert : MembershipCert)
    (anchor : TrustAnchor) (ops : List StateOp) :
    let s := withCapacities c keypair cert anchor
    (∀ pre op mac, pre ++ [op] <+: ops →
      Falls (s.play k pre) (s.play k (pre ++ [op])) mac →
        ProvesRestart k (s.play k pre) op mac ∨
          mac ∈ newlyRevoked k (s.play k pre) (recordsOf k (s.play k pre) op) ∧
            ¬ (s.play k (pre ++ [op])).Caches mac) ∧
    (∀ ch ∈ consumedIn k s ops, ch ∈ issuedIn k s ops) ∧
    ((consumedIn k s ops).map OutstandingChallenge.issuedSeq).Nodup ∧
    (Set.InjOn k.frameTag { i | MacInput k s ops i } →
      ∀ pre, pre <+: ops → ∀ neighbor tag challenge,
        (s.play k pre).answeredChallenge k neighbor tag = some challenge →
        ∀ past ∈ issuedIn k s ops, ∀ pre', pre' <+: ops →
          ∀ n ∈ (s.play k pre').neighbors.toList,
          tag = (k.frameTag (responseInput n.pairwiseKey past.neighbor past.nonce.toList)).toList →
            past = challenge) ∧
    Run.AllGood (after k) (fun s =>
      (s.inProgress.toList.map OutstandingChallenge.neighbor).Nodup ∧
        s.inProgress.toList.length ≤ maxInProgressProof) s ops := by
  intro s
  have hledger := run_ledger (c := c) k keypair cert anchor ops
  refine ⟨?_, hledger.drawn, hledger.spent, ?_, ?_⟩
  · intro pre op mac _ hfalls
    have hstep : s.play k (pre ++ [op]) = (s.play k pre).after k op :=
      Run.run_append_singleton op
    rw [hstep] at hfalls ⊢
    exact falls_cases hfalls
  · intro hfree pre hpre neighbor tag challenge hanswered past hpast pre' hpre' n hn htag
    exact answers_one k keypair cert anchor hfree hpre hanswered hpast hpre' hn htag
  · intro pre _
    exact ⟨(Run.run (after k) s pre).inProgress.nodup, (Run.run (after k) s pre).inProgress.bounded⟩

end OgmAuth

namespace SmallMesh

open OgmAuth

/-! ### Two challenges to node 2 -/

def fresh3 : OgmAuth capacities := OgmAuth.withCapacities capacities (keypair 3) cert3 anchor

/-- Node 3 challenges node 2 twice, and hears the first answer again after the second
challenge. -/
def challengeRun : List StateOp :=
  [.auth (.setTime (Duration.ofSecs 100) (.at 100)), .auth (.verifyOgm (ogm7 228)),
    .issueChallenge mac2, .verifyChallengeResponse mac2 response1, .issueChallenge mac2,
    .verifyChallengeResponse mac2 response1, .verifyChallengeResponse mac2 response2]

def challenge1 : OutstandingChallenge := ⟨mac2, nonce1, 1⟩
def challenge2 : OutstandingChallenge := ⟨mac2, nonce2, 2⟩

theorem challengeRun_issued :
    issuedIn pairwiseCrypto fresh3 challengeRun = [challenge1, challenge2] := by
  decide +kernel

theorem challengeRun_keys : ∀ pre ∈ challengeRun.inits,
    ∀ n ∈ (fresh3.play pairwiseCrypto pre).neighbors.toList, n.pairwiseKey = pairwiseKey23 := by
  decide +kernel

def challengeInputs : List TagInput :=
  [nonceOf2 1, nonceOf2 2, responseInput pairwiseKey23 mac2 nonce1.toList,
    responseInput pairwiseKey23 mac2 nonce2.toList]

theorem challengeRun_inputs {i : TagInput} (h : MacInput pairwiseCrypto fresh3 challengeRun i) :
    i ∈ challengeInputs := by
  cases h with
  | nonce hissued =>
    rw [challengeRun_issued] at hissued
    have hinputs : ∀ ch ∈ [challenge1, challenge2],
        nonceInput pairwiseCrypto fresh3.keypair ch.issuedSeq ch.neighbor ∈ challengeInputs := by
      decide +kernel
    exact hinputs _ hissued
  | response hissued hpre hkey =>
    rw [challengeRun_keys _ ((List.mem_inits _ _).mpr hpre) _ hkey]
    rw [challengeRun_issued] at hissued
    have hinputs : ∀ ch ∈ [challenge1, challenge2],
        responseInput pairwiseKey23 ch.neighbor ch.nonce.toList ∈ challengeInputs := by
      decide +kernel
    exact hinputs _ hissued

theorem challengeRun_collisionFree :
    Set.InjOn pairwiseCrypto.frameTag { i | MacInput pairwiseCrypto fresh3 challengeRun i } := by
  intro i hi j hj hsame
  have hfree : ∀ i ∈ challengeInputs, ∀ j ∈ challengeInputs,
      pairwiseCrypto.frameTag i = pairwiseCrypto.frameTag j → i = j := by
    decide +kernel
  exact hfree i (challengeRun_inputs hi) j (challengeRun_inputs hj) hsame

/-- The answer to the first challenge is none to the second. -/
theorem marks_fall_on_proof_challengeRun :
    (fresh3.play pairwiseCrypto (challengeRun.take 3)).answeredChallenge pairwiseCrypto mac2
        response1 = some challenge1 ∧
      (fresh3.play pairwiseCrypto (challengeRun.take 5)).answeredChallenge pairwiseCrypto mac2
        response1 ≠ some challenge2 := by
  refine ⟨by decide +kernel, ?_⟩
  intro hanswered
  obtain ⟨_, _, _, hanswers, _⟩ :=
    marks_fall_on_proof (c := capacities) pairwiseCrypto (keypair 3) cert3 anchor challengeRun
  have hfirst : challenge1 ∈ issuedIn pairwiseCrypto fresh3 challengeRun := by
    rw [challengeRun_issued]
    exact List.mem_cons_self
  obtain ⟨n, hn, hmac⟩ := (answeredChallenge_caches hanswered).1
  have hpre := List.take_prefix 5 challengeRun
  have hkey := challengeRun_keys _ ((List.mem_inits _ _).mpr hpre) n hn
  have htag : ∀ key, key = pairwiseKey23 → response1 = (pairwiseCrypto.frameTag
      (responseInput key challenge1.neighbor challenge1.nonce.toList)).toList := by
    rintro key rfl
    decide +kernel
  unfold fresh3 at hn
  have hsame := hanswers challengeRun_collisionFree _ hpre mac2 response1 challenge2 hanswered
    challenge1 hfirst _ hpre n hn (htag _ hkey)
  exact absurd (congrArg OutstandingChallenge.issuedSeq hsame) (by decide)

end SmallMesh

end Wayfinder
