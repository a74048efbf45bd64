import EdgeLLM.Ports.CheckpointDigest

/-!
# Lookup and publication agree on checkpoint digests

Both sides compute `prefixDigest`: the value of the block chain after the full
blocks of the prefix, extended by its tail.  It depends on the tokens and media
digests of the prefix only, so every input that extends the prefix has it among
its candidates, and the hashes of its first blocks are those of the record.

An MTP boundary is hashed without the media pointer.  The lookup policy of an MTP
request with media is forced to bypass, and a sequence that bypasses the cache
publishes nothing (`Keyed.textOnly`).
-/

namespace EdgeLLM.Ports.CheckpointDigest

open Verified
open BlockKey
open ContextCache

theorem kTOKENS_PER_PAGE_pos : 0 < kTOKENS_PER_PAGE := by decide

/-! ## What a block hash depends on -/

section Congruence

variable {tokens tokens' : List (BitVec 32)} {extras : BlockKeyExtras}
  {media media' : Option (Nat → Hash128)} {length : Nat}

@[simp] theorem mediaDigest_advanceMedia (media : Option (Nat → Hash128)) (count index : Nat) :
    mediaDigest (advanceMedia media count) index = mediaDigest media (count + index) := by
  cases media <;> rfl

theorem entries_congr (h : ∀ index < tokens.length, mediaDigest media index = mediaDigest media' index) :
    entries tokens media = entries tokens media' := by
  apply List.ext_getElem
  · simp [entries]
  · intro index hindex hindex'
    have hlt : index < tokens.length := by simpa [entries] using hindex
    simp only [entries, List.getElem_mapIdx, entryAt, h index hlt]

theorem hashBlock_congr (parent : BlockHash) (extras : BlockKeyExtras)
    (h : ∀ index < tokens.length, mediaDigest media index = mediaDigest media' index) :
    hashBlock parent tokens extras media = hashBlock parent tokens extras media' := by
  rw [hashBlock, blockBytes, entries_congr h, hashBlock, blockBytes]

/-- Two inputs with the same tokens and media digests at the first `length` positions. -/
structure SamePrefix (tokens tokens' : List (BitVec 32)) (media media' : Option (Nat → Hash128))
    (length : Nat) : Prop where
  tokens : tokens.take length = tokens'.take length
  media : ∀ index < length, mediaDigest media index = mediaDigest media' index

theorem SamePrefix.slice (h : SamePrefix tokens tokens' media media' length) {start count : Nat}
    (hend : start + count ≤ length) :
    (tokens.drop start).take count = (tokens'.drop start).take count := by
  have hslice (l : List (BitVec 32)) :
      (l.drop start).take count = ((l.take length).drop start).take count := by
    rw [List.drop_take, List.take_take, Nat.min_eq_left (by omega)]
  rw [hslice tokens, hslice tokens', h.tokens]

theorem SamePrefix.hashBlock (h : SamePrefix tokens tokens' media media' length) {start count : Nat}
    (hend : start + count ≤ length) (parent : BlockHash) (extras : BlockKeyExtras) :
    hashBlock parent ((tokens.drop start).take count) extras (advanceMedia media start) =
      hashBlock parent ((tokens'.drop start).take count) extras (advanceMedia media' start) := by
  rw [h.slice hend]
  apply hashBlock_congr
  intro index hindex
  rw [mediaDigest_advanceMedia, mediaDigest_advanceMedia]
  apply h.media
  have hcount := List.length_take_le count (tokens'.drop start)
  omega

end Congruence

/-! ## The block chain -/

section Chain

variable {tokens tokens' : List (BitVec 32)} {extras : BlockKeyExtras}
  {media media' : Option (Nat → Hash128)} {length : Nat}

/-- The hashes of the first `count` blocks. -/
def blockChain (tokens : List (BitVec 32)) (extras : BlockKeyExtras)
    (media : Option (Nat → Hash128)) (count : Nat) : List BlockHash :=
  Chain.links (blockLink tokens kTOKENS_PER_PAGE (fun _ => extras) media) kCHAIN_ROOT count

/-- The hash after the full blocks of a prefix, extended by its tail if it has one. -/
def prefixDigest (tokens : List (BitVec 32)) (extras : BlockKeyExtras)
    (media : Option (Nat → Hash128)) (length : Nat) : BlockHash :=
  let blocks := length / kTOKENS_PER_PAGE
  let parent := Chain.value (blockLink tokens kTOKENS_PER_PAGE (fun _ => extras) media) kCHAIN_ROOT blocks
  if length % kTOKENS_PER_PAGE = 0 then parent
  else hashBlock parent ((tokens.drop (blocks * kTOKENS_PER_PAGE)).take (length % kTOKENS_PER_PAGE))
    extras (advanceMedia media (blocks * kTOKENS_PER_PAGE))

theorem eq_empty_of_hasBlockIdentity (h : hasBlockIdentity extras = false) : extras = {} := by
  obtain ⟨media, adapter, position, embedding, isolation⟩ := extras
  simp only [hasBlockIdentity, Bool.or_eq_false_iff, Bool.not_eq_false', List.isEmpty_iff,
    Option.isSome_eq_false_iff, Option.isNone_iff_eq_none] at h
  obtain ⟨⟨⟨⟨rfl, rfl⟩, rfl⟩, rfl⟩, rfl⟩ := h
  rfl

/-- Both branches hash the same chain: extras without an identity are the empty ones. -/
theorem hashRequestFullBlocks_eq (tokens : List (BitVec 32)) (tokenCount : Nat)
    (extras : BlockKeyExtras) (media : Option (Nat → Hash128)) :
    hashRequestFullBlocks tokens tokenCount extras media =
      .ok (blockChain tokens extras media (tokenCount / kTOKENS_PER_PAGE)) := by
  unfold hashRequestFullBlocks
  split
  · next h =>
      cases eq_empty_of_hasBlockIdentity h
      rw [hashFullBlocks, requireThat_of kTOKENS_PER_PAGE_pos, requireThat_of (Or.inl rfl)]
      show Except.ok (Chain.collect _ _ _) = _
      rw [Chain.collect_eq]
      rfl
  · rw [Chain.collect_eq]
    rfl

theorem blockChain_take (tokens : List (BitVec 32)) (extras : BlockKeyExtras)
    (media : Option (Nat → Hash128)) {count n : Nat} (h : n ≤ count) :
    (blockChain tokens extras media count).take n = blockChain tokens extras media n :=
  Chain.links_take h

theorem blockChain_getD (tokens : List (BitVec 32)) (extras : BlockKeyExtras)
    (media : Option (Nat → Hash128)) {count n : Nat} (hn : 0 < n) (h : n ≤ count) :
    (blockChain tokens extras media count).getD (n - 1) kCHAIN_ROOT =
      Chain.value (blockLink tokens kTOKENS_PER_PAGE (fun _ => extras) media) kCHAIN_ROOT n := by
  rw [List.getD_eq_getElem?_getD, blockChain, Chain.getElem?_links (by omega), Nat.sub_add_cancel hn]
  rfl

/-- The digest of a candidate length over a chain that is long enough. -/
theorem hashHybridCandidatePrefix_eq (tokens : List (BitVec 32)) (extras : BlockKeyExtras)
    (media : Option (Nat → Hash128)) {count : Nat} (hlength : 0 < length)
    (hcount : length / kTOKENS_PER_PAGE ≤ count) :
    hashHybridCandidatePrefix tokens length (blockChain tokens extras media count) extras media =
      .ok (prefixDigest tokens extras media length) := by
  have hchain : length / kTOKENS_PER_PAGE ≤ (blockChain tokens extras media count).length := by
    simpa [blockChain] using hcount
  rw [hashHybridCandidatePrefix, requireThat_of (by omega), Int.toNat_natCast]
  simp only [bind, Except.bind]
  rw [requireThat_of hchain, prefixDigest]
  by_cases haligned : length % kTOKENS_PER_PAGE = 0
  · have hblocks : 0 < length / kTOKENS_PER_PAGE :=
      Nat.div_pos (Nat.le_of_dvd hlength (Nat.dvd_of_mod_eq_zero haligned)) kTOKENS_PER_PAGE_pos
    simp only [haligned, if_true]
    rw [requireThat_of hblocks, blockChain_getD tokens extras media hblocks hcount]
  · simp only [haligned, if_false]
    by_cases hblocks : length / kTOKENS_PER_PAGE = 0
    · rw [if_pos hblocks, hblocks]
      rfl
    · rw [if_neg hblocks, blockChain_getD tokens extras media (Nat.pos_of_ne_zero hblocks) hcount]

/-- The publisher's digest is the same function of the prefix. -/
theorem hashRequestExactPrefix_eq (tokens : List (BitVec 32)) (length : Nat) (extras : BlockKeyExtras)
    (media : Option (Nat → Hash128)) : hashRequestExactPrefix tokens length extras media =
      .ok (prefixDigest tokens extras media length) := by
  rw [hashRequestExactPrefix, hashRequestFullBlocks_eq]
  simp only [bind, Except.bind]
  by_cases haligned : length % kTOKENS_PER_PAGE = 0
  · rw [if_pos haligned, blockChain, Chain.getLastD_links, prefixDigest]
    simp only [haligned, if_true]
  · rw [if_neg haligned]
    apply hashHybridCandidatePrefix_eq tokens extras media ?_ (Nat.le_refl _)
    apply Nat.pos_of_ne_zero
    rintro rfl
    exact haligned (Nat.zero_mod _)

section SamePrefix

variable (h : SamePrefix tokens tokens' media media' length)
include h

theorem SamePrefix.blockLink {block : Nat} (hblock : block < length / kTOKENS_PER_PAGE)
    (parent : BlockHash) : blockLink tokens kTOKENS_PER_PAGE (fun _ => extras) media block parent =
      blockLink tokens' kTOKENS_PER_PAGE (fun _ => extras) media' block parent := by
  apply h.hashBlock
  have hend : (block + 1) * kTOKENS_PER_PAGE ≤ length :=
    Nat.le_trans (Nat.mul_le_mul_right _ hblock) (Nat.div_mul_le_self _ _)
  rwa [Nat.succ_mul] at hend

theorem SamePrefix.blockChain {count : Nat} (hcount : count ≤ length / kTOKENS_PER_PAGE) :
    blockChain tokens extras media count = blockChain tokens' extras media' count :=
  Chain.links_congr fun _ hblock parent => h.blockLink (Nat.lt_of_lt_of_le hblock hcount) parent

theorem SamePrefix.prefixDigest :
    prefixDigest tokens extras media length = prefixDigest tokens' extras media' length := by
  have hvalue : Chain.value (CheckpointDigest.blockLink tokens kTOKENS_PER_PAGE (fun _ => extras) media)
      kCHAIN_ROOT (length / kTOKENS_PER_PAGE) =
      Chain.value (CheckpointDigest.blockLink tokens' kTOKENS_PER_PAGE (fun _ => extras) media')
        kCHAIN_ROOT (length / kTOKENS_PER_PAGE) :=
    Chain.value_congr fun _ hblock parent => h.blockLink hblock parent
  have hend : length / kTOKENS_PER_PAGE * kTOKENS_PER_PAGE + length % kTOKENS_PER_PAGE ≤ length :=
    Nat.le_of_eq (Nat.div_add_mod' length kTOKENS_PER_PAGE)
  simp only [CheckpointDigest.prefixDigest, hvalue, h.hashBlock hend]

end SamePrefix

end Chain
/-! ## Sequences -/

namespace KeyedTokens

variable {source other : KeyedTokens} {length : Nat}

/-- The digest of the first `length` positions. -/
def digest (source : KeyedTokens) (length : Nat) : BlockHash :=
  prefixDigest source.tokenIds source.keyExtras source.mediaHashPtr length

/-- The hashes of the first `count` blocks. -/
def blockHashes (source : KeyedTokens) (count : Nat) : List BlockHash :=
  blockChain source.tokenIds source.keyExtras source.mediaHashPtr count

/-- Two sequences with the same extras, and the same tokens and media at the first `length`
positions. -/
structure Agrees (source other : KeyedTokens) (length : Nat) : Prop where
  extras : source.keyExtras = other.keyExtras
  samePrefix : SamePrefix source.tokenIds other.tokenIds source.mediaHashPtr other.mediaHashPtr length

theorem Agrees.digest (h : source.Agrees other length) : source.digest length = other.digest length := by
  rw [KeyedTokens.digest, KeyedTokens.digest, h.extras, h.samePrefix.prefixDigest]

theorem Agrees.blockHashes (h : source.Agrees other length) {count : Nat}
    (hcount : count ≤ length / kTOKENS_PER_PAGE) :
    source.blockHashes count = other.blockHashes count := by
  rw [KeyedTokens.blockHashes, KeyedTokens.blockHashes, h.extras, h.samePrefix.blockChain hcount]

theorem mediaHashPtr_append (source : KeyedTokens) (accepted : List (BitVec 32)) {index : Nat}
    (hindex : index < source.tokenIds.length) :
    mediaDigest source.mediaHashPtr index = mediaDigest (source.append accepted).mediaHashPtr index := by
  by_cases hmedia : source.perPositionMediaHash = []
  · simp [mediaHashPtr, append, hmedia]
  · have hlength : index < source.perPositionMediaHash.length := by
      rw [source.perPosition.resolve_left hmedia]
      exact hindex
    simp [mediaHashPtr, append, hmedia, mediaDigest, List.getElem?_append_left hlength]

/-- What is appended later leaves the prefix as it was. -/
theorem agrees_append (source : KeyedTokens) (accepted : List (BitVec 32))
    (hlength : length ≤ source.tokenIds.length) : source.Agrees (source.append accepted) length where
  extras := rfl
  samePrefix :=
    { tokens := (List.take_append_of_le_length hlength).symm
      media := fun _ hindex => source.mediaHashPtr_append accepted (Nat.lt_of_lt_of_le hindex hlength) }

end KeyedTokens

/-! ## What a request publishes -/

section Runs

variable {profile : ContextCacheDeploymentProfile} {r r' : Request} {log : List Publication}
  {published : Option Publication}

/-- An MTP request that uses the cache is text only, and a staged digest is that of its prefix. -/
structure Keyed (profile : ContextCacheDeploymentProfile) (speculativeRequest : Bool)
    (sequence : SequenceState) : Prop where
  textOnly : speculativeRequest = true → profile.isHybrid = true →
    sequence.lookupPolicy = .useCache → sequence.source.perPositionMediaHash = []
  staged : ∀ staged ∈ sequence.stagedHybridPublication, profile.usesCheckpointReuse = true ∧
    ∃ length : Nat, staged.checkpoint = ⟨sequence.source.digest length, length⟩ ∧ 0 < length ∧
      length ≤ sequence.source.tokenIds.length

/-- The full blocks a record of this length keeps: the boundary token of an MTP record stays
private. -/
def Publication.blockCount (p : Publication) (length : Nat) : Nat :=
  if p.mtp then (length - 1) / kTOKENS_PER_PAGE else length / kTOKENS_PER_PAGE

theorem Publication.blockCount_le (p : Publication) (length : Nat) :
    p.blockCount length ≤ length / kTOKENS_PER_PAGE := by
  unfold blockCount
  split
  · exact Nat.div_le_div_right (Nat.sub_le length 1)
  · exact Nat.le_refl _

/-- A published record carries the digest of its length and the hashes of its blocks. -/
structure Publication.Exact (profile : ContextCacheDeploymentProfile) (p : Publication)
    (length : Nat) : Prop where
  reuse : profile.usesCheckpointReuse = true
  pos : 0 < length
  within : length ≤ p.source.tokenIds.length
  checkpoint : p.request.checkpoint = ⟨p.source.digest length, length⟩
  hashes : p.request.fullBlockHashes = p.source.blockHashes (p.blockCount length)

theorem useCache_of_ne_bypass {policy : ContextCacheLookupPolicy} (h : policy ≠ .bypass) :
    policy = .useCache := by
  cases policy with
  | useCache => rfl
  | bypass => exact absurd rfl h

/-- Media in one sequence of a speculative batch forces all of it to bypass the cache, where the
media prefix cannot be reused. -/
theorem perPositionMediaHash_eq_nil {admission : ContextCacheBatchAdmission}
    {sequence : ContextCacheSequenceAdmission} (hmem : sequence ∈ admission.sequences)
    (hspec : admission.speculativeRequest = true)
    (hsupports : profile.supportsSpecMediaPrefixReuse = false)
    (hpolicy : admission.sequenceLookupPolicy profile sequence = .useCache) :
    sequence.source.perPositionMediaHash = [] := by
  by_contra hmedia
  have hcontains : admission.containsMedia = true := by
    apply List.any_eq_true.2
    exact ⟨sequence, hmem, by simpa using hmedia⟩
  have hforce : admission.forceBatchBypass profile = true := by
    simp [ContextCacheBatchAdmission.forceBatchBypass, hspec, hcontains, hsupports]
  rw [ContextCacheBatchAdmission.sequenceLookupPolicy, if_pos hforce] at hpolicy
  contradiction

theorem supportsSpecMediaPrefixReuse_of_isHybrid (h : profile.isHybrid = true) :
    profile.supportsSpecMediaPrefixReuse = false := by
  simp [ContextCacheDeploymentProfile.supportsSpecMediaPrefixReuse, h]

theorem beginRequest_keyed {admission : ContextCacheBatchAdmission}
    {reuse : ContextCacheSequenceAdmission → Int} (h : beginRequest profile admission reuse = .ok r) :
    ∀ sequence ∈ r.sequences, Keyed profile r.speculativeRequest sequence := by
  rw [beginRequest, check_bind_eq_ok] at h
  cases h.2
  intro sequence hsequence
  obtain ⟨admitted, hadmitted, rfl⟩ := List.mem_map.1 hsequence
  constructor
  · intro hspec hhybrid hpolicy
    exact perPositionMediaHash_eq_nil hadmitted hspec
      (supportsSpecMediaPrefixReuse_of_isHybrid hhybrid) hpolicy
  · intro staged hstaged
    cases hstaged

section Sequence

variable {spec : Bool} {sequence sequence' : SequenceState}

theorem applyAdvance_keyed (hk : Keyed profile spec sequence) {delta : ContextCacheSequenceAdvance}
    (h : applyAdvance sequence delta = .ok sequence') : Keyed profile spec sequence' := by
  unfold applyAdvance at h
  split at h
  · cases h
    exact hk
  · rw [check_bind_eq_ok, check_bind_eq_ok] at h
    cases h.2.2
    constructor
    · intro hspec hhybrid hpolicy
      have hempty := hk.textOnly hspec hhybrid hpolicy
      simp [KeyedTokens.append, hempty]
    · intro staged hstaged
      obtain ⟨hreuse, length, hcheckpoint, hpos, hlength⟩ := hk.staged staged hstaged
      refine ⟨hreuse, length, ?_, hpos, ?_⟩
      · rw [hcheckpoint, (sequence.source.agrees_append delta.acceptedTokenIds hlength).digest]
      · simp only [KeyedTokens.append, List.length_append]
        omega

theorem reserveHybridCapture_keyed (hk : Keyed profile spec sequence) {exactLength : Int}
    {point : PublicationPoint} {reservation : Option HybridSnapshotReservation}
    (h : reserveHybridCapture profile sequence exactLength point reservation = .ok sequence') :
    Keyed profile spec sequence' := by
  unfold reserveHybridCapture at h
  rw [check_bind_eq_ok, check_bind_eq_ok, check_bind_eq_ok] at h
  obtain ⟨hreuse, -, hlength, h⟩ := h
  rw [requireThat_eq_ok] at hreuse hlength
  split at h
  · cases h
    exact hk
  · cases reservation with
    | none =>
      cases h
      exact hk
    | some snapshots =>
      simp only [hashRequestExactPrefix_eq, bind, Except.bind] at h
      cases h
      refine ⟨hk.textOnly, ?_⟩
      rintro staged ⟨⟩
      have hdigest : (⟨sequence.source.digest exactLength.toNat, exactLength⟩ :
          HybridCheckpointKey Hash128) =
          ⟨sequence.source.digest exactLength.toNat, exactLength.toNat⟩ := by
        rw [Int.toNat_of_nonneg (Int.le_of_lt hlength.1)]
      refine ⟨hreuse, exactLength.toNat, hdigest, by omega, ?_⟩
      exact Int.toNat_le.2 hlength.2

theorem publishReadyHybridEndpoint_exact (hk : Keyed profile spec sequence)
    (h : publishReadyHybridEndpoint sequence = .ok (sequence', published)) :
    Keyed profile spec sequence' ∧ ∀ p ∈ published, ∃ length, p.Exact profile length := by
  unfold publishReadyHybridEndpoint at h
  split at h
  · cases h
    exact ⟨hk, by simp⟩
  · next staged hstaged =>
      rw [check_bind_eq_ok, hashRequestFullBlocks_eq] at h
      obtain ⟨-, h⟩ := h
      simp only [bind, Except.bind] at h
      cases h
      obtain ⟨hreuse, length, hcheckpoint, hpos, hlength⟩ := hk.staged staged hstaged
      refine ⟨⟨hk.textOnly, by simp⟩, ?_⟩
      rintro p ⟨⟩
      refine ⟨length, hreuse, hpos, hlength, hcheckpoint, ?_⟩
      simp [hcheckpoint, KeyedTokens.blockHashes, Publication.blockCount,
        Nat.mul_div_cancel _ kTOKENS_PER_PAGE_pos]

theorem publishMtpBoundary_exact (hk : Keyed profile spec sequence) {residentStateLength : Int}
    {reservation : Option HybridSnapshotReservation}
    (h : publishMtpBoundary profile spec sequence residentStateLength reservation =
      .ok (sequence', published)) :
    Keyed profile spec sequence' ∧ ∀ p ∈ published, ∃ length, p.Exact profile length := by
  unfold publishMtpBoundary at h
  rw [check_bind_eq_ok, requireThat_eq_ok] at h
  obtain ⟨hmtp, h⟩ := h
  split at h
  · cases h
    exact ⟨hk, by simp⟩
  · next hpublishes =>
      simp only [not_or, Int.not_le] at hpublishes
      obtain ⟨hpolicy, hpos, -⟩ := hpublishes
      rw [check_bind_eq_ok, requireThat_eq_ok] at h
      obtain ⟨hlength, h⟩ := h
      cases reservation with
      | none =>
        cases h
        exact ⟨hk, by simp⟩
      | some snapshots =>
        simp only [hashRequestFullBlocks_eq, hashRequestExactPrefix_eq, bind, Except.bind] at h
        cases h
        refine ⟨⟨hk.textOnly, hk.staged⟩, ?_⟩
        rintro p ⟨⟩
        obtain ⟨hspec, hhybrid⟩ : spec = true ∧ profile.isHybrid = true := by
          by_contra hnot
          rw [makePublicationPolicy, if_neg hnot] at hmtp
          split at hmtp
          · contradiction
          · split at hmtp
            · contradiction
            · split at hmtp <;> contradiction
        -- the pointer that was left out is null
        have hnull : sequence.source.mediaHashPtr = none := by
          rw [KeyedTokens.mediaHashPtr,
            if_pos (hk.textOnly hspec hhybrid (useCache_of_ne_bypass hpolicy))]
        refine ⟨residentStateLength.toNat, ?_, by omega, by simp only; omega, ?_, ?_⟩
        · simp [ContextCacheDeploymentProfile.usesCheckpointReuse, hhybrid]
        · simp [KeyedTokens.digest, hnull, Int.toNat_of_nonneg (Int.le_of_lt hpos)]
        · simp [KeyedTokens.blockHashes, Publication.blockCount,
            Nat.mul_div_cancel _ kTOKENS_PER_PAGE_pos]

end Sequence

/-- One slot of the batch is replaced by a sequence that is keyed as well. -/
theorem keyed_set (hr : ∀ sequence ∈ r.sequences, Keyed profile r.speculativeRequest sequence)
    {slot : Nat} {sequence' : SequenceState} (h : Keyed profile r.speculativeRequest sequence') :
    ∀ sequence ∈ r.sequences.set slot sequence', Keyed profile r.speculativeRequest sequence := by
  intro sequence hsequence
  rcases List.mem_or_eq_of_mem_set hsequence with hold | hnew
  · exact hr sequence hold
  · exact hnew ▸ h

theorem step_exact (hr : ∀ sequence ∈ r.sequences, Keyed profile r.speculativeRequest sequence)
    (h : Step profile r r' published) :
    (∀ sequence ∈ r'.sequences, Keyed profile r'.speculativeRequest sequence) ∧
      ∀ p ∈ published, ∃ length, p.Exact profile length := by
  cases h with
  | advance delta hslot h =>
    have hkeyed := applyAdvance_keyed (hr _ (List.mem_of_getElem? hslot)) h
    exact ⟨keyed_set hr hkeyed, by simp⟩
  | capture exactLength point reservation hslot h =>
    have hkeyed := reserveHybridCapture_keyed (hr _ (List.mem_of_getElem? hslot)) h
    exact ⟨keyed_set hr hkeyed, by simp⟩
  | publish hslot h =>
    have hspec := publishReadyHybridEndpoint_exact (hr _ (List.mem_of_getElem? hslot)) h
    exact ⟨keyed_set hr hspec.1, hspec.2⟩
  | publishMtp residentStateLength reservation hslot h =>
    have hspec := publishMtpBoundary_exact (hr _ (List.mem_of_getElem? hslot)) h
    exact ⟨keyed_set hr hspec.1, hspec.2⟩
  | compact h => exact ⟨fun sequence hsequence => hr sequence (h hsequence), by simp⟩

theorem reached_exact (h : Reached profile r log) :
    (∀ sequence ∈ r.sequences, Keyed profile r.speculativeRequest sequence) ∧
      ∀ p ∈ log, ∃ length, p.Exact profile length := by
  induction h with
  | begin admission reuse h => exact ⟨beginRequest_keyed h, by simp⟩
  | step _ hstep ih =>
    have hspec := step_exact ih.1 hstep
    refine ⟨hspec.1, ?_⟩
    intro p hp
    rcases List.mem_append.1 hp with hold | hnew
    · exact ih.2 p hold
    · exact hspec.2 p (Option.mem_toList.1 hnew)

end Runs

/-! ## What a later input finds -/

section Lookup

variable {profile : ContextCacheDeploymentProfile} {source : KeyedTokens} {length : Nat}

theorem hashRequestFullBlocks_source (source : KeyedTokens) (tokenCount : Nat) :
    hashRequestFullBlocks source.tokenIds tokenCount source.keyExtras source.mediaHashPtr =
      .ok (source.blockHashes (tokenCount / kTOKENS_PER_PAGE)) :=
  hashRequestFullBlocks_eq _ _ _ _

theorem mapM_hybridCandidate (source : KeyedTokens) (lengths : List Int)
    (hlengths : ∀ length ∈ lengths, 0 < length ∧ length < source.tokenIds.length) :
    lengths.mapM (hybridCandidate source
      (source.blockHashes (source.tokenIds.length / kTOKENS_PER_PAGE))) =
      .ok (lengths.map fun length => ⟨length, source.digest length.toNat⟩) := by
  induction lengths with
  | nil => rfl
  | cons first rest ih =>
    obtain ⟨hpos, hlt⟩ := hlengths first (by simp)
    have hfirst : hybridCandidate source
        (source.blockHashes (source.tokenIds.length / kTOKENS_PER_PAGE)) first =
        .ok ⟨first, source.digest first.toNat⟩ := by
      have hcast : (first.toNat : Int) = first := Int.toNat_of_nonneg (Int.le_of_lt hpos)
      rw [hybridCandidate, ← hcast, KeyedTokens.blockHashes,
        hashHybridCandidatePrefix_eq _ _ _ (by omega) (Nat.div_le_div_right (by omega))]
      rfl
    rw [List.mapM_cons, hfirst,
      ih fun length hlength => hlengths length (List.mem_cons_of_mem _ hlength)]
    rfl

variable {records : CacheRecordStore Hash128} {admission : ContextCacheBatchAdmission}
variable {sequence : ContextCacheSequenceAdmission}

/-- A coherent store holds checkpoints of positive length only. -/
theorem exactLength_pos (hrecords : records.Coherent) {key : HybridCheckpointKey Hash128}
    (hkey : key ∈ records.hybridIndex.keys) : 0 < key.exactLength := by
  obtain ⟨id, hid⟩ := Finmap.mem_iff.1 (Finmap.mem_keys.1 hkey)
  obtain ⟨record, hrecord, hhybrid⟩ := (hrecords.hybrid key id).1 hid
  obtain ⟨exactLength, hlength, rfl⟩ := Option.map_eq_some_iff.1 hhybrid
  exact ((validateRecord_ok (hrecords.valid id record hrecord)).hybrid exactLength hlength).1

/-- Every stored checkpoint shorter than the input gives a candidate. -/
theorem hybridCandidates_mem (hrecords : records.Coherent) {key : HybridCheckpointKey Hash128}
    (hkey : key ∈ records.hybridIndex.keys) (hlonger : key.exactLength < source.tokenIds.length) :
    ∃ candidates, hybridCandidates source records
        (source.blockHashes (source.tokenIds.length / kTOKENS_PER_PAGE)) = .ok candidates ∧
      ⟨key.exactLength, source.digest key.exactLength.toNat⟩ ∈ candidates := by
  set lengths := ((records.hybridIndex.keys.image HybridCheckpointKey.exactLength).filter
    (· < (source.tokenIds.length : Int))).sort (· ≥ ·) with hlengths
  have hmem (length : Int) : length ∈ lengths ↔
      (∃ other ∈ records.hybridIndex.keys, other.exactLength = length) ∧
        length < source.tokenIds.length := by
    rw [hlengths, Finset.mem_sort, Finset.mem_filter, Finset.mem_image]
  have hstored : records.hybridCandidateLengths source.tokenIds.length = .ok lengths := by
    rw [CacheRecordStore.hybridCandidateLengths, if_neg (by omega)]
  have hmap := mapM_hybridCandidate source lengths fun length hlength => by
    obtain ⟨⟨other, hother, rfl⟩, hlt⟩ := (hmem length).1 hlength
    exact ⟨exactLength_pos hrecords hother, hlt⟩
  refine ⟨lengths.map fun length => ⟨length, source.digest length.toNat⟩, ?_,
    List.mem_map.2 ⟨_, (hmem _).2 ⟨⟨key, hkey, rfl⟩, hlonger⟩, rfl⟩⟩
  rw [hybridCandidates, hstored]
  exact hmap

theorem lookupHashes_eq (hmem : sequence ∈ admission.sequences)
    (hpolicy : admission.sequenceLookupPolicy profile sequence = .useCache)
    (hreuse : profile.usesCheckpointReuse = true)
    (hdeployed : admission.speculativeRequest = true → profile.isSpeculative = true)
    (hashes : List BlockHash) :
    lookupHashes profile sequence.source admission.speculativeRequest .useCache hashes =
      .ok hashes := by
  apply if_neg
  rintro ⟨hspec, hmedia⟩
  -- a speculative deployment with checkpoints is hybrid
  have hhybrid : profile.isHybrid = true := by
    have hsupported := profile.supported (hdeployed hspec)
    simpa [ContextCacheDeploymentProfile.usesCheckpointReuse,
      ContextCacheDeploymentProfile.isPureRecurrent, hsupported] using hreuse
  have hempty := perPositionMediaHash_eq_nil hmem hspec
    (supportsSpecMediaPrefixReuse_of_isHybrid hhybrid) hpolicy
  simp [KeyedTokens.mediaHashPtr, hempty] at hmedia

/-- The lookup of an admitted sequence that uses the cache. -/
theorem acquireSequence_mem (hmem : sequence ∈ admission.sequences)
    (hpolicy : admission.sequenceLookupPolicy profile sequence = .useCache)
    (hreuse : profile.usesCheckpointReuse = true)
    (hdeployed : admission.speculativeRequest = true → profile.isSpeculative = true)
    (hrecords : records.Coherent) {key : HybridCheckpointKey Hash128}
    (hkey : key ∈ records.hybridIndex.keys)
    (hlonger : key.exactLength < sequence.source.tokenIds.length) :
    ∃ candidates, acquireSequence profile sequence.source admission.speculativeRequest .useCache
        records = .ok (sequence.source.blockHashes (sequence.source.tokenIds.length / kTOKENS_PER_PAGE),
          candidates) ∧
      ⟨key.exactLength, sequence.source.digest key.exactLength.toNat⟩ ∈ candidates := by
  have hpos := exactLength_pos hrecords hkey
  have htokens : sequence.source.tokenIds ≠ [] := List.ne_nil_of_length_pos (by omega)
  obtain ⟨candidates, hcandidates, hcandidate⟩ :=
    hybridCandidates_mem hrecords hkey hlonger
  refine ⟨candidates, ?_, hcandidate⟩
  rw [acquireSequence, requireThat_of htokens, hashRequestFullBlocks_source]
  simp only [bind, Except.bind]
  rw [lookupHashes_eq hmem hpolicy hreuse hdeployed]
  simp only [hreuse, and_self, if_true]
  rw [hcandidates]

theorem blockHashes_take (source : KeyedTokens) {count : Nat} (hlength : length ≤ source.tokenIds.length)
    (hcount : count ≤ length / kTOKENS_PER_PAGE) :
    (source.blockHashes (source.tokenIds.length / kTOKENS_PER_PAGE)).take count =
      source.blockHashes count := by
  apply blockChain_take
  exact Nat.le_trans hcount (Nat.div_le_div_right hlength)

/-- For every prefix the lookup of a longer input and the publisher compute one digest and one
list of block hashes; and whatever a request of the deployment has published and the store
holds is among the candidates of every later input that extends it and uses the cache. -/
theorem checkpoint_lookup_agrees (profile : ContextCacheDeploymentProfile) :
    (∀ (X Y : KeyedTokens) (L : Nat), 0 < L → L ≤ X.tokenIds.length → L < Y.tokenIds.length →
      X.Agrees Y L → ∃ chain digest,
        hashRequestFullBlocks Y.tokenIds Y.tokenIds.length Y.keyExtras Y.mediaHashPtr = .ok chain ∧
        hashHybridCandidatePrefix Y.tokenIds L chain Y.keyExtras Y.mediaHashPtr = .ok digest ∧
        hashRequestExactPrefix X.tokenIds L X.keyExtras X.mediaHashPtr = .ok digest ∧
        hashRequestFullBlocks X.tokenIds (L / kTOKENS_PER_PAGE * kTOKENS_PER_PAGE) X.keyExtras
          X.mediaHashPtr = .ok (chain.take (L / kTOKENS_PER_PAGE)) ∧
        hashRequestFullBlocks X.tokenIds ((L - 1) / kTOKENS_PER_PAGE * kTOKENS_PER_PAGE)
          X.keyExtras X.mediaHashPtr = .ok (chain.take ((L - 1) / kTOKENS_PER_PAGE))) ∧
    ∀ (r : Request) (log : List Publication), Reached profile r log → ∀ p ∈ log, ∃ L : Nat,
      0 < L ∧ L ≤ p.source.tokenIds.length ∧ p.request.checkpoint.exactLength = L ∧
      ∀ admission : ContextCacheBatchAdmission,
        (admission.speculativeRequest = true → profile.isSpeculative = true) →
        ∀ sequence ∈ admission.sequences,
        admission.sequenceLookupPolicy profile sequence = .useCache →
        p.source.Agrees sequence.source L → L < sequence.source.tokenIds.length →
        ∀ records : CacheRecordStore Hash128, records.Coherent →
          p.request.checkpoint ∈ records.hybridIndex.keys →
          ∃ chain candidates,
            acquireSequence profile sequence.source admission.speculativeRequest .useCache records =
              .ok (chain, candidates) ∧
            ⟨L, p.request.checkpoint.exactPrefixDigest⟩ ∈ candidates ∧
            p.request.fullBlockHashes = chain.take
              (if p.mtp then (L - 1) / kTOKENS_PER_PAGE else L / kTOKENS_PER_PAGE) := by
  constructor
  · intro X Y L hpos _ hlonger hagrees
    have hblocks {n : Nat} (hn : n ≤ L / kTOKENS_PER_PAGE) :
        hashRequestFullBlocks X.tokenIds (n * kTOKENS_PER_PAGE) X.keyExtras X.mediaHashPtr =
          .ok ((Y.blockHashes (Y.tokenIds.length / kTOKENS_PER_PAGE)).take n) := by
      rw [hashRequestFullBlocks_source, Nat.mul_div_cancel _ kTOKENS_PER_PAGE_pos,
        blockHashes_take Y (Nat.le_of_lt hlonger) hn, hagrees.blockHashes hn]
    refine ⟨_, Y.digest L, hashRequestFullBlocks_source _ _, ?_, ?_, ?_, ?_⟩
    · apply hashHybridCandidatePrefix_eq _ _ _ hpos
      exact Nat.div_le_div_right (Nat.le_of_lt hlonger)
    · rw [hashRequestExactPrefix_eq, ← hagrees.digest]
      rfl
    · exact hblocks (Nat.le_refl _)
    · exact hblocks (Nat.div_le_div_right (Nat.sub_le L 1))
  · intro r log hreached p hp
    obtain ⟨L, hexact⟩ := (reached_exact hreached).2 p hp
    refine ⟨L, hexact.pos, hexact.within, by rw [hexact.checkpoint], ?_⟩
    intro admission hdeployed sequence hmem hpolicy hagrees hlonger records hrecords hkey
    rw [hexact.checkpoint] at hkey
    obtain ⟨candidates, hacquire, hcandidate⟩ := acquireSequence_mem hmem hpolicy hexact.reuse
      hdeployed hrecords hkey (Int.ofNat_lt.2 hlonger)
    refine ⟨_, candidates, hacquire, ?_, ?_⟩
    · rw [hexact.checkpoint, hagrees.digest]
      exact hcandidate
    · rw [hexact.hashes, hagrees.blockHashes (p.blockCount_le L),
        ← blockHashes_take sequence.source (Nat.le_of_lt hlonger) (p.blockCount_le L)]
      rfl

def hybridDeployment : ContextCacheDeploymentProfile := ⟨.hybrid, none, by simp⟩

def threeTokens : KeyedTokens := { tokenIds := [11, 12, 13] }

def fourTokens : KeyedTokens := { tokenIds := [11, 12, 13, 14] }

def threeTokensCheckpoint : HybridCheckpointKey Hash128 := ⟨threeTokens.digest 3, 3⟩

def threeTokensPublished : Publication := ⟨threeTokens, ⟨[], threeTokensCheckpoint, {}⟩, false⟩

/-- Three tokens, captured at the end of the prefill and published as they are. -/
theorem reached_threeTokens : ∃ r : Request, Reached hybridDeployment r [threeTokensPublished] := by
  let sequence : SequenceState := ⟨threeTokens, .useCache, .includingGeneratedTokens, 3, 0, none⟩
  let staged : SequenceState :=
    { sequence with stagedHybridPublication := some ⟨threeTokensCheckpoint, {}, .prefillEnd⟩ }
  have hbegin : Reached hybridDeployment ⟨false, [sequence]⟩ [] :=
    .begin ⟨[⟨threeTokens, none⟩], false, .useCache, .includingGeneratedTokens⟩ (fun _ => 3) rfl
  have hcapture : reserveHybridCapture hybridDeployment sequence 3 .prefillEnd (some {}) =
      .ok staged := by
    simp [reserveHybridCapture, sequence, hashRequestExactPrefix_eq]
    rfl
  have hpublish : publishReadyHybridEndpoint staged =
      .ok ({ staged with stagedHybridPublication := none, publishedExactLength := 3 },
        some threeTokensPublished) := by
    simp [publishReadyHybridEndpoint, staged, hashRequestFullBlocks_eq]
    rfl
  have hfirst : [sequence][0]? = some sequence := rfl
  have hfirst' : [staged][0]? = some staged := rfl
  exact ⟨_, (hbegin.step (.capture 3 .prefillEnd (some {}) hfirst hcapture)).step
    (.publish hfirst' hpublish)⟩

def threeTokensRecord : CacheRecord Hash128 where
  key := ⟨threeTokensCheckpoint.exactPrefixDigest, 0⟩
  logicalBlockHashes := []
  basePagePath := []
  recurrentSnapshotSlot := some 0
  partialKvSnapshotSlot := some 0
  exactCheckpointLength := some 3

def threeTokensStore : CacheRecordStore Hash128 :=
  ({ maxRecords := 1 } : CacheRecordStore Hash128).insertFresh threeTokensRecord

theorem threeTokensStore_coherent : threeTokensStore.Coherent :=
  CacheRecordStore.Coherent.insertFresh (CacheRecordStore.coherent_empty 1)
    ⟨by rfl, by rfl, by rfl, by decide⟩ (by rfl)

/-- The digests agree, and the published checkpoint is a candidate of the fourth token's input. -/
theorem checkpoint_lookup_agrees_three :
    (∃ chain digest,
      hashRequestFullBlocks [11, 12, 13, 14] 4 {} none = .ok chain ∧
      hashHybridCandidatePrefix [11, 12, 13, 14] 3 chain {} none = .ok digest ∧
      hashRequestExactPrefix [11, 12, 13] 3 {} none = .ok digest) ∧
    ∃ chain candidates,
      acquireSequence hybridDeployment fourTokens false .useCache threeTokensStore =
        .ok (chain, candidates) ∧
      ⟨3, threeTokensCheckpoint.exactPrefixDigest⟩ ∈ candidates := by
  have hagrees : threeTokens.Agrees fourTokens 3 := ⟨rfl, rfl, fun _ _ => rfl⟩
  have h := checkpoint_lookup_agrees hybridDeployment
  constructor
  · obtain ⟨chain, digest, hchain, hlookup, hpublished, -⟩ :=
      h.1 threeTokens fourTokens 3 (by decide) (by decide) (by decide) hagrees
    exact ⟨chain, digest, hchain, hlookup, hpublished⟩
  · obtain ⟨r, hreached⟩ := reached_threeTokens
    obtain ⟨L, -, -, hL, hfound⟩ := h.2 r _ hreached _ (List.mem_singleton.2 rfl)
    obtain rfl : L = 3 := Int.ofNat_inj.1 hL.symm
    obtain ⟨chain, candidates, hacquire, hcandidate, -⟩ :=
      hfound ⟨[⟨fourTokens, none⟩], false, .useCache, .includingGeneratedTokens⟩ (by decide)
        ⟨fourTokens, none⟩ (List.mem_singleton.2 rfl) rfl hagrees (by decide) threeTokensStore
        threeTokensStore_coherent (Finmap.mem_keys.2 (Finmap.mem_iff.2 ⟨1, Finmap.lookup_insert _⟩))
    exact ⟨chain, candidates, hacquire, hcandidate⟩

end Lookup

end EdgeLLM.Ports.CheckpointDigest
