import EdgeLLM.Ports.BlockHash
import EdgeLLM.Ports.ContextCacheManager
import EdgeLLM.Verified.Chain

/-!
# Checkpoint digests

A recurrent checkpoint is stored under the digest of the exact prefix that it
covers.  The publisher hashes the prefix as a whole; a lookup extends the chain
of its own full blocks by the tail of each candidate length.  The two sides are
kept here as the coordinator has them, with the part of a request's life that
decides what is hashed: admission, advances, capture and publication.

Whether a snapshot slot could be reserved is an argument; leases, pages and device
copies are left out.
-/

namespace EdgeLLM.Ports.CheckpointDigest

open Verified
open BlockKey
open ContextCache

def kTOKENS_PER_PAGE : Nat := 128

def kCHAIN_ROOT : BlockHash := ⟨0x9E3779B97F4A7C15, 0xC2B2AE3D27D4EB4F⟩

/-- The assertions of the hashing and publication paths. -/
inductive DigestCheck where
  | pageSizeNotPositive
  | blockExtrasCount
  | candidateLengthNotPositive
  | candidateExceedsChain
  | candidateWithoutFullBlock
  | emptySequence
  | specMediaReuse
  | hybridInputNegative
  | specDeploymentMismatch
  | tokenHistoryOverflow
  | committedLengthNotMonotonic
  | captureWithoutCheckpointReuse
  | capturePending
  | captureLength
  | snapshotBeyondCommitted
  | mtpRequestRequired
  | mtpLengthBeyondHistory

/-! ## Hash entry points -/

/-- `pointer + count`; a null pointer stays null. -/
def advanceMedia (perPositionMediaHash : Option (Nat → Hash128)) (count : Nat) :
    Option (Nat → Hash128) :=
  perPositionMediaHash.map fun hashes index => hashes (count + index)

/-- One block: `pageSize` tokens from the block's first, under the hash of the block before. -/
def blockLink (tokens : List (BitVec 32)) (pageSize : Nat) (extras : Nat → BlockKeyExtras)
    (perPositionMediaHash : Option (Nat → Hash128)) (block : Nat) (parent : BlockHash) : BlockHash :=
  hashBlock parent ((tokens.drop (block * pageSize)).take pageSize) (extras block)
    (advanceMedia perPositionMediaHash (block * pageSize))

def hashFullBlocks (tokens : List (BitVec 32)) (tokenCount pageSize : Nat)
    (extrasPerBlock : List BlockKeyExtras) (perPositionMediaHash : Option (Nat → Hash128)) :
    Except DigestCheck (List BlockHash) := do
  requireThat (0 < pageSize) .pageSizeNotPositive
  requireThat (extrasPerBlock = [] ∨ extrasPerBlock.length = tokenCount / pageSize) .blockExtrasCount
  .ok (Chain.collect
    (blockLink tokens pageSize (fun block => extrasPerBlock.getD block {}) perPositionMediaHash)
    kCHAIN_ROOT (tokenCount / pageSize))

def hasBlockIdentity (extras : BlockKeyExtras) : Bool :=
  !extras.media.isEmpty || extras.adapter.isSome || extras.positionDigest.isSome ||
    extras.customEmbeddingDigest.isSome || extras.isolationDigest.isSome

def hashRequestFullBlocks (tokens : List (BitVec 32)) (tokenCount : Nat) (extras : BlockKeyExtras)
    (perPositionMediaHash : Option (Nat → Hash128)) : Except DigestCheck (List BlockHash) :=
  if hasBlockIdentity extras = false then
    hashFullBlocks tokens tokenCount kTOKENS_PER_PAGE [] perPositionMediaHash
  else
    .ok (Chain.collect
      (blockLink tokens kTOKENS_PER_PAGE (fun _ => extras) perPositionMediaHash)
      kCHAIN_ROOT (tokenCount / kTOKENS_PER_PAGE))

def hashHybridCandidatePrefix (tokens : List (BitVec 32)) (exactLength : Int)
    (fullBlockHashes : List BlockHash) (extras : BlockKeyExtras)
    (perPositionMediaHash : Option (Nat → Hash128)) : Except DigestCheck BlockHash := do
  requireThat (0 < exactLength) .candidateLengthNotPositive
  let precedingFullBlocks := exactLength.toNat / kTOKENS_PER_PAGE
  let partialTokenCount := exactLength.toNat % kTOKENS_PER_PAGE
  requireThat (precedingFullBlocks ≤ fullBlockHashes.length) .candidateExceedsChain
  if partialTokenCount = 0 then do
    requireThat (0 < precedingFullBlocks) .candidateWithoutFullBlock
    .ok (fullBlockHashes.getD (precedingFullBlocks - 1) kCHAIN_ROOT)
  else
    -- the chained hash already represents the complete blocks; only the tail is added
    let parent := if precedingFullBlocks = 0 then kCHAIN_ROOT
      else fullBlockHashes.getD (precedingFullBlocks - 1) kCHAIN_ROOT
    .ok (hashBlock parent
      ((tokens.drop (precedingFullBlocks * kTOKENS_PER_PAGE)).take partialTokenCount) extras
      (advanceMedia perPositionMediaHash (precedingFullBlocks * kTOKENS_PER_PAGE)))

def hashRequestExactPrefix (tokens : List (BitVec 32)) (tokenCount : Nat) (extras : BlockKeyExtras)
    (perPositionMediaHash : Option (Nat → Hash128)) : Except DigestCheck BlockHash := do
  let fullBlockHashes ← hashRequestFullBlocks tokens tokenCount extras perPositionMediaHash
  if tokenCount % kTOKENS_PER_PAGE = 0 then .ok (fullBlockHashes.getLast?.getD kCHAIN_ROOT)
  else hashHybridCandidatePrefix tokens tokenCount fullBlockHashes extras perPositionMediaHash

/-! ## Deployments and sequences -/

inductive ContextCacheModelStateKind where
  | attentionOnly
  | pureRecurrent
  | hybrid
deriving DecidableEq

/-- A profile of the supported matrix: `validateContextCacheDeployment` returns no
speculative deployment over a pure-recurrent base. -/
structure ContextCacheDeploymentProfile where
  baseStateKind : ContextCacheModelStateKind
  specReuseContract : Option SpecReuseContract
  supported : specReuseContract.isSome = true → baseStateKind ≠ .pureRecurrent

namespace ContextCacheDeploymentProfile

def hasAttention (profile : ContextCacheDeploymentProfile) : Bool :=
  profile.baseStateKind != .pureRecurrent

def isHybrid (profile : ContextCacheDeploymentProfile) : Bool := profile.baseStateKind == .hybrid

def isPureRecurrent (profile : ContextCacheDeploymentProfile) : Bool :=
  profile.baseStateKind == .pureRecurrent

def usesCheckpointReuse (profile : ContextCacheDeploymentProfile) : Bool :=
  profile.isHybrid || profile.isPureRecurrent

def isSpeculative (profile : ContextCacheDeploymentProfile) : Bool :=
  profile.specReuseContract.isSome

def ownsPagedSpecState (profile : ContextCacheDeploymentProfile) : Bool :=
  profile.specReuseContract.any SpecReuseContract.ownsPagedSpecState

def supportsSpecMediaPrefixReuse (profile : ContextCacheDeploymentProfile) : Bool :=
  profile.isSpeculative && !profile.ownsPagedSpecState && !profile.isHybrid

end ContextCacheDeploymentProfile

/-- The hashed inputs of a sequence.  The media hashes are empty for text only and
have one entry a token otherwise. -/
structure KeyedTokens where
  tokenIds : List (BitVec 32)
  keyExtras : BlockKeyExtras := {}
  perPositionMediaHash : List Hash128 := []
  perPosition : perPositionMediaHash = [] ∨ perPositionMediaHash.length = tokenIds.length := by simp

namespace KeyedTokens

/-- The media pointer the hash functions are given: null for text only. -/
def mediaHashPtr (source : KeyedTokens) : Option (Nat → Hash128) :=
  if source.perPositionMediaHash = [] then none
  else some fun index => source.perPositionMediaHash.getD index {}

/-- Append accepted tokens; present media hashes are resized with zero hashes. -/
def append (source : KeyedTokens) (accepted : List (BitVec 32)) : KeyedTokens where
  tokenIds := source.tokenIds ++ accepted
  keyExtras := source.keyExtras
  perPositionMediaHash := if source.perPositionMediaHash = [] then []
    else source.perPositionMediaHash ++ List.replicate accepted.length {}
  perPosition := by
    split
    · exact Or.inl rfl
    · next h => exact Or.inr (by simp [source.perPosition.resolve_left h])

end KeyedTokens

/-- Length of the full blocks that end at or before the first media position. -/
def textPrefixBeforeFirstMedia (perPositionMediaHash : List Hash128) : Nat :=
  match perPositionMediaHash.findIdx? (· ≠ {}) with
  | none => int32Max
  | some firstMedia => firstMedia / kTOKENS_PER_PAGE * kTOKENS_PER_PAGE

/-! ## Admission -/

inductive ContextCacheCommitPolicy where
  | includingGeneratedTokens
  | prefillStateOnly
deriving DecidableEq

structure ContextCacheSequenceAdmission where
  source : KeyedTokens
  lookupPolicy : Option ContextCacheLookupPolicy := none

structure ContextCacheBatchAdmission where
  sequences : List ContextCacheSequenceAdmission
  speculativeRequest : Bool := false
  lookupPolicy : ContextCacheLookupPolicy := .useCache
  commitPolicy : ContextCacheCommitPolicy := .includingGeneratedTokens

namespace ContextCacheBatchAdmission

def containsMedia (admission : ContextCacheBatchAdmission) : Bool :=
  admission.sequences.any fun sequence => !sequence.source.perPositionMediaHash.isEmpty

def forceBatchBypass (admission : ContextCacheBatchAdmission)
    (profile : ContextCacheDeploymentProfile) : Bool :=
  admission.lookupPolicy == .bypass || (admission.speculativeRequest && admission.containsMedia &&
    !profile.supportsSpecMediaPrefixReuse)

def sequenceLookupPolicy (admission : ContextCacheBatchAdmission)
    (profile : ContextCacheDeploymentProfile) (sequence : ContextCacheSequenceAdmission) :
    ContextCacheLookupPolicy :=
  if admission.forceBatchBypass profile then .bypass
  else sequence.lookupPolicy.getD admission.lookupPolicy

end ContextCacheBatchAdmission

/-- Speculative media requests look up the blocks before their first media position only. -/
def lookupHashes (profile : ContextCacheDeploymentProfile) (source : KeyedTokens)
    (speculativeRequest : Bool) (lookupPolicy : ContextCacheLookupPolicy) (hashes : List BlockHash) :
    Except DigestCheck (List BlockHash) :=
  if speculativeRequest = true ∧ source.mediaHashPtr.isSome = true then do
    requireThat (profile.supportsSpecMediaPrefixReuse = true ∨ lookupPolicy = .bypass) .specMediaReuse
    .ok (hashes.take (textPrefixBeforeFirstMedia source.perPositionMediaHash / kTOKENS_PER_PAGE))
  else .ok hashes

def hybridCandidate (source : KeyedTokens) (hashes : List BlockHash) (candidateLength : Int) :
    Except DigestCheck (HybridCheckpointCandidate Hash128) := do
  let digest ← hashHybridCandidatePrefix source.tokenIds candidateLength hashes source.keyExtras
    source.mediaHashPtr
  .ok ⟨candidateLength, digest⟩

/-- One candidate for each checkpoint length in store below the length of the input. -/
def hybridCandidates (source : KeyedTokens) (records : CacheRecordStore Hash128)
    (hashes : List BlockHash) : Except DigestCheck (List (HybridCheckpointCandidate Hash128)) := do
  let candidateLengths ← (records.hybridCandidateLengths source.tokenIds.length).mapError
    fun _ => DigestCheck.hybridInputNegative
  candidateLengths.mapM (hybridCandidate source hashes)

/-- What `acquireSequence` looks up: the chain of the input and the checkpoint candidates. -/
def acquireSequence (profile : ContextCacheDeploymentProfile) (source : KeyedTokens)
    (speculativeRequest : Bool) (lookupPolicy : ContextCacheLookupPolicy)
    (records : CacheRecordStore Hash128) :
    Except DigestCheck (List BlockHash × List (HybridCheckpointCandidate Hash128)) := do
  requireThat (source.tokenIds ≠ []) .emptySequence
  let fullHashes ← hashRequestFullBlocks source.tokenIds source.tokenIds.length source.keyExtras
    source.mediaHashPtr
  let hashes ← lookupHashes profile source speculativeRequest lookupPolicy fullHashes
  let candidates ←
    if profile.usesCheckpointReuse = true ∧ lookupPolicy = .useCache then
      hybridCandidates source records hashes
    else .ok []
  .ok (hashes, candidates)

/-! ## The life of a request -/

inductive PublicationPoint where
  | prefillEnd
  | decodeEnd
deriving DecidableEq

structure StagedHybridPublication where
  checkpoint : HybridCheckpointKey Hash128
  snapshots : HybridSnapshotReservation
  point : PublicationPoint

structure SequenceState where
  source : KeyedTokens
  lookupPolicy : ContextCacheLookupPolicy
  commitPolicy : ContextCacheCommitPolicy
  committedStateLength : Int
  publishedExactLength : Int := 0
  stagedHybridPublication : Option StagedHybridPublication := none

structure Request where
  speculativeRequest : Bool
  sequences : List SequenceState

/-- The state of each admitted sequence; `reuse` is the length its plan reuses. -/
def beginRequest (profile : ContextCacheDeploymentProfile) (admission : ContextCacheBatchAdmission)
    (reuse : ContextCacheSequenceAdmission → Int) : Except DigestCheck Request := do
  requireThat (admission.speculativeRequest = true → profile.isSpeculative = true)
    .specDeploymentMismatch
  .ok
    { speculativeRequest := admission.speculativeRequest
      sequences := admission.sequences.map fun sequence =>
        { source := sequence.source
          lookupPolicy := admission.sequenceLookupPolicy profile sequence
          commitPolicy := admission.commitPolicy
          committedStateLength := reuse sequence } }

inductive PublicationPolicy where
  | baseEndpoint
  | hybridSnapshot
  | hybridMtp
  | eagleSpec
  | sharedKvSpec
deriving DecidableEq

def makePublicationPolicy (profile : ContextCacheDeploymentProfile) (speculativeRequest : Bool) :
    PublicationPolicy :=
  if speculativeRequest = true ∧ profile.isHybrid = true then .hybridMtp
  else if speculativeRequest = true ∧ profile.ownsPagedSpecState = true then .eagleSpec
  else if speculativeRequest = true then .sharedKvSpec
  else if profile.usesCheckpointReuse = true then .hybridSnapshot
  else .baseEndpoint

structure ContextCacheSequenceAdvance where
  acceptedTokenIds : List (BitVec 32)
  committedStateLength : Int

def kHoldCommittedStateLength : Int := -1

/-- `applyAdvances` for one sequence. -/
def applyAdvance (sequence : SequenceState) (delta : ContextCacheSequenceAdvance) :
    Except DigestCheck SequenceState :=
  if delta.acceptedTokenIds = [] ∧ delta.committedStateLength = kHoldCommittedStateLength then
    .ok sequence
  else do
    let updatedTokenCount := sequence.source.tokenIds.length + delta.acceptedTokenIds.length
    requireThat (updatedTokenCount ≤ int32Max) .tokenHistoryOverflow
    requireThat (sequence.committedStateLength ≤ delta.committedStateLength ∧
      delta.committedStateLength ≤ updatedTokenCount) .committedLengthNotMonotonic
    .ok
      { sequence with
        source := sequence.source.append delta.acceptedTokenIds
        committedStateLength := delta.committedStateLength }

/-- What a publisher hands to the manager, with the tokens it hashed. -/
structure Publication where
  source : KeyedTokens
  request : HybridPublishRequest Hash128
  /-- `publishHybridMtp` rather than `publishHybrid`. -/
  mtp : Bool

/-- The digest is staged when the capture is reserved. -/
def reserveHybridCapture (profile : ContextCacheDeploymentProfile) (sequence : SequenceState)
    (exactLength : Int) (point : PublicationPoint) (reservation : Option HybridSnapshotReservation) :
    Except DigestCheck SequenceState := do
  requireThat (profile.usesCheckpointReuse = true) .captureWithoutCheckpointReuse
  requireThat (sequence.stagedHybridPublication = none) .capturePending
  requireThat (0 < exactLength ∧ exactLength ≤ sequence.source.tokenIds.length) .captureLength
  if sequence.lookupPolicy = .bypass ∨ exactLength ≤ sequence.publishedExactLength ∨
      (point = .decodeEnd ∧ sequence.commitPolicy = .prefillStateOnly) then
    .ok sequence
  else
    match reservation with
    | none => .ok sequence
    | some snapshots => do
        let digest ← hashRequestExactPrefix sequence.source.tokenIds exactLength.toNat
          sequence.source.keyExtras sequence.source.mediaHashPtr
        .ok { sequence with stagedHybridPublication := some ⟨⟨digest, exactLength⟩, snapshots, point⟩ }

/-- `publishReadyHybridEndpoints` for one sequence: the block hashes are computed now. -/
def publishReadyHybridEndpoint (sequence : SequenceState) :
    Except DigestCheck (SequenceState × Option Publication) :=
  match sequence.stagedHybridPublication with
  | none => .ok (sequence, none)
  | some staged => do
      let exactLength := staged.checkpoint.exactLength
      requireThat (exactLength ≤ sequence.committedStateLength) .snapshotBeyondCommitted
      let hashes ← hashRequestFullBlocks sequence.source.tokenIds
        (exactLength.toNat / kTOKENS_PER_PAGE * kTOKENS_PER_PAGE) sequence.source.keyExtras
        sequence.source.mediaHashPtr
      .ok ({ sequence with stagedHybridPublication := none, publishedExactLength := exactLength },
        some ⟨sequence.source, ⟨hashes, staged.checkpoint, staged.snapshots⟩, false⟩)

/-- The successor boundary of an MTP request.  The digest is computed without the media
pointer, the block hashes with it. -/
def publishMtpBoundary (profile : ContextCacheDeploymentProfile) (speculativeRequest : Bool)
    (sequence : SequenceState) (residentStateLength : Int)
    (reservation : Option HybridSnapshotReservation) :
    Except DigestCheck (SequenceState × Option Publication) := do
  requireThat (makePublicationPolicy profile speculativeRequest = .hybridMtp) .mtpRequestRequired
  if sequence.lookupPolicy = .bypass ∨ residentStateLength ≤ 0 ∨
      residentStateLength ≤ sequence.publishedExactLength then
    .ok (sequence, none)
  else do
    requireThat (residentStateLength ≤ sequence.source.tokenIds.length) .mtpLengthBeyondHistory
    match reservation with
    | none => .ok (sequence, none)
    | some snapshots => do
        let hashes ← hashRequestFullBlocks sequence.source.tokenIds
          ((residentStateLength.toNat - 1) / kTOKENS_PER_PAGE * kTOKENS_PER_PAGE)
          sequence.source.keyExtras sequence.source.mediaHashPtr
        let digest ← hashRequestExactPrefix sequence.source.tokenIds residentStateLength.toNat
          sequence.source.keyExtras none
        .ok ({ sequence with publishedExactLength := residentStateLength },
          some ⟨sequence.source, ⟨hashes, ⟨digest, residentStateLength⟩, snapshots⟩, true⟩)

/-- The steps of a request that touch its hashed inputs or publish, one sequence at a time, and
the compaction that keeps some sequences. -/
inductive Step (profile : ContextCacheDeploymentProfile) (r : Request) :
    Request → Option Publication → Prop
  | advance {slot : Nat} {sequence sequence' : SequenceState} (delta : ContextCacheSequenceAdvance)
      (hslot : r.sequences[slot]? = some sequence) (h : applyAdvance sequence delta = .ok sequence') :
      Step profile r { r with sequences := r.sequences.set slot sequence' } none
  | capture {slot : Nat} {sequence sequence' : SequenceState} (exactLength : Int)
      (point : PublicationPoint) (reservation : Option HybridSnapshotReservation)
      (hslot : r.sequences[slot]? = some sequence)
      (h : reserveHybridCapture profile sequence exactLength point reservation = .ok sequence') :
      Step profile r { r with sequences := r.sequences.set slot sequence' } none
  | publish {slot : Nat} {sequence sequence' : SequenceState} {published : Option Publication}
      (hslot : r.sequences[slot]? = some sequence)
      (h : publishReadyHybridEndpoint sequence = .ok (sequence', published)) :
      Step profile r { r with sequences := r.sequences.set slot sequence' } published
  | publishMtp {slot : Nat} {sequence sequence' : SequenceState} {published : Option Publication}
      (residentStateLength : Int) (reservation : Option HybridSnapshotReservation)
      (hslot : r.sequences[slot]? = some sequence)
      (h : publishMtpBoundary profile r.speculativeRequest sequence residentStateLength reservation =
        .ok (sequence', published)) :
      Step profile r { r with sequences := r.sequences.set slot sequence' } published
  | compact {survivors : List SequenceState} (h : survivors ⊆ r.sequences) :
      Step profile r { r with sequences := survivors } none

/-- A request of the deployment with what it has published so far. -/
inductive Reached (profile : ContextCacheDeploymentProfile) : Request → List Publication → Prop
  | begin (admission : ContextCacheBatchAdmission) (reuse : ContextCacheSequenceAdmission → Int)
      {r : Request} (h : beginRequest profile admission reuse = .ok r) : Reached profile r []
  | step {r r' : Request} {log : List Publication} {published : Option Publication}
      (h : Reached profile r log) (hstep : Step profile r r' published) :
      Reached profile r' (log ++ published.toList)

end EdgeLLM.Ports.CheckpointDigest
