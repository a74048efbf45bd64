import EdgeLLM.Ports.ContextCacheCommitment

/-!
# Combined checkpoints: publication and later reuse

A combined (hybrid and MTP) lease publishes an exact checkpoint: the paired
base and draft pages of its full blocks, a recurrent snapshot and a partial
K/V snapshot.  The acceptance conditions are spread over the publication, the
record validation, the store and the planner; `Publishable` collects them.  A
checkpoint within the first page has no full block, and the record validation
refuses its empty draft path although every other place allows it.
-/

namespace EdgeLLM.Ports.ContextCache

open Verified Checked

set_option linter.unusedSectionVars false

variable {H : Type} [DecidableEq H]

namespace ContextCacheManager

/-! ## The projection, block by block -/

section Canonical

variable {index : BaseBlockIndex H} {done blocks : List (H × PageId)}
  {projection : BaseProjection H}

/-- The page a block hash stands for once `blocks` are published: the indexed
one, else the page of its first block. -/
def canonicalPage (index : BaseBlockIndex H) (blocks : List (H × PageId)) (hash : H) :
    Option PageId :=
  match index.lookup hash with
  | some page => some page
  | none => (blocks.find? fun b => b.1 = hash).map Prod.snd

/-- No page would stand for two block hashes. -/
def OneToOne (index : BaseBlockIndex H) (blocks : List (H × PageId)) : Prop :=
  ∀ hash hash' page, canonicalPage index blocks hash = some page →
    canonicalPage index blocks hash' = some page → hash = hash'

/-- A block with an unindexed hash is missing under that hash. -/
theorem Projects.missing_of_mem (h : Projects index done projection) {b : H × PageId}
    (hb : b ∈ done) (hnone : index.lookup b.1 = none) :
    ∃ page, (b.1, page) ∈ projection.missingMappings := by
  obtain ⟨i, hi, rfl⟩ := List.getElem_of_mem hb
  have hz : i < ((done.map Prod.fst).zip projection.canonicalPages).length := by
    rw [List.length_zip, List.length_map, h.length, min_self]
    exact hi
  have hblock := h.blocks _ (List.getElem_mem hz)
  rw [List.getElem_zip, List.getElem_map] at hblock
  refine ⟨_, hblock.resolve_left ?_⟩
  simp [hnone]

/-- A missing mapping is the first block of its hash. -/
theorem projectBlock_first (h : Projects index done projection)
    (hfirst : ∀ b ∈ projection.missingMappings, (done.find? fun x => x.1 = b.1) = some b)
    (block : H × PageId) : ∀ b ∈ (projectBlock index projection block).missingMappings,
      ((done ++ [block]).find? fun x => x.1 = b.1) = some b := by
  have hold : ∀ b ∈ projection.missingMappings,
      ((done ++ [block]).find? fun x => x.1 = b.1) = some b := by
    intro b hb
    rw [List.find?_append, hfirst b hb]
    rfl
  unfold projectBlock
  cases hl : index.lookup block.1 with
  | some canonical => exact hold
  | none =>
    cases hfind : projection.missingMappings.find? fun missing => missing.1 = block.1 with
    | some prepared => exact hold
    | none =>
      intro b hb
      rcases List.mem_append.1 hb with hb | hb
      · exact hold b hb
      · obtain rfl := List.mem_singleton.1 hb
        have hnew : (done.find? fun x => x.1 = b.1) = none := by
          rw [List.find?_eq_none]
          intro x hx hxb
          have hxb : x.1 = b.1 := by simpa using hxb
          obtain ⟨page, hmem⟩ := h.missing_of_mem hx (hxb ▸ hl)
          rw [List.find?_eq_none] at hfind
          exact hfind _ hmem (by simpa using hxb)
        rw [List.find?_append, hnew]
        simp

theorem project_spec (index : BaseBlockIndex H) (hashes : List H) (pages : List PageId) :
    Projects index (hashes.zip pages) (project index hashes pages) ∧
      ∀ b ∈ (project index hashes pages).missingMappings,
        ((hashes.zip pages).find? fun x => x.1 = b.1) = some b := by
  have hrun : ∀ (rest done : List (H × PageId)) (projection : BaseProjection H),
      Projects index done projection →
      (∀ b ∈ projection.missingMappings, (done.find? fun x => x.1 = b.1) = some b) →
      Projects index (done ++ rest) (rest.foldl (projectBlock index) projection) ∧
        ∀ b ∈ (rest.foldl (projectBlock index) projection).missingMappings,
          ((done ++ rest).find? fun x => x.1 = b.1) = some b := by
    intro rest
    induction rest with
    | nil =>
      intro done projection h hfirst
      rw [List.append_nil]
      exact ⟨h, hfirst⟩
    | cons block rest ih =>
      intro done projection h hfirst
      have hstep := ih _ _ (projectBlock_spec h block) (projectBlock_first h hfirst block)
      rw [List.append_assoc, List.singleton_append] at hstep
      exact hstep
  have hall := hrun (hashes.zip pages) [] {} (.nil index) (by simp)
  rw [List.nil_append] at hall
  exact hall

variable {hashes : List H} {pages : List PageId}

/-- Position by position, the projected page is the canonical one. -/
theorem project_canonical
    (hlen : hashes.length ≤ pages.length) :
    ∀ b ∈ hashes.zip (project index hashes pages).canonicalPages,
      canonicalPage index (hashes.zip pages) b.1 = some b.2 := by
  obtain ⟨h, hfirst⟩ := project_spec index hashes pages
  intro b hb
  have hblock := h.blocks b (by rw [List.map_fst_zip hlen]; exact hb)
  unfold canonicalPage
  rcases hblock with hl | hmiss
  · rw [hl]
  · rw [h.missing b hmiss, hfirst b hmiss]
    rfl

theorem project_length
    (hlen : hashes.length ≤ pages.length) :
    (project index hashes pages).canonicalPages.length = hashes.length := by
  rw [(project_spec index hashes pages).1.length, List.length_zip, Nat.min_eq_left hlen]

theorem project_path (index : BaseBlockIndex H)
    (hlen : hashes.length ≤ pages.length) : (project index hashes pages).canonicalPages =
      hashes.filterMap (canonicalPage index (hashes.zip pages)) := by
  have hpath : ∀ (hashes' : List H) (canonical : List PageId), canonical.length = hashes'.length →
      (∀ b ∈ hashes'.zip canonical, canonicalPage index (hashes.zip pages) b.1 = some b.2) →
      canonical = hashes'.filterMap (canonicalPage index (hashes.zip pages)) := by
    intro hashes'
    induction hashes' with
    | nil =>
      intro canonical hl _
      simpa using hl
    | cons hash rest ih =>
      intro canonical hl hall
      cases canonical with
      | nil => simp at hl
      | cons page canonical =>
        have hhead := hall (hash, page) (by simp)
        rw [List.filterMap_cons, hhead]
        simp only [List.cons.injEq, true_and]
        refine ih canonical (by simpa using hl) fun b hb => hall b ?_
        rw [List.zip_cons_cons]
        exact List.mem_cons_of_mem _ hb
  exact hpath hashes _ (project_length hlen) (project_canonical hlen)

/-- A hash that is unindexed but has a block stands for a missing mapping. -/
theorem missing_of_canonical {hash : H} {page : PageId}
    (hnone : index.lookup hash = none)
    (hpage : canonicalPage index (hashes.zip pages) hash = some page) :
    (hash, page) ∈ (project index hashes pages).missingMappings := by
  obtain ⟨h, hfirst⟩ := project_spec index hashes pages
  rw [canonicalPage, hnone] at hpage
  obtain ⟨b, hb, rfl⟩ := Option.map_eq_some_iff.1 hpage
  have hhash : b.1 = hash := by simpa using List.find?_some hb
  subst hhash
  obtain ⟨q, hq⟩ := h.missing_of_mem (List.mem_of_find?_eq_some hb) hnone
  have hsame := hfirst _ hq
  simp only at hsame
  rw [hb] at hsame
  have hpage : b.2 = q := congrArg Prod.snd (Option.some.inj hsame)
  rw [hpage]
  exact hq

/-- The mapping loop succeeds exactly when pages and hashes stay one to one. -/
theorem mappingsFit_iff (hinv : index.Inverse) (hashes : List H) (pages : List PageId) :
    MappingsFit index (project index hashes pages).missingMappings ↔
      OneToOne index (hashes.zip pages) := by
  obtain ⟨h, hfirst⟩ := project_spec index hashes pages
  have hcanonical : ∀ b ∈ (project index hashes pages).missingMappings,
      canonicalPage index (hashes.zip pages) b.1 = some b.2 := by
    intro b hb
    rw [canonicalPage, h.missing b hb, hfirst b hb]
    rfl
  constructor
  · rintro ⟨hfree, hnd⟩
    -- an indexed hash and a missing one never share a page
    have hcross : ∀ hash hash' page, index.lookup hash = some page → index.lookup hash' = none →
        canonicalPage index (hashes.zip pages) hash' ≠ some page := by
      intro hash hash' page hl hnone hpage
      have hmiss := missing_of_canonical hnone hpage
      have hrev := (hinv hash page).1 hl
      rw [hfree _ hmiss] at hrev
      cases hrev
    intro hash hash' page hpage hpage'
    cases hl : index.lookup hash with
    | some q =>
      have hq : q = page := by
        rw [canonicalPage, hl] at hpage
        exact Option.some.inj hpage
      subst hq
      cases hl' : index.lookup hash' with
      | some q' =>
        have hq' : q' = q := by
          rw [canonicalPage, hl'] at hpage'
          exact Option.some.inj hpage'
        subst hq'
        exact hinv.unique hl hl'
      | none => exact absurd hpage' (hcross hash hash' q hl hl')
    | none =>
      cases hl' : index.lookup hash' with
      | some q' =>
        have hq' : q' = page := by
          rw [canonicalPage, hl'] at hpage'
          exact Option.some.inj hpage'
        subst hq'
        exact absurd hpage (hcross hash' hash q' hl' hl)
      | none =>
        have hmiss := missing_of_canonical hl hpage
        have hmiss' := missing_of_canonical hl' hpage'
        have hinj := List.inj_on_of_nodup_map hnd hmiss hmiss' rfl
        exact congrArg Prod.fst hinj
  · intro hone
    refine ⟨?_, ?_⟩
    · intro b hb
      cases hrev : index.reverse.lookup b.2 with
      | none => rfl
      | some hash =>
        have hl := (hinv hash b.2).2 hrev
        have hother : canonicalPage index (hashes.zip pages) hash = some b.2 := by
          rw [canonicalPage, BaseBlockIndex.lookup, hl]
        have hsame := hone _ _ _ (hcanonical b hb) hother
        have hmissing := h.missing b hb
        rw [BaseBlockIndex.lookup, hsame, hl] at hmissing
        cases hmissing
    · refine (List.Nodup.of_map _ h.nodup).map_on ?_
      intro b hb b' hb' hpage
      have hhash := hone _ _ _ (hcanonical b hb) (hpage ▸ hcanonical b' hb')
      exact Prod.ext hhash hpage

end Canonical

/-! ## Reuse of a stored checkpoint -/

section Planning

variable {store : CacheRecordStore H} {pageSize : Int} {id : RecordId} {record : CacheRecord H}

theorem orderCandidates_sorted (candidates : List (HybridCheckpointCandidate H)) :
    (orderCandidates candidates).Pairwise fun a b => b.exactLength ≤ a.exactLength := by
  have : Std.Total fun a b : HybridCheckpointCandidate H => b.exactLength ≤ a.exactLength :=
    ⟨fun a b => Int.le_total b.exactLength a.exactLength⟩
  have : IsTrans (HybridCheckpointCandidate H) fun a b => b.exactLength ≤ a.exactLength :=
    ⟨fun _ _ _ hab hbc => Int.le_trans hbc hab⟩
  exact List.pairwise_insertionSort _ candidates

/-- The candidate that names a checkpoint. -/
def candidateOf (key : HybridCheckpointKey H) : HybridCheckpointCandidate H :=
  ⟨key.exactLength, key.exactPrefixDigest⟩

section Search

variable {tokenCount : Int} {key : HybridCheckpointKey H} {plan : ReusePlan H}
  {accept : HybridCheckpointKey H → RecordId → CacheRecord H → Option (ReusePlan H)}

/-- A stored candidate in range is decided by `accept`. -/
theorem searchCheckpoint_cons (hpos : 0 < key.exactLength) (hlonger : key.exactLength < tokenCount)
    (hfind : store.findHybrid key = some id) (hrecord : store.records.lookup id = some record)
    (rest : List (HybridCheckpointCandidate H)) :
    searchCheckpoint store tokenCount accept (candidateOf key :: rest) =
      match accept key id record with
      | some plan => .ok (some plan)
      | none => searchCheckpoint store tokenCount accept rest := by
  have hrange : ¬(key.exactLength ≤ 0 ∨ tokenCount ≤ key.exactLength) := by omega
  rw [searchCheckpoint]
  simp only [candidateOf, if_neg hrange, hfind, CacheRecordStore.get_spec hrecord]
  rfl

/-- The longest stored candidate of a sorted list is the one found. -/
theorem searchCheckpoint_finds (hpos : 0 < key.exactLength) (hlonger : key.exactLength < tokenCount)
    (hfind : store.findHybrid key = some id) (hrecord : store.records.lookup id = some record)
    (haccept : accept key id record = some plan) :
    ∀ candidates : List (HybridCheckpointCandidate H),
      candidates.Pairwise (fun a b => b.exactLength ≤ a.exactLength) →
      candidateOf key ∈ candidates → (∀ c ∈ candidates, key.exactLength ≤ c.exactLength →
        c ≠ candidateOf key → store.findHybrid ⟨c.exactPrefixDigest, c.exactLength⟩ = none) →
      searchCheckpoint store tokenCount accept candidates = .ok (some plan) := by
  intro candidates
  induction candidates with
  | nil => intro _ hmem; simp at hmem
  | cons c rest ih =>
    intro hsorted hmem hlongest
    obtain ⟨hle, hsorted⟩ := List.pairwise_cons.1 hsorted
    by_cases hc : c = candidateOf key
    · subst hc
      rw [searchCheckpoint_cons hpos hlonger hfind hrecord, haccept]
    · -- a longer candidate that is not stored
      have hin := (List.mem_cons.1 hmem).resolve_left (Ne.symm hc)
      have hnone := hlongest c (by simp) (hle _ hin) hc
      have hrest := ih hsorted hin fun d hd => hlongest d (List.mem_cons_of_mem c hd)
      rw [searchCheckpoint]
      simp only [hnone]
      split
      · exact hrest
      · exact hrest

end Search

/-- An input that contains a checkpoint and holds no other stored checkpoint
as long. -/
structure Contains (store : CacheRecordStore H) (pageSize : Int) (checkpoint : HybridCheckpointKey H)
    (blockHashes : List H) (candidates : List (HybridCheckpointCandidate H)) (hashes : List H)
    (tokenCount : Int) : Prop where
  longer : checkpoint.exactLength < tokenCount
  blocks : (hashes.length : Int) ≤ tokenCount / pageSize
  path : blockHashes <+: hashes
  candidate : candidateOf checkpoint ∈ candidates
  longest : ∀ c ∈ candidates, checkpoint.exactLength ≤ c.exactLength →
    c ≠ candidateOf checkpoint →
    store.findHybrid ⟨c.exactPrefixDigest, c.exactLength⟩ = none

/-- A stored checkpoint with both paths and both snapshots. -/
structure CompleteMtp (checkpoint : HybridCheckpointKey H) (blockHashes : List H)
    (record : CacheRecord H) : Prop where
  key : record.hybridKey = some checkpoint
  blocks : record.logicalBlockHashes = blockHashes
  draft : record.specState.isSome = true
  partialKv : record.partialKvSnapshotSlot.isSome = true

variable {checkpoint : HybridCheckpointKey H} {hashes : List H} {tokenCount : Int}

/-- The planner takes a complete checkpoint and nothing else. -/
theorem acceptHybridMtp_isSome_iff (id : RecordId) {blockHashes : List H}
    (hvalid : validateRecord record = .ok ()) (hkey : record.hybridKey = some checkpoint)
    (hcount : (blockHashes.length : Int) = (checkpoint.exactLength - 1) / pageSize)
    (hextends : blockHashes <+: hashes) (total : Int) :
    (acceptHybridMtp hashes total pageSize checkpoint id record).isSome = true ↔
      CompleteMtp checkpoint blockHashes record := by
  have hv := validateRecord_ok hvalid
  obtain ⟨length, hlength, hcheckpoint⟩ := Option.map_eq_some_iff.1 hkey
  have hrecurrent := (hv.hybrid length hlength).2
  obtain ⟨tail, rfl⟩ := hextends
  unfold acceptHybridMtp logicalPrefixMatches
  rw [Option.isSome_ite]
  constructor
  · rintro ⟨⟨hlen, -, htake⟩, ⟨-, hlastPage⟩, -, hdraft, -⟩
    refine { key := hkey, blocks := ?_, draft := hdraft, partialKv := hlastPage }
    have heq : record.logicalBlockHashes.length = blockHashes.length := by omega
    rw [heq, List.take_left'] at htake
    · exact htake
    · rfl
  · rintro ⟨-, hblocks, hdraft, hlastPage⟩
    obtain ⟨state, hstate⟩ := Option.isSome_iff_exists.1 hdraft
    have hspec := hv.spec_logical hstate
    have hbase := (hv.spec state hstate).2.1
    have hpages : specPages record.specState = state.pagePath := by rw [hstate]; rfl
    refine ⟨⟨?_, ?_, ?_⟩, ⟨hrecurrent, hlastPage⟩, ?_, hdraft, ?_⟩
    · rw [hblocks]
      exact hcount
    · rw [← hcount, List.length_append]
      omega
    · rw [hblocks, List.take_left']
      rfl
    · rw [← hbase, hspec, hblocks]
      exact hcount
    · rw [hpages, hspec, hblocks]
      exact hcount

/-- A plan made by the checkpoint loop reuses its candidate's length. -/
theorem acceptHybridMtp_reuse {total : Int} {plan : ReusePlan H}
    (h : acceptHybridMtp hashes total pageSize checkpoint id record = some plan) :
    plan.reuseTokenLength = checkpoint.exactLength := by
  unfold acceptHybridMtp at h
  obtain ⟨-, h⟩ := Option.ite_none_right_eq_some.1 h
  cases h
  rfl

/-- The plan over one input, as far as the checkpoint loop decides it. -/
theorem makeHybridMtpReusePlan_eq (store : CacheRecordStore H)
    (candidates : List (HybridCheckpointCandidate H)) (found : Option (ReusePlan H))
    (hP : 0 < pageSize) (hpos : 0 < tokenCount)
    (hblocks : (hashes.length : Int) ≤ tokenCount / pageSize)
    (hfound : ∀ total, total = (tokenCount + pageSize - 1) / pageSize →
      searchCheckpoint store tokenCount (acceptHybridMtp hashes total pageSize)
        (orderCandidates candidates) = .ok found) :
    ∃ cold : ReusePlan H, cold.reuseTokenLength = 0 ∧
      makeHybridMtpReusePlan candidates hashes tokenCount pageSize store .useCache =
        .ok (found.getD cold) := by
  have hcount : validateAndCountInputPages hashes tokenCount pageSize =
      .ok ((tokenCount + pageSize - 1) / pageSize) := by
    rw [validateAndCountInputPages, requireThat_of hP, requireThat_of hpos.le,
      requireThat_of hblocks]
    rfl
  have hplan : makeHybridMtpReusePlan candidates hashes tokenCount pageSize store .useCache =
      .ok (found.getD
        { mode := .hybridMtp
          hybridHasAttention := true
          kind := if tokenCount = 0 then .standard else .noReusablePrefix
          demand :=
            { baseKvPages := (tokenCount + pageSize - 1) / pageSize
              draftKvPages := (tokenCount + pageSize - 1) / pageSize } }) := by
    rw [makeHybridMtpReusePlan, hcount]
    simp only [bind, Except.bind]
    rw [if_neg (by simp [hpos.ne']), hfound _ rfl]
  exact ⟨_, rfl, hplan⟩

/-- A stored complete checkpoint is reused by every input that contains it. -/
theorem makeHybridMtpReusePlan_reuses (hs : store.Coherent) (hP : 0 < pageSize)
    {blockHashes : List H} (hpos : 0 < checkpoint.exactLength)
    (hcount : (blockHashes.length : Int) = (checkpoint.exactLength - 1) / pageSize)
    (hrecord : store.records.lookup id = some record)
    (hcomplete : CompleteMtp checkpoint blockHashes record)
    {candidates : List (HybridCheckpointCandidate H)}
    (hinput : Contains store pageSize checkpoint blockHashes candidates hashes tokenCount) :
    ∃ plan, makeHybridMtpReusePlan candidates hashes tokenCount pageSize store .useCache =
      .ok plan ∧ plan.reuseTokenLength = checkpoint.exactLength := by
  have hfind : store.findHybrid checkpoint = some id :=
    (hs.hybrid checkpoint id).2 ⟨record, hrecord, hcomplete.key⟩
  have haccept := (acceptHybridMtp_isSome_iff id (hs.valid id record hrecord)
    hcomplete.key hcount hinput.path ((tokenCount + pageSize - 1) / pageSize)).2 hcomplete
  obtain ⟨plan, haccept⟩ := Option.isSome_iff_exists.1 haccept
  have hperm := List.perm_insertionSort
    (fun a b : HybridCheckpointCandidate H => b.exactLength ≤ a.exactLength) candidates
  obtain ⟨cold, -, hplan⟩ := makeHybridMtpReusePlan_eq store candidates (some plan) hP
    (Int.lt_trans hpos hinput.longer) hinput.blocks (by
      rintro _ rfl
      exact searchCheckpoint_finds hpos hinput.longer hfind hrecord haccept _
        (orderCandidates_sorted candidates) (hperm.mem_iff.2 hinput.candidate)
        fun c hc => hinput.longest c (hperm.mem_iff.1 hc))
  exact ⟨plan, hplan, acceptHybridMtp_reuse haccept⟩

/-- The shortest input that contains a checkpoint. -/
theorem contains_next (store : CacheRecordStore H) (hP : 0 < pageSize) {blockHashes : List H}
    (hcount : (blockHashes.length : Int) = (checkpoint.exactLength - 1) / pageSize) :
    Contains store pageSize checkpoint blockHashes [candidateOf checkpoint] blockHashes
      (checkpoint.exactLength + 1) where
  longer := by omega
  blocks := by
    rw [hcount]
    exact Int.ediv_le_ediv hP (by omega)
  path := List.prefix_refl _
  candidate := by simp
  longest c hc _ hne := absurd (List.mem_singleton.1 hc) hne

/-- A checkpoint reused by that input is complete. -/
theorem complete_of_reuse (hs : store.Coherent) (hP : 0 < pageSize) {blockHashes : List H}
    (hpos : 0 < checkpoint.exactLength)
    (hcount : (blockHashes.length : Int) = (checkpoint.exactLength - 1) / pageSize)
    (hfind : store.findHybrid checkpoint = some id)
    (hrecord : store.records.lookup id = some record) {plan : ReusePlan H}
    (hplan : makeHybridMtpReusePlan [candidateOf checkpoint] blockHashes
      (checkpoint.exactLength + 1) pageSize store .useCache = .ok plan)
    (hreuse : plan.reuseTokenLength = checkpoint.exactLength) :
    CompleteMtp checkpoint blockHashes record := by
  have hkey : record.hybridKey = some checkpoint := by
    obtain ⟨record', hrecord', hkey⟩ := (hs.hybrid checkpoint id).1 hfind
    obtain rfl : record = record' := Option.some.inj (hrecord.symm.trans hrecord')
    exact hkey
  have hinput := contains_next store hP hcount
  set total := (checkpoint.exactLength + 1 + pageSize - 1) / pageSize with htotal
  refine (acceptHybridMtp_isSome_iff id (hs.valid id record hrecord) hkey hcount
    (List.prefix_refl _) total).1 ?_
  obtain ⟨cold, hcold, heq⟩ := makeHybridMtpReusePlan_eq store [candidateOf checkpoint]
    (acceptHybridMtp blockHashes total pageSize checkpoint id record) hP
    (Int.lt_trans hpos hinput.longer) hinput.blocks (by
      rintro _ rfl
      show searchCheckpoint store _ _ [candidateOf checkpoint] = _
      rw [searchCheckpoint_cons hpos hinput.longer hfind hrecord]
      cases acceptHybridMtp blockHashes total pageSize checkpoint id record <;> rfl)
  cases haccept : acceptHybridMtp blockHashes total pageSize checkpoint id record with
  | some found => rfl
  | none =>
    -- a cold plan reuses nothing
    rw [haccept, Option.getD_none, hplan] at heq
    rw [Except.ok.inj heq, hcold] at hreuse
    omega

end Planning

theorem acquire_plan (plan : ReusePlan H) (m : ContextCacheManager H) :
    (acquire plan).Ensures (fun result _ => result.plan = plan) (fun _ _ => True) m := by
  unfold acquire Session.acquireLease
  rw [ensures_zoom]
  refine Ensures.bind (ensures_true _ _) fun acquired s' _ => ?_
  cases acquired with
  | true =>
    refine Ensures.bind (ensures_true _ _) fun _ _ _ => ?_
    exact rfl
  | false =>
    refine Ensures.bind (ensures_true _ _) fun _ _ _ => ?_
    exact rfl

theorem requireKvPageCoverage_reuse {plan covered : ReusePlan H} {basePages draftPages : Int}
    (h : requireKvPageCoverage plan basePages draftPages = .ok covered) :
    covered.reuseTokenLength = plan.reuseTokenLength := by
  unfold requireKvPageCoverage at h
  rw [check_bind_eq_ok] at h
  cases h.2
  rfl

/-- Every later acquisition over an input that contains the checkpoint is
planned with, and returns, a reuse of exactly its length. -/
def Reuses (m : ContextCacheManager H) (checkpoint : HybridCheckpointKey H)
    (blockHashes : List H) : Prop :=
  ∀ candidates hashes tokenCount,
    Contains m.records m.pageSize checkpoint blockHashes candidates hashes tokenCount →
    ∃ plan, m.makePlan (.hybridMtp candidates) hashes tokenCount .useCache = .ok plan ∧
      plan.reuseTokenLength = checkpoint.exactLength ∧
      ∀ coverage result m', acquireRequest (.hybridMtp candidates) hashes tokenCount .useCache
        coverage m = (.ok result, m') → result.plan.reuseTokenLength = checkpoint.exactLength

theorem reuses_of_complete {m : ContextCacheManager H} (hs : m.records.Coherent)
    (hP : 0 < m.pageSize) {checkpoint : HybridCheckpointKey H} {blockHashes : List H}
    (hpos : 0 < checkpoint.exactLength)
    (hcount : (blockHashes.length : Int) = (checkpoint.exactLength - 1) / m.pageSize)
    {id : RecordId} {record : CacheRecord H} (hrecord : m.records.records.lookup id = some record)
    (hcomplete : CompleteMtp checkpoint blockHashes record) : m.Reuses checkpoint blockHashes := by
  intro candidates hashes tokenCount hinput
  obtain ⟨plan, hplan, hreuse⟩ :=
    makeHybridMtpReusePlan_reuses hs hP hpos hcount hrecord hcomplete hinput
  refine ⟨plan, hplan, hreuse, ?_⟩
  intro coverage result m' hacquire
  have hspec : (acquireRequest (.hybridMtp candidates) hashes tokenCount .useCache
      coverage).Ensures (fun result _ => result.plan.reuseTokenLength = checkpoint.exactLength)
      (fun _ _ => True) m := by
    unfold acquireRequest
    simp only [ensures_bind, ensures_read, ensures_ofExcept, id_eq]
    rw [show m.makePlan (.hybridMtp candidates) hashes tokenCount .useCache = .ok plan from hplan,
      outcome_ok]
    cases coverage with
    | none => exact (acquire_plan plan m).mono (fun _ _ he => he ▸ hreuse) fun _ _ _ => trivial
    | some pages =>
      simp only
      cases hcover : requireKvPageCoverage plan pages.1 pages.2 with
      | error e => trivial
      | ok covered =>
        rw [outcome_ok]
        refine (acquire_plan covered m).mono (fun result _ he => ?_) fun _ _ _ => trivial
        rw [he, requireKvPageCoverage_reuse hcover, hreuse]
  exact hspec.of_ok hacquire

/-! ## When a combined publication returns -/

/-- The page path of a new checkpoint: canonical base pages, the draft pages
of the lease, both snapshots. -/
def checkpointResources (m : ContextCacheManager H) (lease : CacheRequestLease H)
    (request : HybridPublishRequest H) : List ResourceId :=
  let blocks := request.fullBlockHashes.zip lease.basePages
  (request.fullBlockHashes.filterMap (canonicalPage m.baseIndex blocks)).map
      (ResourceId.mk .baseKvPage) ++
    (lease.specPages.take request.fullBlockHashes.length).map (ResourceId.mk .draftKvPage) ++
    [⟨.recurrentSnapshot, request.snapshots.recurrentSnapshotSlot⟩] ++
    request.snapshots.partialKvSnapshotSlot.toList.map (ResourceId.mk .partialKvSnapshot)

/-- A new checkpoint can be stored: it reaches past its first page, record ids
and its key are free, pages and block hashes stay one to one, and no cache
reference counter is exhausted. -/
structure Storable (m : ContextCacheManager H) (lease : CacheRequestLease H)
    (request : HybridPublishRequest H) : Prop where
  block : m.pageSize < request.checkpoint.exactLength
  id : m.records.nextId ≠ 0
  key : m.records.find
    ⟨request.checkpoint.exactPrefixDigest, request.fullBlockHashes.length⟩ = none
  pages : OneToOne m.baseIndex (request.fullBlockHashes.zip lease.basePages)
  refs : RefsFit m.pools (checkpointResources m lease request)

/-- A checkpoint that is published and reused: a stored one is complete and
for the same blocks, a new one can be stored. -/
def Publishable (m : ContextCacheManager H) (lease : CacheRequestLease H)
    (request : HybridPublishRequest H) : Prop :=
  match m.records.findHybrid request.checkpoint with
  | some id => ∃ record, m.records.records.lookup id = some record ∧
      CompleteMtp request.checkpoint request.fullBlockHashes record
  | none => Storable m lease request

end ContextCacheManager

namespace Session

open ContextCacheManager

variable {s : Session H} {A : Multiset ResourceId} {request : HybridPublishRequest H}

/-- The checks `publishHybridMtp` makes before it looks at the store. -/
structure MtpLegal (s : Session H) (request : HybridPublishRequest H) : Prop where
  valid : s.lease.valid = true
  mode : s.lease.mode = .hybridMtp
  length : 0 < request.checkpoint.exactLength
  blocks : (request.fullBlockHashes.length : Int) =
    (request.checkpoint.exactLength - 1) / s.manager.pageSize
  snapshots : 0 ≤ request.snapshots.recurrentSnapshotSlot ∧
    request.snapshots.partialKvSnapshotSlot.isSome = true
  paths : request.fullBlockHashes.length ≤ s.lease.basePages.length ∧
    request.fullBlockHashes.length ≤ s.lease.specPages.length
  recurrent : ⟨.recurrentSnapshot, request.snapshots.recurrentSnapshotSlot⟩ ∈
    s.lease.activeResources
  partialKv : ∀ slot ∈ request.snapshots.partialKvSnapshotSlot,
    ⟨.partialKvSnapshot, slot⟩ ∈ s.lease.activeResources
  matched : matchesAcquired s.lease request.fullBlockHashes

/-- Past its own checks, `publishHybridMtp` is the checkpoint publication. -/
theorem MtpLegal.ensures (h : MtpLegal s request)
    {ok : PublishResult → Session H → Prop} {bad : Check → Session H → Prop} :
    (publishHybridMtp request).Ensures ok bad s ↔ (publishCheckpoint request
        (some ⟨s.lease.specPages.take request.fullBlockHashes.length⟩) true).Ensures ok bad s := by
  have hpaths : (request.checkpoint.exactLength - 1) / s.manager.pageSize ≤
      s.lease.basePages.length ∧
      (request.checkpoint.exactLength - 1) / s.manager.pageSize ≤ s.lease.specPages.length := by
    rw [← h.blocks]
    exact ⟨Int.ofNat_le.2 h.paths.1, Int.ofNat_le.2 h.paths.2⟩
  unfold publishHybridMtp
  simp only [ensures_bind, ensures_read, ensures_check, h.valid, h.mode,
    h.length, h.blocks, h.snapshots, hpaths, h.recurrent, h.matched, not_true_eq_false,
    false_implies, and_true, true_implies, and_self]
  exact ⟨fun hb => hb.1 h.partialKv, fun hb => ⟨fun _ => hb, fun hn => absurd h.partialKv hn⟩⟩

/-- The record of a checkpoint within the manager's state. -/
theorem validate_checkpoint_iff (h : s.Sound A) (hl : MtpLegal s request)
    {path : List PageId} (hlen : path.length = request.fullBlockHashes.length)
    (hpath : ∀ p ∈ path, 0 ≤ p) :
    validateRecord ({ checkpointRecord request
        (some ⟨s.lease.specPages.take request.fullBlockHashes.length⟩) with
        basePagePath := path } : CacheRecord H) = .ok () ↔
      s.manager.pageSize < request.checkpoint.exactLength := by
  have hP := h.manager.pageSize_pos
  have hdraft : (s.lease.specPages.take request.fullBlockHashes.length).length = path.length := by
    rw [List.length_take, hlen, Nat.min_eq_left hl.paths.2]
  have hpos : s.lease.specPages.take request.fullBlockHashes.length ≠ [] ↔
      s.manager.pageSize < request.checkpoint.exactLength := by
    have hcount : 0 < request.fullBlockHashes.length ↔
        s.manager.pageSize < request.checkpoint.exactLength := by
      have hdiv := Int.le_ediv_iff_mul_le (a := 1) (b := request.checkpoint.exactLength - 1) hP
      have hblocks := hl.blocks
      omega
    rw [← hcount, ← List.length_pos_iff, hdraft, hlen]
  have hdraftNonneg : hasNegativePage (s.lease.specPages.take request.fullBlockHashes.length) =
      false := by
    rw [hasNegativePage, List.any_eq_false]
    intro p hp
    have hpin := h.draft_pinned (List.mem_of_mem_take hp)
    have := h.manager.accounts.index_nonneg (Multiset.mem_add.2 (Or.inl hpin))
    simpa using this
  have hpathNonneg : hasNegativePage path = false := by
    rw [hasNegativePage, List.any_eq_false]
    intro p hp
    simpa using hpath p hp
  have hslot : ∀ slot ∈ request.snapshots.partialKvSnapshotSlot, 0 ≤ slot := by
    intro slot hs
    exact h.manager.accounts.index_nonneg (r := ⟨.partialKvSnapshot, slot⟩)
      (Multiset.mem_add.2 (Or.inl (Multiset.mem_add.2 (Or.inl (hl.partialKv slot hs)))))
  have hlength := hl.length
  rw [← hpos]
  constructor
  · intro hv
    exact ((validateRecord_ok hv).spec _ rfl).1
  · intro hne
    refine validateRecord_eq_ok.2 ⟨Int.natCast_nonneg _, Or.inr rfl, rfl, ?_, ?_, Or.inr hlen,
      hpathNonneg, validateSpecState_eq_ok.2 ⟨hne, hdraft, hdraftNonneg⟩, ⟨?_, hslot⟩, ?_⟩
    · rintro _ ⟨⟩
      exact ⟨hlength, rfl⟩
    · intro hnone
      cases hnone
    · rintro _ ⟨⟩
      exact hl.snapshots.1
    · rintro _ ⟨⟩
      exact hlength.le

/-- The transaction of a new checkpoint commits exactly when it is storable. -/
theorem commits_iff_storable (h : s.Sound A) (hl : MtpLegal s request)
    (hnew : s.manager.records.findHybrid request.checkpoint = none) :
    Commits s.manager (publicationOf s.manager (checkpointRecord request
      (some ⟨s.lease.specPages.take request.fullBlockHashes.length⟩)) s.lease.basePages) ↔
      Storable s.manager s.lease request := by
  have hlen := hl.paths.1
  have hpath := project_path s.manager.baseIndex hlen
  have hpages : ∀ p ∈ (project s.manager.baseIndex request.fullBlockHashes
      s.lease.basePages).canonicalPages, 0 ≤ p := by
    intro p hp
    obtain ⟨hproj, -⟩ := project_spec s.manager.baseIndex request.fullBlockHashes
      s.lease.basePages
    obtain ⟨i, hi, rfl⟩ := List.getElem_of_mem hp
    have hz : i < (((request.fullBlockHashes.zip s.lease.basePages).map Prod.fst).zip
        (project s.manager.baseIndex request.fullBlockHashes
          s.lease.basePages).canonicalPages).length := by
      rw [List.length_zip, List.length_map, ← hproj.length, min_self]
      exact hi
    have hb := hproj.blocks _ (List.getElem_mem hz)
    rw [List.getElem_zip] at hb
    refine h.manager.accounts.index_nonneg (r := ⟨.baseKvPage, _⟩) (Multiset.mem_add.2 ?_)
    rcases hb with hlook | hmiss
    · exact Or.inr (h.manager.paths.page_cached hlook)
    · exact Or.inl (h.base_pinned (List.of_mem_zip (hproj.produced _ hmiss)).2)
  have hvalid := validate_checkpoint_iff h hl (project_length hlen) hpages
  have hmaps := mappingsFit_iff h.manager.inverse request.fullBlockHashes s.lease.basePages
  have hrefs : (publicationOf s.manager (checkpointRecord request
      (some ⟨s.lease.specPages.take request.fullBlockHashes.length⟩))
      s.lease.basePages).cacheResources = checkpointResources s.manager s.lease request := by
    show CacheRecord.resources _ = _
    simp only [CacheRecord.resources, checkpointRecord, checkpointResources, specPages, hpath,
      Option.map_some, Option.getD_some, Option.toList_some, List.map_cons, List.map_nil]
  constructor
  · intro hc
    exact
      { block := hvalid.1 hc.valid
        id := hc.id
        key := hc.key
        pages := hmaps.1 hc.mappings
        refs := hrefs ▸ hc.refs }
  · intro hs
    exact
      { refs := hrefs ▸ hs.refs
        mappings := hmaps.2 hs.pages
        valid := hvalid.2 hs.block
        hybrid := hnew
        key := hs.key
        id := hs.id }

/-- A new checkpoint is published exactly when it is storable; a store that
retains records then has it, complete. -/
theorem publishHybridMtp_new (h : s.Sound A) (hl : MtpLegal s request)
    (hnew : s.manager.records.findHybrid request.checkpoint = none) :
    (publishHybridMtp request).Ensures (fun result s' => Storable s.manager s.lease request ∧
        (s.manager.records.maxRecords ≠ 0 → ∃ record,
          result.record = some s.manager.records.nextId ∧
          s'.manager.records.records.lookup s.manager.records.nextId = some record ∧
          CompleteMtp request.checkpoint request.fullBlockHashes record))
      (fun _ _ => ¬Storable s.manager s.lease request) s := by
  rw [hl.ensures, ← commits_iff_storable h hl hnew]
  unfold publishCheckpoint
  rw [ensures_bind, ensures_read, id_eq, hnew, ensures_onManager]
  have hrest : ∀ r ∈ (checkpointRecord request
      (some ⟨s.lease.specPages.take request.fullBlockHashes.length⟩)).resources,
      r.type ≠ .baseKvPage → r ∈ (↑s.lease.activeResources + A : Multiset ResourceId) := by
    rintro ⟨t, i⟩ hr ht
    cases t with
    | baseKvPage => exact absurd rfl ht
    | draftKvPage =>
      exact h.draft_pinned (List.mem_of_mem_take (CacheRecord.draft_mem_resources.1 hr))
    | recurrentSnapshot =>
      have hi := CacheRecord.recurrent_mem_resources.1 hr
      cases hi
      exact Multiset.mem_add.2 (Or.inl hl.recurrent)
    | partialKvSnapshot =>
      exact Multiset.mem_add.2
        (Or.inl (hl.partialKv i (CacheRecord.partial_mem_resources.1 hr)))
  refine (publishRecord_iff h.manager hl.paths.1 (fun p hp => h.base_pinned hp) hrest).mono ?_
    fun _ _ hbad => hbad
  rintro result m' ⟨hcommits, hkept⟩
  refine ⟨hcommits, fun hmax => ?_⟩
  obtain ⟨hresult, hlook⟩ := hkept hmax
  refine ⟨_, hresult, hlook, ?_⟩
  exact
    { key := rfl
      blocks := rfl
      draft := rfl
      partialKv := hl.snapshots.2 }

theorem publishHybridMtp_stored (h : s.Sound A) (hl : MtpLegal s request) {id : RecordId}
    (hfind : s.manager.records.findHybrid request.checkpoint = some id) :
    (publishHybridMtp request).Ensures (fun result s' => result.record = some id ∧
        s'.manager.records = s.manager.records.moveToBack id) (fun _ _ => False) s := by
  obtain ⟨record, hrecord, -⟩ := (h.manager.coherent.hybrid _ id).1 hfind
  rw [hl.ensures]
  unfold publishCheckpoint
  rw [ensures_bind, ensures_read, id_eq, hfind, ensures_onManager]
  unfold reportCheckpoint
  rw [ensures_bind, ensures_getRecord hrecord, ensures_bind, ensures_touch hrecord, ensures_pure]
  exact ⟨rfl, rfl⟩

end Session

/-! ## Over runs -/

namespace World

open ContextCacheManager

variable {w : World H} {handle : Nat} {held : Held H} {request : HybridPublishRequest H}

/-- A complete checkpoint is reused for as long as its record is stored. -/
theorem run_reuses (h : w.Sound) {checkpoint : HybridCheckpointKey H} {blockHashes : List H}
    (hpos : 0 < checkpoint.exactLength)
    (hcount : (blockHashes.length : Int) = (checkpoint.exactLength - 1) / w.manager.pageSize)
    {id : RecordId} {record : CacheRecord H}
    (hrecord : w.manager.records.records.lookup id = some record)
    (hcomplete : CompleteMtp checkpoint blockHashes record) (ops : List (Op H))
    (hstored : (run ops w).manager.records.contains id = true) :
    (run ops w).manager.Reuses checkpoint blockHashes := by
  have hfixes : w.Fixes id record :=
    { same := fun found hf => Option.some.inj (hf.symm.trans hrecord)
      used := h.manager.coherent.id_lt id record hrecord }
  obtain ⟨hsound, hsize⟩ := run_induction (P := fun w' => w'.manager.pageSize = w.manager.pageSize)
    (fun _ _ _ _ hp he => he.pageSize.trans hp) ops w h rfl
  obtain ⟨found, hfound⟩ := CacheRecordStore.contains_iff.1 hstored
  obtain rfl := (run_fixes hcomplete.draft ops w hfixes).same found hfound
  exact reuses_of_complete hsound.manager.coherent hsound.manager.pageSize_pos hpos
    (by rw [hsize]; exact hcount) hfound hcomplete

/-- The manager a publication through a handle leaves. -/
theorem call_publishHybridMtp_manager (hheld : w.leases[handle]? = some held)
    {result : PublishResult} {s' : Session H}
    (hpub : Session.publishHybridMtp request ⟨w.manager, held.lease⟩ = (.ok result, s')) :
    (call (.publishHybridMtp handle request) w).2.manager = s'.manager := by
  have hcall : (call (.publishHybridMtp handle request)).Ensures
      (fun _ w' => w'.manager = s'.manager) (fun _ _ => False) w := by
    unfold call publishOn onHandle mark
    rw [ensures_bind, ensures_bind, ensures_read, hheld, ensures_zoom]
    unfold Ensures
    rw [hpub]
    simp only [Checked.modify]
    split <;> rfl
  obtain ⟨_, w', heq, hw'⟩ := hcall.returns
  rw [heq]
  exact hw'

/-- The publication returns, and unless the store retains nothing its record
is stored; while it is, every later acquisition over an input that contains
the checkpoint reuses exactly its length. -/
def MtpPublished (w : World H) (handle : Nat) (held : Held H) (request : HybridPublishRequest H) :
    Prop :=
  ∃ result s', Session.publishHybridMtp request ⟨w.manager, held.lease⟩ = (.ok result, s') ∧
    (w.manager.records.maxRecords ≠ 0 → ∃ id, result.record = some id ∧
      s'.manager.records.contains id = true ∧
      ∀ ops w', w' = run ops (call (.publishHybridMtp handle request) w).2 →
        w'.manager.records.contains id = true →
        w'.manager.Reuses request.checkpoint request.fullBlockHashes)

/-- In every reachable state, a combined lease's publication that passes its
own checks succeeds exactly when it is publishable. -/
theorem run_publishHybridMtp_iff {pageSize maxRecords : Int} {capacities : ResourceDemand}
    {contract : Option SpecReuseContract} {m : ContextCacheManager H}
    (h : ContextCacheManager.make pageSize capacities maxRecords contract = .ok m)
    (ops : List (Op H)) (hw : w = run ops (start m)) (hheld : w.leases[handle]? = some held)
    (hl : Session.MtpLegal ⟨w.manager, held.lease⟩ request) :
    MtpPublished w handle held request ↔ Publishable w.manager held.lease request := by
  have hs : w.Sound := hw ▸ run_sound ops (start_sound h)
  have hsession := hs.session hheld
  set w1 := (call (.publishHybridMtp handle request) w).2 with hw1
  have heffect := call_effect hs (.publishHybridMtp handle request)
  have hs1 : w1.Sound := heffect.sound hs
  have hsize : w1.manager.pageSize = w.manager.pageSize := heffect.pageSize
  have hcount : (request.fullBlockHashes.length : Int) =
      (request.checkpoint.exactLength - 1) / w1.manager.pageSize := by
    rw [hsize]
    exact hl.blocks
  unfold Publishable
  cases hfind : w.manager.records.findHybrid request.checkpoint with
  | none =>
    have hnew := Session.publishHybridMtp_new hsession hl hfind
    constructor
    · rintro ⟨result, s', hpub, -⟩
      exact (hnew.of_ok hpub).1
    · intro hstorable
      rcases hpub : Session.publishHybridMtp request ⟨w.manager, held.lease⟩ with
        ⟨e | result, s'⟩
      · unfold Ensures at hnew
        rw [hpub] at hnew
        exact absurd hstorable hnew
      · refine ⟨result, s', hpub, fun hmax => ?_⟩
        obtain ⟨record, hresult, hlook, hcomplete⟩ := (hnew.of_ok hpub).2 hmax
        refine ⟨_, hresult, CacheRecordStore.contains_iff.2 ⟨record, hlook⟩, ?_⟩
        rintro ops' w' rfl hstored
        rw [← call_publishHybridMtp_manager hheld hpub] at hlook
        exact run_reuses hs1 hl.length hcount hlook hcomplete ops' hstored
  | some id =>
    have hstored := Session.publishHybridMtp_stored hsession hl hfind
    obtain ⟨record, hrecord, -⟩ := (hs.manager.coherent.hybrid _ id).1 hfind
    obtain ⟨result, s', hpub, hresult, hrecords⟩ := hstored.returns
    have hmanager := call_publishHybridMtp_manager hheld hpub
    rw [← hw1] at hmanager
    -- touching the record moved it in the LRU list only
    have hlook : w1.manager.records.records.lookup id = some record := by
      rw [hmanager, hrecords]
      exact hrecord
    constructor
    · rintro ⟨result', s'', hpub', hlater⟩
      rw [hpub] at hpub'
      cases hpub'
      have hmax : w.manager.records.maxRecords ≠ 0 := by
        have hlimit := hs.manager.limit
        have hmem := (hs.manager.coherent.lru_mem id).2 ⟨record, hrecord⟩
        have hlen := List.length_pos_of_mem hmem
        rw [hs.manager.coherent.size_eq] at hlimit
        omega
      obtain ⟨id', hid', -, hreuses⟩ := hlater hmax
      obtain rfl : id = id' := Option.some.inj (hresult.symm.trans hid')
      have hnow := hreuses [] w1 rfl (CacheRecordStore.contains_iff.2 ⟨record, hlook⟩)
      have hfind1 : w1.manager.records.findHybrid request.checkpoint = some id := by
        rw [hmanager, hrecords]
        exact hfind
      obtain ⟨plan, hplan, hreuse, -⟩ := hnow _ _ _
        (contains_next w1.manager.records hs1.manager.pageSize_pos hcount)
      exact ⟨record, hrecord, complete_of_reuse hs1.manager.coherent hs1.manager.pageSize_pos
        hl.length hcount hfind1 hlook hplan hreuse⟩
    · rintro ⟨record', hrecord', hcomplete⟩
      obtain rfl : record = record' := Option.some.inj (hrecord.symm.trans hrecord')
      refine ⟨result, s', hpub, fun _ => ⟨id, hresult, ?_, ?_⟩⟩
      · rw [← hmanager]
        exact CacheRecordStore.contains_iff.2 ⟨record, hlook⟩
      · rintro ops' w' rfl hkept
        exact run_reuses hs1 hl.length hcount hlook hcomplete ops' hkept

/-- A prompt of one page, no block to publish: both snapshots are reserved,
the publication passes its checks and the record it builds is refused. -/
theorem run_publishHybridMtp_first_page :
    ∃ (m : ContextCacheManager Nat) (held : Held Nat) (request : HybridPublishRequest Nat),
      ContextCacheManager.make 2
        { baseKvPages := 2, draftKvPages := 2, recurrentSnapshotSlots := 1
          partialKvSnapshotSlots := 1 } 1 none = .ok m ∧
      ∀ w, w = run [.acquire (.hybridMtp []) [] 2 .useCache none,
        .reserveHybridSnapshots 0 true] (start m) →
        w.leases[0]? = some held ∧ Session.MtpLegal ⟨w.manager, held.lease⟩ request ∧
        (Session.publishHybridMtp request ⟨w.manager, held.lease⟩).1 = .error .specStateEmpty ∧
        ¬MtpPublished w 0 held request := by
  let m : ContextCacheManager Nat :=
    { pageSize := 2
      pools := ⟨fun t => Pool.make ((
        { baseKvPages := 2, draftKvPages := 2, recurrentSnapshotSlots := 1
          partialKvSnapshotSlots := 1 } : ResourceDemand).get t).toNat⟩
      records := { maxRecords := 1 } }
  let held : Held Nat :=
    { lease :=
        { valid := true, mode := .hybridMtp, hybridHasAttention := true
          activeResources := [⟨.baseKvPage, 0⟩, ⟨.draftKvPage, 0⟩, ⟨.recurrentSnapshot, 0⟩,
            ⟨.partialKvSnapshot, 0⟩]
          basePages := [0], specPages := [0] } }
  refine ⟨m, held, ⟨[], ⟨7, 2⟩, ⟨0, some 0⟩⟩, rfl, fun w hw => ?_⟩
  have hheld : w.leases[0]? = some held := by
    rw [hw]
    decide +kernel
  have hthrows : (Session.publishHybridMtp ⟨[], ⟨7, 2⟩, ⟨0, some 0⟩⟩
      ⟨w.manager, held.lease⟩).1 = .error .specStateEmpty := by
    rw [hw]
    decide +kernel
  have hsize : w.manager.pageSize = 2 := by
    rw [hw]
    decide +kernel
  refine ⟨hheld, ?_, hthrows, ?_⟩
  · exact { valid := rfl, mode := rfl, length := by decide
            blocks := by rw [hsize]; decide
            snapshots := by decide, paths := by simp [held], recurrent := by simp [held]
            partialKv := by simp [held], matched := by simp [Session.matchesAcquired, held] }
  · rintro ⟨result, s', hpub, -⟩
    rw [hpub] at hthrows
    cases hthrows

/-- Three tokens over pages of two: the first block and the checkpoint are
published. -/
theorem run_publishHybridMtp_second_page :
    ∃ (m : ContextCacheManager Nat) (held : Held Nat),
      ∀ w, w = run [.acquire (.hybridMtp []) [7] 3 .useCache none,
        .reserveHybridSnapshots 0 true] (start m) →
        w.leases[0]? = some held ∧ MtpPublished w 0 held ⟨[7], ⟨9, 3⟩, ⟨0, some 0⟩⟩ := by
  let m : ContextCacheManager Nat :=
    { pageSize := 2
      pools := ⟨fun t => Pool.make ((
        { baseKvPages := 2, draftKvPages := 2, recurrentSnapshotSlots := 1
          partialKvSnapshotSlots := 1 } : ResourceDemand).get t).toNat⟩
      records := { maxRecords := 1 } }
  let held : Held Nat :=
    { lease :=
        { valid := true, mode := .hybridMtp, hybridHasAttention := true
          activeResources := [⟨.baseKvPage, 0⟩, ⟨.baseKvPage, 1⟩, ⟨.draftKvPage, 0⟩,
            ⟨.draftKvPage, 1⟩, ⟨.recurrentSnapshot, 0⟩, ⟨.partialKvSnapshot, 0⟩]
          basePages := [0, 1], specPages := [0, 1] } }
  have hmake : ContextCacheManager.make 2
      { baseKvPages := 2, draftKvPages := 2, recurrentSnapshotSlots := 1
        partialKvSnapshotSlots := 1 } 1 none = .ok m := rfl
  refine ⟨m, held, fun w hw => ?_⟩
  have hheld : w.leases[0]? = some held := by
    rw [hw]
    decide +kernel
  have hsize : w.manager.pageSize = 2 := by
    rw [hw]
    decide +kernel
  have hindex : ∀ hash, w.manager.baseIndex.lookup hash = none := by
    have hempty : w.manager.baseIndex.forward = ∅ := by
      rw [hw]
      decide +kernel
    intro hash
    simp [BaseBlockIndex.lookup, hempty]
  have hlegal : Session.MtpLegal ⟨w.manager, held.lease⟩ ⟨[7], ⟨9, 3⟩, ⟨0, some 0⟩⟩ :=
    { valid := rfl, mode := rfl, length := by decide
      blocks := by rw [hsize]; decide
      snapshots := by decide, paths := by simp [held], recurrent := by simp [held]
      partialKv := by simp [held], matched := by simp [Session.matchesAcquired, held] }
  have hfind : w.manager.records.findHybrid ⟨9, 3⟩ = none := by
    rw [hw]
    decide +kernel
  have hstorable : Storable w.manager held.lease ⟨[7], ⟨9, 3⟩, ⟨0, some 0⟩⟩ :=
    { block := by rw [hsize]; decide
      id := by rw [hw]; decide +kernel
      key := by rw [hw]; decide +kernel
      pages := by
        intro hash hash' page hpage hpage'
        simp only [canonicalPage, hindex] at hpage hpage'
        simp [held] at hpage hpage'
        omega
      refs := by
        unfold RefsFit
        rw [hw]
        decide +kernel }
  have hpublishable : Publishable w.manager held.lease ⟨[7], ⟨9, 3⟩, ⟨0, some 0⟩⟩ := by
    unfold Publishable
    rw [hfind]
    exact hstorable
  exact ⟨hheld, (run_publishHybridMtp_iff hmake _ hw hheld hlegal).2 hpublishable⟩

end World

end EdgeLLM.Ports.ContextCache
