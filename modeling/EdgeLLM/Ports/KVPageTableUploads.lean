import EdgeLLM.Ports.KVPageTable

/-!
# What the calls of a page table do

The mutators mark what they change.  An upload copies the rows, or the entries,
that are marked.
-/

namespace EdgeLLM.Ports.PageTable

open Verified Checked

namespace KVPageTable

variable {shape : Shape} {t t' : KVPageTable shape}

theorem rowElements_pos (shape : Shape) : 0 < shape.rowElements := by
  have := shape.maxPagesPerSeq_pos
  unfold Shape.rowElements
  omega

variable {i : Nat} {u : KVPageTable shape} {fault : Option CudaCall}
variable (ranges : List (Nat × Nat))

theorem row_lt (hi : i < shape.tableSize) : i / shape.rowElements < shape.maxBatch :=
  Nat.div_lt_of_lt_mul (by rwa [Nat.mul_comm])

/-! ## Change tracking -/

/-- The entries that differ from the last upload are marked, and so are their
rows; before an upload that is the table of sentinels. -/
structure Tracked (t : KVPageTable shape) : Prop where
  index : ∀ i, i ∈ t.dirtyIndices ↔ t.host i ≠ t.uploadedHost i
  row : ∀ i ∈ t.dirtyIndices, t.dirtyRows (i / shape.rowElements) = true
  blank : t.hasUploaded = false → ∀ i, t.uploadedHost i = unusedPageEntry

theorem tracked_start : Tracked ({} : KVPageTable shape) where
  index := fun i => by simp
  row := fun i hi => by cases Finset.notMem_empty i hi
  blank := fun _ _ => rfl

/-- An entry of a clean row is what was uploaded. -/
theorem Tracked.clean (h : Tracked t) (hrow : t.dirtyRows (i / shape.rowElements) = false) :
    t.host i = t.uploadedHost i := by
  by_contra hne
  have hdirty := h.row i ((h.index i).2 hne)
  rw [hrow] at hdirty
  cases hdirty

/-- `lower_bound` does not pass an element. -/
theorem lowerBound_of_mem {indices : Finset Nat} {k : Nat} (hmem : i ∈ indices) (hk : k ≤ i) :
    ∃ firstDirty, lowerBound indices k = some firstDirty ∧ firstDirty ≤ i := by
  have hlist : i ∈ indices.sort (· ≤ ·) := (Finset.mem_sort _).2 hmem
  cases hfind : lowerBound indices k with
  | none =>
    have hnone := List.find?_eq_none.1 hfind i hlist
    exact absurd (decide_eq_true hk) hnone
  | some firstDirty =>
    refine ⟨firstDirty, rfl, ?_⟩
    obtain ⟨-, before, after, hsplit, hbefore⟩ := List.find?_eq_some_iff_append.1 hfind
    have hsorted := Finset.pairwise_sort indices (· ≤ ·)
    rw [hsplit] at hlist hsorted
    rcases List.mem_append.1 hlist with hin | hin
    · have hskipped := hbefore i hin
      rw [decide_eq_true hk] at hskipped
      cases hskipped
    · rcases List.mem_cons.1 hin with heq | hin
      · exact Nat.le_of_eq heq.symm
      · exact (List.pairwise_cons.1 (List.pairwise_append.1 hsorted).2.1).1 i hin

/-- What a mutator leaves alone, and keeps. -/
structure Mutates (t t' : KVPageTable shape) : Prop where
  device : t'.device = t.device
  uploadedHost : t'.uploadedHost = t.uploadedHost
  hasUploaded : t'.hasUploaded = t.hasUploaded
  tracked : Tracked t → Tracked t'

theorem Mutates.refl (t : KVPageTable shape) : Mutates t t := ⟨rfl, rfl, rfl, id⟩

theorem Mutates.trans (h : Mutates t t') (h' : Mutates t' u) : Mutates t u :=
  ⟨h'.device.trans h.device, h'.uploadedHost.trans h.uploadedHost,
    h'.hasUploaded.trans h.hasUploaded, fun ht => h'.tracked (h.tracked ht)⟩

theorem setHostValue_mutates (t : KVPageTable shape) (index : Nat) (value : Int) :
    Mutates t (t.setHostValue index value) := by
  unfold setHostValue
  split
  · exact .refl t
  · rename_i hne
    refine ⟨rfl, rfl, rfl, fun h => ?_⟩
    -- the marks after the write, entry by entry
    have hmem : ∀ i, i ∈ (if value ≠ t.uploadedHost index then insert index t.dirtyIndices
        else t.dirtyIndices.erase index) ↔
          Function.update t.host index value i ≠ t.uploadedHost i := by
      intro i
      by_cases hi : i = index
      · rw [hi, Function.update_self]
        split <;> simp_all
      · rw [Function.update_of_ne hi, ← h.index i]
        split <;> simp [hi]
    constructor
    · exact hmem
    · intro i hi
      dsimp only at hi ⊢
      by_cases hrow : i / shape.rowElements = index / shape.rowElements
      · -- the first marked entry of the row is not behind this one
        have hlow := Nat.div_mul_le_self i shape.rowElements
        have hhigh := Nat.lt_div_mul_add (a := i) (rowElements_pos shape)
        rw [hrow] at hlow hhigh
        obtain ⟨firstDirty, hfirst, hle⟩ := lowerBound_of_mem hi hlow
        rw [hrow, Function.update_self, hfirst]
        exact decide_eq_true (by omega)
      · have hindex : i ≠ index := fun heq => hrow (by rw [heq])
        have hold := (hmem i).1 hi
        rw [Function.update_of_ne hindex] at hold
        rw [Function.update_of_ne hrow]
        exact h.row i ((h.index i).2 hold)
    · exact h.blank

theorem setMapping_mutates (t : KVPageTable shape) (slot logicalPage : Nat) (k : Int) :
    Mutates t (t.setMapping slot logicalPage k) :=
  (setHostValue_mutates t _ _).trans (setHostValue_mutates _ _ _)

/-- The sparse page sets are no part of what is uploaded. -/
theorem setActivePages_mutates (t : KVPageTable shape) (slot : Nat) (pages : Finset Int) :
    Mutates t (t.setActivePages slot pages) :=
  ⟨rfl, rfl, rfl, fun h => ⟨h.index, h.row, h.blank⟩⟩

theorem setIdentityFlag_mutates (t : KVPageTable shape) (flag : Bool) :
    Mutates t { t with isIdentity := flag } :=
  ⟨rfl, rfl, rfl, fun h => ⟨h.index, h.row, h.blank⟩⟩

theorem foldl_mutates {α : Type} {f : KVPageTable shape → α → KVPageTable shape}
    (hf : ∀ t a, Mutates t (f t a)) (xs : List α) : ∀ t, Mutates t (xs.foldl f t) := by
  induction xs with
  | nil => exact .refl
  | cons x xs ih =>
    intro t
    exact (hf t x).trans (ih (f t x))

theorem setIdentityRow_mutates (t : KVPageTable shape) (b : Nat) :
    Mutates t (t.setIdentityRow b) := by
  apply (setActivePages_mutates t b ∅).trans
  apply foldl_mutates
  intro t j
  dsimp only
  split
  · exact (setMapping_mutates t _ _ _).trans (setActivePages_mutates _ _ _)
  · exact setMapping_mutates t _ _ _

theorem writeRow_mutates (t : KVPageTable shape) (slot : Nat) (ids : List Int) :
    Mutates t (t.writeRow slot ids) :=
  foldl_mutates (fun t _ => setMapping_mutates t _ _ _) _ t

section Mutators

variable (t₀ : KVPageTable shape)

/-- A step that mutates keeps what holds since `t₀`. -/
theorem keeps_mutates {f : KVPageTable shape → KVPageTable shape} (hf : ∀ t, Mutates t (f t)) :
    Keeps (Mutates t₀) (Checked.modify f : Checked String (KVPageTable shape) Unit) :=
  Keeps.modify fun t h => h.trans (hf t)

theorem keeps_setIdentity : Keeps (Mutates t₀) setIdentity := by
  unfold setIdentity
  apply Keeps.checked
  apply keeps_mutates
  intro t
  exact (foldl_mutates setIdentityRow_mutates _ t).trans (setIdentityFlag_mutates _ true)

theorem keeps_setRow (slot : Int) (kPageIds : Option (Nat → Int)) (count : Int) :
    Keeps (Mutates t₀) (setRow slot kPageIds count) := by
  unfold setRow
  iterate 3 apply Keeps.checked
  apply Keeps.bind (keeps_ofExcept _)
  intro sparsePages
  apply keeps_mutates
  intro t
  have hrow := (setIdentityFlag_mutates t false).trans
    (writeRow_mutates _ slot.toNat (rowIds kPageIds count))
  dsimp only
  split
  · exact hrow.trans (setActivePages_mutates _ _ _)
  · exact hrow

theorem keeps_setRows (updates : List KVPageTableRowUpdate) :
    Keeps (Mutates t₀) (setRows updates) := by
  apply Keeps.bind (keeps_ofExcept _)
  intro _
  apply Keeps.forEach
  intro update
  exact keeps_setRow t₀ _ _ _

theorem keeps_claimSparsePage (slot : Nat) (oldPageId kPageId : Int) :
    Keeps (Mutates t₀) (claimSparsePage slot oldPageId kPageId) := by
  apply Keeps.ite
  · apply Keeps.bind (keeps_read _)
    intro activePages
    apply Keeps.checked
    exact keeps_mutates t₀ fun t => setActivePages_mutates t _ _
  · exact keeps_pure _

theorem keeps_setEntry (slot logicalPage kPageId : Int) :
    Keeps (Mutates t₀) (setEntry slot logicalPage kPageId) := by
  unfold setEntry
  iterate 3 apply Keeps.checked
  apply Keeps.bind (keeps_mutates t₀ fun t => setIdentityFlag_mutates t false)
  intro _
  apply Keeps.bind (keeps_read _)
  intro oldPageId
  apply Keeps.bind (keeps_claimSparsePage t₀ _ _ _)
  intro _
  exact keeps_mutates t₀ fun t => setMapping_mutates t _ _ _

theorem keeps_clearEntry (slot logicalPage : Int) :
    Keeps (Mutates t₀) (clearEntry slot logicalPage) := by
  unfold clearEntry
  iterate 2 apply Keeps.checked
  apply keeps_mutates
  intro t
  have hflag := setIdentityFlag_mutates t false
  dsimp only
  split
  · exact (hflag.trans (setActivePages_mutates _ _ _)).trans (setMapping_mutates _ _ _ _)
  · exact hflag.trans (setMapping_mutates _ _ _ _)

end Mutators

/-! ## What an upload copies -/

/-- The CUDA calls change the device and the staging only. -/
structure Kept (t t' : KVPageTable shape) : Prop where
  host : t'.host = t.host
  uploadedHost : t'.uploadedHost = t.uploadedHost
  dirtyIndices : t'.dirtyIndices = t.dirtyIndices
  dirtyRows : t'.dirtyRows = t.dirtyRows
  hasUploaded : t'.hasUploaded = t.hasUploaded

theorem Kept.refl (t : KVPageTable shape) : Kept t t := ⟨rfl, rfl, rfl, rfl, rfl⟩

theorem Kept.trans (h : Kept t t') (h' : Kept t' u) : Kept t u :=
  ⟨h'.host.trans h.host, h'.uploadedHost.trans h.uploadedHost,
    h'.dirtyIndices.trans h.dirtyIndices, h'.dirtyRows.trans h.dirtyRows,
    h'.hasUploaded.trans h.hasUploaded⟩

theorem kept_copyToDevice (first last : Nat) (t : KVPageTable shape) :
    Kept t (copyToDevice first last t) := ⟨rfl, rfl, rfl, rfl, rfl⟩

theorem kept_stage (first last : Nat) (t : KVPageTable shape) : Kept t (stage first last t) :=
  ⟨rfl, rfl, rfl, rfl, rfl⟩

theorem Kept.tracked (h : Kept t t') (ht : Tracked t) : Tracked t' := by
  constructor
  · rw [h.dirtyIndices, h.host, h.uploadedHost]
    exact ht.index
  · rw [h.dirtyIndices, h.dirtyRows]
    exact ht.row
  · rw [h.hasUploaded, h.uploadedHost]
    exact ht.blank

/-- What holds of a table whose upload threw; without a fault nothing has changed. -/
def Thrown (fault : Option CudaCall) (t t' : KVPageTable shape) : Prop :=
  Tracked t' ∧ (fault = none → t' = t)

theorem Kept.thrown (h : Kept t t') (ht : Tracked t) (hfault : fault ≠ none) : Thrown fault t t' :=
  ⟨h.tracked ht, fun hnone => absurd hnone hfault⟩

theorem ensures_cudaCheck {call : CudaCall} {effect : KVPageTable shape → KVPageTable shape}
    {ok : Unit → KVPageTable shape → Prop} {bad : String → KVPageTable shape → Prop}
    (hok : ok ⟨⟩ (effect t)) (hbad : fault ≠ none → bad "CUDA runtime error" t) :
    Ensures (cudaCheck fault call effect) ok bad t := by
  unfold cudaCheck
  rw [ensures_bind, ensures_check]
  refine ⟨fun _ => hok, fun hfails => hbad ?_⟩
  intro hnone
  rw [hnone] at hfails
  apply hfails
  intro heq
  cases heq

theorem awaitPending_spec (fault : Option CudaCall) (t : KVPageTable shape) :
    Ensures (awaitPending fault) (fun _ t' => Kept t t' ∧ t'.device = t.device)
      (fun _ t' => Kept t t' ∧ fault ≠ none) t := by
  unfold awaitPending
  rw [ensures_bind, ensures_read, ensures_ite]
  constructor
  · intro _
    apply ensures_cudaCheck
    · exact ⟨⟨rfl, rfl, rfl, rfl, rfl⟩, rfl⟩
    · exact fun hfault => ⟨.refl t, hfault⟩
  · intro _
    exact ⟨.refl t, rfl⟩

section Copied

variable {ι α : Type} {inside : ι → Nat → Prop} {range : ι} {rest : List ι}
  {source before mid after : Nat → α}

/-- A copy of `range`, then copies of the ranges in `rest`. -/
theorem copied_cons (hcopied : ∀ i, inside range i → mid i = source i)
    (helse : ∀ i, ¬inside range i → mid i = before i)
    (hin : ∀ i, (∃ r ∈ rest, inside r i) → after i = source i)
    (hout : ∀ i, (¬∃ r ∈ rest, inside r i) → after i = mid i) :
    (∀ i, (∃ r ∈ range :: rest, inside r i) → after i = source i) ∧
      ∀ i, (¬∃ r ∈ range :: rest, inside r i) → after i = before i := by
  constructor
  · intro i hi
    by_cases hlater : ∃ r ∈ rest, inside r i
    · exact hin i hlater
    · obtain ⟨other, hother, hinside⟩ := hi
      rcases List.mem_cons.1 hother with rfl | hrest
      · rw [hout i hlater, hcopied i hinside]
      · exact absurd ⟨other, hrest, hinside⟩ hlater
  · intro i hi
    have hlater : ¬∃ r ∈ rest, inside r i := by
      rintro ⟨other, hother, hinside⟩
      exact hi ⟨other, List.mem_cons_of_mem _ hother, hinside⟩
    rw [hout i hlater, helse i fun hinside => hi ⟨range, List.mem_cons_self, hinside⟩]

end Copied

/-- After the copies the device holds the host's entries in the ranges, and what
it held elsewhere. -/
def CopiedWhere (copied : Nat → Prop) (t t' : KVPageTable shape) : Prop :=
  Kept t t' ∧ (∀ i, copied i → t'.device i = some (t.host i)) ∧
    ∀ i, ¬copied i → t'.device i = t.device i

theorem copyRows_spec (fault : Option CudaCall) (ranges : List (Nat × Nat)) :
    ∀ (call : Nat) (t : KVPageTable shape), Ensures (copyRows fault call ranges)
        (fun _ t' => CopiedWhere (fun i => ∃ range ∈ ranges,
          shape.rowOffset range.1 ≤ i ∧ i < shape.rowOffset range.2) t t')
        (fun _ t' => Kept t t' ∧ fault ≠ none) t := by
  induction ranges with
  | nil =>
    intro call t
    refine ⟨.refl t, ?_, fun i _ => rfl⟩
    intro i hin
    simp at hin
  | cons range rest ih =>
    intro call t
    unfold copyRows
    rw [ensures_bind, ensures_modify, ensures_bind]
    apply ensures_cudaCheck
    · apply (ih (call + 1) _).mono
      · rintro - t' ⟨hkept, hin, hout⟩
        refine ⟨((kept_stage _ _ t).trans (kept_copyToDevice _ _ _)).trans hkept, copied_cons ?_ ?_ hin hout⟩
        · intro i hhere
          simp only [copyToDevice, stage, if_pos hhere]
        · intro i hhere
          simp only [copyToDevice, stage, if_neg hhere]
      · rintro - t' ⟨hkept, hfault⟩
        exact ⟨((kept_stage _ _ t).trans (kept_copyToDevice _ _ _)).trans hkept, hfault⟩
    · exact fun hfault => ⟨⟨rfl, rfl, rfl, rfl, rfl⟩, hfault⟩

theorem mem_dirtyRanges (t : KVPageTable shape) (hi : i < shape.tableSize) :
    (∃ range ∈ t.dirtyRanges, shape.rowOffset range.1 ≤ i ∧ i < shape.rowOffset range.2) ↔
      t.dirtyRows (i / shape.rowElements) = true := by
  have hpos := rowElements_pos shape
  have hrow : ∀ range : Nat × Nat, (shape.rowOffset range.1 ≤ i ∧ i < shape.rowOffset range.2) ↔
      (range.1 ≤ i / shape.rowElements ∧ i / shape.rowElements < range.2) := by
    intro range
    rw [Nat.le_div_iff_mul_le hpos, Nat.div_lt_iff_lt_mul hpos]
    rfl
  simp only [hrow, dirtyRanges]
  rw [mem_coalesce, List.mem_filter, List.mem_range]
  exact and_iff_right (row_lt hi)

/-- What `upload` has done when it returns. -/
structure UploadSpec (t t' : KVPageTable shape) : Prop where
  tracked : Tracked t'
  host : t'.host = t.host
  copied : ∀ i, i < shape.tableSize → t.dirtyRows (i / shape.rowElements) = true →
    t'.device i = some (t.host i)
  rest : ∀ i, i < shape.tableSize → t.dirtyRows (i / shape.rowElements) = false →
    t'.device i = t.device i
  uploaded : t' = t ∧ (∀ b, b < shape.maxBatch → t.dirtyRows b = false) ∨
    t'.hasUploaded = true ∧ t'.uploadedHost = t.host

theorem commitRows_tracked (t : KVPageTable shape) : Tracked (t.commitRows ranges) where
  index := fun i => by simp [commitRows]
  row := fun i hi => by cases Finset.notMem_empty i hi
  blank := fun h => by cases h

theorem upload_spec (fault : Option CudaCall) (ht : Tracked t) :
    Ensures (upload fault) (fun _ t' => UploadSpec t t') (fun _ t' => Thrown fault t t') t := by
  unfold upload
  rw [ensures_bind, ensures_read, ensures_ite]
  constructor
  · intro hnone
    have hclean : ∀ b, b < shape.maxBatch → t.dirtyRows b = false := by
      intro b hb
      rw [Bool.not_eq_true', List.any_eq_false] at hnone
      exact Bool.eq_false_iff.2 (hnone b (List.mem_range.2 hb))
    refine ⟨ht, rfl, ?_, fun i _ _ => rfl, Or.inl ⟨rfl, hclean⟩⟩
    intro i hi hdirty
    rw [hclean _ (row_lt hi)] at hdirty
    cases hdirty
  · intro _
    rw [ensures_bind, ensures_read, ensures_bind, ensures_check]
    refine ⟨fun _ => ?_, fun _ => ⟨ht, fun _ => rfl⟩⟩
    apply Ensures.bind ((awaitPending_spec fault t).mono (fun _ _ h => h)
      fun _ _ h => h.1.thrown ht h.2)
    rintro - t₁ ⟨hawait, hdevice⟩
    rw [ensures_bind, ensures_read]
    apply Ensures.bind ((copyRows_spec fault t₁.dirtyRanges 0 t₁).mono (fun _ _ h => h)
      fun _ _ h => (hawait.trans h.1).thrown ht h.2)
    rintro - t₂ ⟨hkept, hin, hout⟩
    have hkept₂ := hawait.trans hkept
    rw [ensures_bind]
    apply ensures_cudaCheck
    · rw [ensures_bind, ensures_modify]
      refine ⟨commitRows_tracked _ _, hkept₂.host, ?_, ?_, Or.inr ⟨rfl, hkept₂.host⟩⟩
      · intro i hi hdirty
        rw [← hawait.dirtyRows] at hdirty
        rw [← hawait.host]
        exact hin i ((mem_dirtyRanges t₁ hi).2 hdirty)
      · intro i hi hclean
        rw [← hawait.dirtyRows] at hclean
        rw [← hdevice]
        apply hout i
        intro hrange
        have hdirty := (mem_dirtyRanges t₁ hi).1 hrange
        rw [hclean] at hdirty
        cases hdirty
    · exact hkept₂.thrown ht

theorem copyEntries_spec (fault : Option CudaCall) (ranges : List (Nat × Nat)) :
    ∀ (call : Nat) (t : KVPageTable shape), Ensures (copyEntries fault call ranges)
        (fun _ t' => Kept t t' ∧
          (∀ i, (∃ range ∈ ranges, range.1 ≤ i ∧ i < range.2) → t'.device i = t.uploadStaging i) ∧
          ∀ i, (¬∃ range ∈ ranges, range.1 ≤ i ∧ i < range.2) → t'.device i = t.device i)
        (fun _ t' => Kept t t' ∧ fault ≠ none) t := by
  induction ranges with
  | nil =>
    intro call t
    refine ⟨.refl t, ?_, fun i _ => rfl⟩
    intro i hin
    simp at hin
  | cons range rest ih =>
    intro call t
    unfold copyEntries
    rw [ensures_bind]
    apply ensures_cudaCheck
    · apply (ih (call + 1) _).mono
      · rintro - t' ⟨hkept, hin, hout⟩
        exact ⟨(kept_copyToDevice _ _ t).trans hkept,
          copied_cons (fun i hhere => if_pos hhere) (fun i hhere => if_neg hhere) hin hout⟩
      · rintro - t' ⟨hkept, hfault⟩
        exact ⟨(kept_copyToDevice _ _ t).trans hkept, hfault⟩
    · exact fun hfault => ⟨.refl t, hfault⟩

theorem prepareDevice_spec (fault : Option CudaCall) (initializeDevice : Bool)
    (t : KVPageTable shape) : Ensures (prepareDevice fault initializeDevice)
      (fun _ t' => Kept t t' ∧ ∀ i, i < shape.tableSize →
        t'.device i = if initializeDevice then some unusedPageEntry else t.device i)
      (fun _ t' => Kept t t' ∧ fault ≠ none) t := by
  unfold prepareDevice
  rw [ensures_ite]
  constructor
  · intro hinit
    apply ensures_cudaCheck
    · refine ⟨⟨rfl, rfl, rfl, rfl, rfl⟩, ?_⟩
      intro i hi
      rw [if_pos hinit]
      exact if_pos hi
    · exact fun hfault => ⟨.refl t, hfault⟩
  · intro hinit
    refine ⟨.refl t, ?_⟩
    intro i _
    rw [if_neg hinit]

theorem mem_dirtyEntryRanges (t : KVPageTable shape) :
    (∃ range ∈ t.dirtyEntryRanges, range.1 ≤ i ∧ i < range.2) ↔ i ∈ t.dirtyIndices := by
  unfold dirtyEntryRanges
  rw [mem_coalesce, Finset.mem_sort]

/-- What `uploadDirty` has done when it returns. -/
structure UploadDirtySpec (t t' : KVPageTable shape) : Prop where
  tracked : Tracked t'
  host : t'.host = t.host
  copied : ∀ i, i ∈ t.dirtyIndices → t'.device i = some (t.host i)
  rest : ∀ i, i < shape.tableSize → i ∉ t.dirtyIndices →
    t'.device i = if t.hasUploaded then t.device i else some unusedPageEntry
  hasUploaded : t'.hasUploaded = true
  uploadedHost : t'.uploadedHost = t.host

/-- Recording the changed entries brings the image up to date. -/
theorem commitEntries_uploadedHost (ht : Tracked t) :
    (t.commitEntries ranges).uploadedHost = t.host := by
  funext i
  show (if i ∈ t.dirtyIndices then t.host i else t.uploadedHost i) = t.host i
  split
  · rfl
  · rename_i hclean
    rw [ht.index i, ne_eq, not_not] at hclean
    exact hclean.symm

theorem commitEntries_tracked (ht : Tracked t) : Tracked (t.commitEntries ranges) := by
  constructor
  · intro i
    rw [commitEntries_uploadedHost ranges ht]
    exact iff_of_false (Finset.notMem_empty i) fun hne => hne rfl
  · intro i hi
    cases Finset.notMem_empty i hi
  · intro h
    cases h

theorem uploadChanges_spec (fault : Option CudaCall) (ht : Tracked t) :
    Ensures (uploadChanges fault (!t.hasUploaded)) (fun _ t' => UploadDirtySpec t t')
      (fun _ t' => Thrown fault t t') t := by
  unfold uploadChanges
  apply Ensures.bind ((awaitPending_spec fault t).mono (fun _ _ h => h)
    fun _ _ h => h.1.thrown ht h.2)
  rintro - t₁ ⟨hkept₁, hdevice₁⟩
  apply Ensures.bind ((prepareDevice_spec fault (!t.hasUploaded) t₁).mono
    (fun _ _ h => h) fun _ _ h => (hkept₁.trans h.1).thrown ht h.2)
  rintro - t₂ ⟨hkept, hdevice₂⟩
  have hkept₂ := hkept₁.trans hkept
  rw [ensures_bind, ensures_modify, ensures_bind, ensures_read]
  have hstaged : Kept t t₂.stageDirty :=
    hkept₂.trans ⟨rfl, rfl, rfl, rfl, rfl⟩
  apply Ensures.bind ((copyEntries_spec fault t₂.stageDirty.dirtyEntryRanges 0
    t₂.stageDirty).mono (fun _ _ h => h) fun _ _ h => (hstaged.trans h.1).thrown ht h.2)
  rintro - t₃ ⟨hkept₃, hin, hout⟩
  have hall := hstaged.trans hkept₃
  have htracked₃ := hall.tracked ht
  rw [ensures_bind, ensures_modify]
  have hspec : UploadDirtySpec t (t₃.commitEntries t₂.stageDirty.dirtyEntryRanges) := by
    refine ⟨commitEntries_tracked _ htracked₃, hall.host, ?_, ?_, rfl, ?_⟩
    · intro i hi
      rw [← hkept₂.dirtyIndices] at hi
      show t₃.device i = some (t.host i)
      rw [hin i ((mem_dirtyEntryRanges _).2 hi), ← hkept₂.host]
      exact if_pos hi
    · intro i hi hclean
      rw [← hkept₂.dirtyIndices] at hclean
      have hdevice := hdevice₂ i hi
      show t₃.device i = _
      rw [hout i fun hrange => hclean ((mem_dirtyEntryRanges _).1 hrange)]
      show t₂.device i = _
      rw [hdevice, hdevice₁]
      cases t.hasUploaded <;> rfl
    · rw [commitEntries_uploadedHost _ htracked₃, hall.host]
  rw [ensures_ite]
  constructor
  · intro _
    apply ensures_cudaCheck
    · exact ⟨⟨hspec.tracked.index, hspec.tracked.row, hspec.tracked.blank⟩, hspec.host,
        hspec.copied, hspec.rest, rfl, hspec.uploadedHost⟩
    · exact fun hfault => ⟨hspec.tracked, fun hnone => absurd hnone hfault⟩
  · intro _
    exact hspec

theorem uploadDirty_spec (fault : Option CudaCall) (ht : Tracked t) :
    Ensures (uploadDirty fault) (fun _ t' => UploadDirtySpec t t')
      (fun _ t' => Thrown fault t t') t := by
  unfold uploadDirty checkDense
  rw [ensures_bind, ensures_bind, ensures_read, ensures_ite]
  have hrest : Ensures (do
      let initializeDevice ← Checked.read fun t : KVPageTable shape => !t.hasUploaded
      let nothingDirty ← Checked.read fun t => decide (t.dirtyIndices = ∅)
      if !initializeDevice && nothingDirty then
        Checked.modify fun t => { t with lastUploadEntryCount := 0, lastUploadRangeCount := 0 }
      else uploadChanges fault initializeDevice) (fun _ t' => UploadDirtySpec t t')
      (fun _ t' => Thrown fault t t') t := by
    rw [ensures_bind, ensures_read, ensures_bind, ensures_read, ensures_ite]
    constructor
    · intro hnothing
      rw [Bool.not_not, Bool.and_eq_true, decide_eq_true_iff] at hnothing
      have hsame : t.host = t.uploadedHost := by
        funext i
        by_contra hne
        have hmem := (ht.index i).2 hne
        rw [hnothing.2] at hmem
        exact Finset.notMem_empty i hmem
      refine ⟨⟨ht.index, ht.row, ht.blank⟩, rfl, ?_, ?_, hnothing.1, hsame.symm⟩
      · intro i hi
        rw [hnothing.2] at hi
        cases Finset.notMem_empty i hi
      · intro i _ _
        rw [if_pos hnothing.1]
    · intro _
      exact uploadChanges_spec fault ht
  constructor
  · intro _
    rw [ensures_check]
    exact ⟨fun _ => hrest, fun _ => ⟨ht, fun _ => rfl⟩⟩
  · intro _
    exact hrest

end KVPageTable

end EdgeLLM.Ports.PageTable
