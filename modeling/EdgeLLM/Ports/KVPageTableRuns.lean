import EdgeLLM.Ports.KVPageTableUploads

/-!
# When an upload leaves the device equal to the host

What an upload does not copy must be on the device already.  A row that was
changed and changed back before the first upload is marked clean, although
nothing has been copied to it.
-/

namespace EdgeLLM.Ports.PageTable

open Verified Checked

namespace KVPageTable

variable {shape : Shape} {t : KVPageTable shape}

/-- The device is not known to hold the entry that was last uploaded. -/
def Stale (t : KVPageTable shape) (i : Nat) : Prop := t.device i ≠ some (t.uploadedHost i)

/-- Every entry that may be stale is marked for the upload.  The first `uploadDirty`
clears the device itself. -/
def Call.Covers (t : KVPageTable shape) : Call → Prop
  | .upload _ => ∀ i, i < shape.tableSize → t.Stale i →
      t.dirtyRows (i / shape.rowElements) = true
  | .uploadDirty _ => t.hasUploaded = true → ∀ i, i < shape.tableSize → t.Stale i →
      i ∈ t.dirtyIndices
  | _ => True

def Call.isUpload : Call → Bool
  | .upload _ | .uploadDirty _ => true
  | _ => false

/-- No CUDA call fails. -/
def Call.faultless : Call → Bool
  | .upload fault | .uploadDirty fault => fault.isNone
  | _ => true

/-- The call does not throw. -/
def Call.returns (t : KVPageTable shape) (call : Call) : Prop :=
  (call.perform shape t).1 = .ok ()

instance (t : KVPageTable shape) (call : Call) : Decidable (call.returns t) :=
  decidable_of_iff ((call.perform shape t).1.isOk = true) (by
    unfold Call.returns
    cases (call.perform shape t).1 <;> simp [Except.isOk, Except.toBool])

/-- The device holds the host's table, whatever the storage held at first. -/
def Synced (t : KVPageTable shape) : Prop :=
  ∀ (storage : Nat → Int) (i : Nat), i < shape.tableSize → t.kernelView storage i = t.host i

theorem synced_iff : t.Synced ↔ ∀ i, i < shape.tableSize → t.device i = some (t.host i) := by
  constructor
  · intro h i hi
    cases hdevice : t.device i with
    | none =>
      -- some content of the storage differs
      have hview := h (fun _ => t.host i + 1) i hi
      rw [kernelView, hdevice, Option.getD_none] at hview
      omega
    | some v =>
      have hview := h (fun _ => 0) i hi
      rw [kernelView, hdevice, Option.getD_some] at hview
      rw [hview]
  · intro h storage i hi
    rw [kernelView, h i hi, Option.getD_some]

theorem run_append (calls : List Call) (call : Call) :
    run shape (calls ++ [call]) = (call.perform shape (run shape calls)).2 := by
  unfold run
  rw [List.foldl_append]
  rfl

theorem perform_mutates {call : Call} (hcall : call.isUpload = false) (t : KVPageTable shape) :
    Mutates t (call.perform shape t).2 := by
  cases call with
  | setIdentity => exact (keeps_setIdentity t).state (.refl t)
  | setRow slot kPageIds count => exact (keeps_setRow t slot kPageIds count).state (.refl t)
  | setRows updates => exact (keeps_setRows t updates).state (.refl t)
  | setEntry slot logicalPage kPageId =>
    exact (keeps_setEntry t slot logicalPage kPageId).state (.refl t)
  | clearEntry slot logicalPage => exact (keeps_clearEntry t slot logicalPage).state (.refl t)
  | upload fault => cases hcall
  | uploadDirty fault => cases hcall

theorem perform_upload (fault : Option CudaCall) (ht : Tracked t) :
    Ensures (Call.perform shape (.upload fault)) (fun _ t' => UploadSpec t t')
      (fun _ t' => Thrown fault t t') t := by
  unfold Call.perform
  rw [ensures_bind]
  exact upload_spec fault ht

theorem perform_tracked (call : Call) (ht : Tracked t) : Tracked (call.perform shape t).2 := by
  have hkept : ∀ m : Checked String (KVPageTable shape) Unit,
      Ensures m (fun _ t' => Tracked t') (fun _ t' => Tracked t') t → Tracked (m t).2 := by
    intro m hm
    unfold Ensures at hm
    split at hm <;> simp_all
  cases call with
  | upload fault =>
    apply hkept
    exact (perform_upload fault ht).mono (fun _ _ h => h.tracked) fun _ _ h => h.1
  | uploadDirty fault =>
    apply hkept
    exact (uploadDirty_spec fault ht).mono (fun _ _ h => h.tracked) fun _ _ h => h.1
  | setIdentity => exact (perform_mutates rfl t).tracked ht
  | setRow slot kPageIds count => exact (perform_mutates rfl t).tracked ht
  | setRows updates => exact (perform_mutates rfl t).tracked ht
  | setEntry slot logicalPage kPageId => exact (perform_mutates rfl t).tracked ht
  | clearEntry slot logicalPage => exact (perform_mutates rfl t).tracked ht

theorem run_tracked (calls : List Call) : Tracked (run shape calls) := by
  induction calls using List.reverseRecOn with
  | nil => exact tracked_start
  | append_singleton calls call ih =>
    rw [run_append]
    exact perform_tracked call ih

/-- After any calls, failed ones and CUDA faults included, the marked entries are those that
differ from the last upload, and their rows are marked. -/
theorem dirty_run (shape : Shape) (calls : List Call) :
    let t := run shape calls
    (∀ i, i ∈ t.dirtyIndices ↔ t.host i ≠ t.uploadedHost i) ∧
      ∀ i ∈ t.dirtyIndices, t.dirtyRows (i / shape.rowElements) = true :=
  ⟨(run_tracked calls).index, (run_tracked calls).row⟩

/-- An upload that returns leaves the device synced exactly when it covers what
may be stale. -/
theorem perform_synced {call : Call} (ht : Tracked t) (hcall : call.isUpload = true)
    (hreturns : call.returns t) : (call.perform shape t).2.Synced ↔ call.Covers t := by
  have hresult : call.perform shape t = (.ok (), (call.perform shape t).2) := by
    rw [← hreturns]
  rw [synced_iff]
  cases call with
  | upload fault =>
    have hspec := (perform_upload fault ht).of_ok hresult
    rw [hspec.host]
    apply forall_congr'
    intro i
    apply imp_congr_right
    intro hi
    cases hrow : t.dirtyRows (i / shape.rowElements) with
    | true => exact iff_of_true (hspec.copied i hi hrow) fun _ => rfl
    | false =>
      rw [hspec.rest i hi hrow, ht.clean hrow]
      simp [Stale]
  | uploadDirty fault =>
    have hspec := (uploadDirty_spec fault ht).of_ok hresult
    rw [hspec.host]
    constructor
    · intro hsynced huploaded i hi hstale
      by_contra hclean
      have hsame := (ht.index i).not.1 hclean
      rw [ne_eq, not_not] at hsame
      have hdevice := hspec.rest i hi hclean
      rw [if_pos huploaded, hsynced i hi, hsame] at hdevice
      exact hstale hdevice.symm
    · intro hcovers i hi
      by_cases hdirty : i ∈ t.dirtyIndices
      · exact hspec.copied i hdirty
      · have hsame := (ht.index i).not.1 hdirty
        rw [ne_eq, not_not] at hsame
        rw [hspec.rest i hi hdirty, hsame]
        split
        · rename_i huploaded
          by_contra hstale
          exact hdirty (hcovers huploaded i hi hstale)
        · rename_i hfirst
          rw [Bool.not_eq_true] at hfirst
          rw [ht.blank hfirst i]
  | setIdentity => cases hcall
  | setRow slot kPageIds count => cases hcall
  | setRows updates => cases hcall
  | setEntry slot logicalPage kPageId => cases hcall
  | clearEntry slot logicalPage => cases hcall

/-- A property of every upload that returns, and of the table it finds. -/
def AtUploads (shape : Shape) (calls : List Call) (p : Call → KVPageTable shape → Prop) : Prop :=
  ∀ done call rest, calls = done ++ call :: rest → call.isUpload = true →
    call.returns (run shape done) → p call (run shape done)

/-- An upload before the first one that has succeeded finds every row dirty. -/
def Call.AllDirty (t : KVPageTable shape) : Call → Prop
  | .upload _ => t.hasUploaded = true ∨ ∀ b, b < shape.maxBatch → t.dirtyRows b = true
  | _ => True

/-- Without faults the device holds nothing before the first upload, and then
what was last uploaded. -/
structure Mirrored (t : KVPageTable shape) : Prop where
  before : t.hasUploaded = false → ∀ i, t.device i = none
  after : t.hasUploaded = true → ∀ i, i < shape.tableSize → t.device i = some (t.uploadedHost i)

theorem Mirrored.covers_iff (h : Mirrored t) (call : Call) : call.Covers t ↔ call.AllDirty t := by
  cases huploaded : t.hasUploaded with
  | true =>
    have hfresh : ∀ i, i < shape.tableSize → ¬t.Stale i :=
      fun i hi hstale => hstale (h.after huploaded i hi)
    cases call with
    | upload fault => exact iff_of_true (fun i hi hs => absurd hs (hfresh i hi)) (Or.inl huploaded)
    | uploadDirty fault => exact iff_of_true (fun _ i hi hs => absurd hs (hfresh i hi)) trivial
    | _ => exact Iff.rfl
  | false =>
    have hstale : ∀ i, t.Stale i := by
      intro i
      rw [Stale, h.before huploaded i]
      exact nofun
    cases call with
    | upload fault =>
      have hpos := rowElements_pos shape
      constructor
      · intro hcovers
        apply Or.inr
        intro b hb
        -- the first entry of the row
        have hfirst := hcovers (b * shape.rowElements)
          (Nat.mul_lt_mul_of_pos_right hb hpos) (hstale _)
        rwa [Nat.mul_div_cancel b hpos] at hfirst
      · intro hall i hi _
        rcases hall with hdone | hall
        · rw [huploaded] at hdone
          cases hdone
        · exact hall _ (row_lt hi)
    | uploadDirty fault =>
      apply iff_of_true _ trivial
      intro hdone
      rw [huploaded] at hdone
      cases hdone
    | _ => exact Iff.rfl

/-- A synced upload leaves what it uploaded on the device. -/
theorem perform_mirrored {call : Call} (ht : Tracked t) (h : Mirrored t)
    (hfaultless : call.faultless = true)
    (hcovers : call.isUpload = true → call.returns t → call.Covers t) :
    Mirrored (call.perform shape t).2 := by
  cases hcall : call.isUpload with
  | false =>
    have hframe := perform_mutates hcall t
    constructor
    · rw [hframe.hasUploaded, hframe.device]
      exact h.before
    · rw [hframe.hasUploaded, hframe.device, hframe.uploadedHost]
      exact h.after
  | true =>
    have hsync : call.returns t → ∀ i, i < shape.tableSize → (call.perform shape t).2.device i =
          some ((call.perform shape t).2.host i) := fun hreturns =>
      synced_iff.1 ((perform_synced ht hcall hreturns).2 (hcovers hcall hreturns))
    cases call with
    | upload fault =>
      cases Option.isNone_iff_eq_none.1 hfaultless
      have hspec := perform_upload none ht
      cases hresult : Call.perform shape (.upload none) t with
      | mk result t' =>
        rw [Call.returns, hresult] at hsync
        unfold Ensures at hspec
        rw [hresult] at hspec
        cases result with
        | error e => exact hspec.2 rfl ▸ h
        | ok u =>
          rcases hspec.uploaded with ⟨hsame, -⟩ | ⟨hdone, himage⟩
          · exact hsame ▸ h
          · constructor
            · intro hnot
              rw [show t'.hasUploaded = true from hdone] at hnot
              cases hnot
            · intro _ i hi
              rw [show t'.uploadedHost = t.host from himage, ← hspec.host]
              exact hsync rfl i hi
    | uploadDirty fault =>
      cases Option.isNone_iff_eq_none.1 hfaultless
      have hspec := uploadDirty_spec none ht
      cases hresult : uploadDirty none t with
      | mk result t' =>
        have hperform : Call.perform shape (.uploadDirty none) t = (result, t') := hresult
        rw [Call.returns, hperform] at hsync
        rw [hperform]
        unfold Ensures at hspec
        rw [hresult] at hspec
        cases result with
        | error e => exact hspec.2 rfl ▸ h
        | ok u =>
          constructor
          · intro hnot
            rw [show t'.hasUploaded = true from hspec.hasUploaded] at hnot
            cases hnot
          · intro _ i hi
            rw [show t'.uploadedHost = t.host from hspec.uploadedHost, ← hspec.host]
            exact hsync rfl i hi
    | setIdentity => cases hcall
    | setRow slot kPageIds count => cases hcall
    | setRows updates => cases hcall
    | setEntry slot logicalPage kPageId => cases hcall
    | clearEntry slot logicalPage => cases hcall

/-- A run without faults in which every upload finds what it needs. -/
theorem run_mirrored (calls : List Call) (hfaultless : ∀ call ∈ calls, call.faultless = true)
    {p : Call → KVPageTable shape → Prop}
    (hp : ∀ call t, Mirrored t → p call t → call.Covers t) (hall : AtUploads shape calls p) :
    Mirrored (run shape calls) := by
  induction calls using List.reverseRecOn with
  | nil => exact ⟨fun _ _ => rfl, fun h => by cases h⟩
  | append_singleton calls call ih =>
    have hbefore := ih
      (fun c hc => hfaultless c (List.mem_append_left _ hc))
      (fun done c rest hsplit => hall done c (rest ++ [call]) (by rw [hsplit]; simp))
    rw [run_append]
    apply perform_mirrored (run_tracked calls) hbefore
    · exact hfaultless call (List.mem_append_right _ (List.mem_singleton_self call))
    · intro hupload hreturns
      exact hp call _ hbefore (hall calls call [] rfl hupload hreturns)

/-- Before an upload of a run without faults, covering means that every row is dirty. -/
theorem atUploads_covers_iff {calls : List Call}
    (hfaultless : ∀ call ∈ calls, call.faultless = true) :
    AtUploads shape calls (fun call t => call.Covers t) ↔
      AtUploads shape calls fun call t => call.AllDirty t := by
  have hbefore : ∀ {p : Call → KVPageTable shape → Prop},
      (∀ call t, Mirrored t → p call t → call.Covers t) → AtUploads shape calls p →
        ∀ done call rest, calls = done ++ call :: rest → Mirrored (run shape done) := by
    intro p hp hall done call rest hsplit
    apply run_mirrored done _ hp
    · intro d c r hd
      exact hall d c (r ++ call :: rest) (by rw [hsplit, hd]; simp)
    · intro c hc
      exact hfaultless c (by rw [hsplit]; exact List.mem_append_left _ hc)
  constructor
  · intro hall done call rest hsplit hupload hreturns
    have hmirrored := hbefore (fun _ _ _ h => h) hall done call rest hsplit
    exact (hmirrored.covers_iff call).1 (hall done call rest hsplit hupload hreturns)
  · intro hall done call rest hsplit hupload hreturns
    have hmirrored := hbefore (fun c t ht h => (ht.covers_iff c).2 h) hall done call rest hsplit
    exact (hmirrored.covers_iff call).2 (hall done call rest hsplit hupload hreturns)

/-- Every upload of a run that returns leaves the device equal to the host exactly
when each finds all that may be stale marked; without CUDA faults, when each
`upload` before the first success finds every row dirty. -/
theorem uploads_sync (shape : Shape) (calls : List Call) :
    (AtUploads shape calls (fun call t => (call.perform shape t).2.Synced) ↔
        AtUploads shape calls fun call t => call.Covers t) ∧
      ((∀ call ∈ calls, call.faultless = true) →
        (AtUploads shape calls (fun call t => (call.perform shape t).2.Synced) ↔
          AtUploads shape calls fun call t => call.AllDirty t)) := by
  have hcovers : AtUploads shape calls (fun call t => (call.perform shape t).2.Synced) ↔
      AtUploads shape calls fun call t => call.Covers t := by
    constructor
    · intro hall done call rest hsplit hupload hreturns
      exact (perform_synced (run_tracked done) hupload hreturns).1
        (hall done call rest hsplit hupload hreturns)
    · intro hall done call rest hsplit hupload hreturns
      exact (perform_synced (run_tracked done) hupload hreturns).2
        (hall done call rest hsplit hupload hreturns)
  exact ⟨hcovers, fun hfaultless => hcovers.trans (atUploads_covers_iff hfaultless)⟩

/-- One slot of one page. -/
def singleEntry : Shape := ⟨1, 1, 1, .dense, by decide, by decide, by decide, by decide⟩

/-- A mapping set and then uploaded. -/
theorem uploads_sync_single :
    AtUploads singleEntry [.setEntry 0 0 0, .upload none]
        (fun call t => (call.perform singleEntry t).2.Synced) ↔
      AtUploads singleEntry [.setEntry 0 0 0, .upload none] fun call t => call.AllDirty t :=
  (uploads_sync singleEntry [.setEntry 0 0 0, .upload none]).2 (by decide)

/-- A mapping set and cleared again marks its row clean: the first upload copies
nothing. -/
theorem upload_skips_undone :
    ¬AtUploads singleEntry [.setEntry 0 0 0, .clearEntry 0 0, .upload none]
      (fun call t => (call.perform singleEntry t).2.Synced) := by
  intro hall
  have hsync := hall [.setEntry 0 0 0, .clearEntry 0 0] (.upload none) [] rfl rfl
    (by decide +kernel)
  have hview := hsync (fun _ => 7) 0 (by decide)
  revert hview
  decide +kernel

end KVPageTable

end EdgeLLM.Ports.PageTable
