import EdgeLLM.Verified.Checked
import EdgeLLM.Verified.Ranges
import Mathlib.Data.Finset.Sort

/-!
# The page table and its device copy

`KVPageTable` keeps the K and V page ids of every slot on the host and copies
what has changed to the device.  It tracks changes twice: `mDirtyIndices` holds
the entries that differ from `mUploadedHost`, the image of the last upload, and
`mDirtyRows` the rows to be copied by `upload`.  A new table has every row dirty
and no entry.

The device storage starts with unknown contents: `none` stands where nothing
has been copied.  A CUDA call may fail, which ends the member function there.
-/

namespace EdgeLLM.Ports.PageTable

open Verified

/-- `kUNUSED_PAGE_ENTRY`. -/
def unusedPageEntry : Int := -1

/-- `kMAX_KV_POOL_PAGES`: the V page ids fit an `int32_t`. -/
def maxKvPoolPages : Nat := (2 ^ 31 - 1) / 2

/-- `Mode`, the row validation policy. -/
inductive Mode where
  | dense
  | sparseWindow
  deriving DecidableEq

/-- What the constructor accepts. -/
structure Shape where
  maxBatch : Nat
  maxPagesPerSeq : Nat
  numPages : Nat
  mode : Mode
  maxBatch_pos : 0 < maxBatch
  maxPagesPerSeq_pos : 0 < maxPagesPerSeq
  numPages_pos : 0 < numPages
  numPages_le : numPages ≤ maxKvPoolPages

/-- The checks of the constructor. -/
def Shape.create (maxBatch maxPagesPerSeq numPages : Int) (mode : Mode) : Except String Shape :=
  if hbatch : 0 < maxBatch then
    if hpages : 0 < maxPagesPerSeq then
      if hpool : 0 < numPages then
        if hfits : numPages ≤ maxKvPoolPages then
          .ok ⟨maxBatch.toNat, maxPagesPerSeq.toNat, numPages.toNat, mode, by omega, by omega,
            by omega, by omega⟩
        else .error "KVPageTable: numPages exceeds the largest pool whose derived V page ids fit int32."
      else .error "KVPageTable: numPages must be positive."
    else .error "KVPageTable: maxPagesPerSeq must be positive."
  else .error "KVPageTable: maxBatch must be positive."

namespace Shape

variable (shape : Shape)

/-- The entries of a row: the K half, then the V half. -/
def rowElements : Nat := 2 * shape.maxPagesPerSeq

def tableSize : Nat := shape.maxBatch * shape.rowElements

def rowOffset (slot : Nat) : Nat := slot * shape.rowElements

/-- V id of a K id: the sentinel maps to itself, a live id shifts by numPages. -/
def deriveV (k : Int) : Int := if k = unusedPageEntry then unusedPageEntry else k + shape.numPages

/-- A page id that a row may hold, the sentinel apart. -/
def pageInRange (k : Int) : Prop := 0 ≤ k ∧ k < shape.numPages

instance (k : Int) : Decidable (shape.pageInRange k) := inferInstanceAs (Decidable (_ ∧ _))

end Shape

/-- The table, the device tensor and the upload staging. -/
structure KVPageTable (shape : Shape) where
  host : Nat → Int := fun _ => unusedPageEntry
  uploadedHost : Nat → Int := fun _ => unusedPageEntry
  /-- Device storage is uninitialized until the first upload, so every row
  initially needs a copy. -/
  dirtyRows : Nat → Bool := fun _ => true
  dirtyIndices : Finset Nat := ∅
  sparseActivePages : Nat → Finset Int := fun _ => ∅
  isIdentity : Bool := false
  hasUploaded : Bool := false
  device : Nat → Option Int := fun _ => none
  uploadStaging : Nat → Option Int := fun _ => none
  uploadPending : Bool := false
  lastUploadEntryCount : Nat := 0
  lastUploadRangeCount : Nat := 0

/-- `KVPageTableRowUpdate`; `none` is the null pointer. -/
structure KVPageTableRowUpdate where
  slot : Int
  kPageIds : Option (Nat → Int)
  count : Int

namespace KVPageTable

variable {shape : Shape}

/-! ## Host mutators -/

/-- `lower_bound` of an ordered set. -/
def lowerBound (indices : Finset Nat) (k : Nat) : Option Nat :=
  (indices.sort (· ≤ ·)).find? fun i => k ≤ i

def setHostValue (t : KVPageTable shape) (index : Nat) (value : Int) : KVPageTable shape :=
  if t.host index = value then t
  else
    let dirtyIndices := if value ≠ t.uploadedHost index then insert index t.dirtyIndices
      else t.dirtyIndices.erase index
    let slot := index / shape.rowElements
    let rowBegin := slot * shape.rowElements
    let dirty := match lowerBound dirtyIndices rowBegin with
      | some firstDirty => decide (firstDirty < rowBegin + shape.rowElements)
      | none => false
    { t with
      host := Function.update t.host index value
      dirtyIndices
      dirtyRows := Function.update t.dirtyRows slot dirty }

/-- Both halves of one mapping. -/
def setMapping (slot logicalPage : Nat) (k : Int) (t : KVPageTable shape) : KVPageTable shape :=
  (t.setHostValue (shape.rowOffset slot + logicalPage) k).setHostValue
    (shape.rowOffset slot + logicalPage + shape.maxPagesPerSeq) (shape.deriveV k)

/-- Replace `mSparseActivePages[slot]`. -/
def setActivePages (slot : Nat) (pages : Finset Int) (t : KVPageTable shape) : KVPageTable shape :=
  { t with sparseActivePages := Function.update t.sparseActivePages slot pages }

/-- One row of `setIdentity`. -/
def setIdentityRow (t : KVPageTable shape) (b : Nat) : KVPageTable shape :=
  (List.range shape.maxPagesPerSeq).foldl (fun t (j : Nat) =>
      let k : Int := b * shape.maxPagesPerSeq + j
      let t := t.setMapping b j k
      if shape.mode = .sparseWindow then t.setActivePages b (insert k (t.sparseActivePages b))
      else t)
    (t.setActivePages b ∅)

def setIdentity : Checked String (KVPageTable shape) Unit := do
  Checked.check (shape.maxBatch * shape.maxPagesPerSeq ≤ shape.numPages)
    "KVPageTable::setIdentity: physical pool is smaller than the identity layout."
  Checked.modify fun t =>
    { (List.range shape.maxBatch).foldl setIdentityRow t with isIdentity := true }

/-- The first loop of `setRow`: the page ids that it collects. -/
def scanRow (shape : Shape) (sparsePages : Finset Int) : List Int → Except String (Finset Int)
  | [] => .ok sparsePages
  | k :: rest => do
    requireThat (shape.pageInRange k ∨ (shape.mode = .sparseWindow ∧ k = unusedPageEntry))
      "KVPageTable::setRow: page id out of range."
    if shape.mode = .sparseWindow ∧ k ≠ unusedPageEntry then
      requireThat (k ∉ sparsePages) "KVPageTable::setRow: duplicate sparse page id."
      scanRow shape (insert k sparsePages) rest
    else scanRow shape sparsePages rest

/-- `kPageIds[0..count)`. -/
def rowIds (kPageIds : Option (Nat → Int)) (count : Int) : List Int :=
  (List.range count.toNat).map (kPageIds.getD fun _ => unusedPageEntry)

/-- The entries of a row: the given ids, then sentinels. -/
def writeRow (slot : Nat) (ids : List Int) (t : KVPageTable shape) : KVPageTable shape :=
  (List.range shape.maxPagesPerSeq).foldl
    (fun t j => t.setMapping slot j (ids.getD j unusedPageEntry)) t

def setRow (slot : Int) (kPageIds : Option (Nat → Int)) (count : Int) :
    Checked String (KVPageTable shape) Unit := do
  Checked.check (0 ≤ slot ∧ slot < shape.maxBatch) "KVPageTable::setRow: slot out of range."
  Checked.check (0 ≤ count ∧ count ≤ shape.maxPagesPerSeq)
    "KVPageTable::setRow: count out of range."
  Checked.check (count = 0 ∨ kPageIds.isSome) "KVPageTable::setRow: kPageIds must not be null."
  let sparsePages ← Checked.ofExcept (scanRow shape ∅ (rowIds kPageIds count))
  Checked.modify fun t =>
    let t := { t with isIdentity := false }.writeRow slot.toNat (rowIds kPageIds count)
    if shape.mode = .sparseWindow then t.setActivePages slot.toNat sparsePages else t

/-- The page ids of one update of `applyRows`. -/
def scanUpdate (shape : Shape) (slot : Int) :
    Nat → Finset Int → List Int → Except String Unit
  | _, _, [] => .ok ()
  | pageIndex, sparsePages, pageId :: rest => do
    requireThat
      (shape.pageInRange pageId ∨ (shape.mode = .sparseWindow ∧ pageId = unusedPageEntry))
      ("KVPageTable::setRows: page id " ++ toString pageId ++ " out of range [0, " ++
        toString shape.numPages ++ ") at slot " ++ toString slot ++ ", index " ++
        toString pageIndex)
    requireThat (shape.mode ≠ .sparseWindow ∨ pageId = unusedPageEntry ∨ pageId ∉ sparsePages)
      ("KVPageTable::setRows: duplicate sparse page id at slot " ++ toString slot)
    scanUpdate shape slot (pageIndex + 1)
      (if shape.mode ≠ .sparseWindow ∨ pageId = unusedPageEntry then sparsePages
        else insert pageId sparsePages) rest

/-- The first loop of `applyRows`: every update is checked. -/
def checkUpdates (shape : Shape) (slotsSeen : Finset Int) :
    List KVPageTableRowUpdate → Except String Unit
  | [] => .ok ()
  | update :: rest => do
    requireThat (0 ≤ update.slot ∧ update.slot < shape.maxBatch)
      ("KVPageTable::setRows: slot out of range: " ++ toString update.slot)
    requireThat (0 ≤ update.count ∧ update.count ≤ shape.maxPagesPerSeq)
      ("KVPageTable::setRows: count out of range for slot " ++ toString update.slot)
    requireThat (update.count = 0 ∨ update.kPageIds.isSome)
      ("KVPageTable::setRows: non-empty row has a null page-id pointer at slot " ++
        toString update.slot)
    requireThat (update.slot ∉ slotsSeen)
      ("KVPageTable::setRows: slot appears more than once: " ++ toString update.slot)
    scanUpdate shape update.slot 0 ∅ (rowIds update.kPageIds update.count)
    checkUpdates shape (insert update.slot slotsSeen) rest

def applyRows (updates : List KVPageTableRowUpdate) : Checked String (KVPageTable shape) Unit := do
  Checked.ofExcept (checkUpdates shape ∅ updates)
  Checked.forEach (fun update => setRow update.slot update.kPageIds update.count) updates

def setRows (updates : List KVPageTableRowUpdate) : Checked String (KVPageTable shape) Unit :=
  applyRows updates

/-- The reverse mapping of `setEntry` in sparse-window mode. -/
def claimSparsePage (slot : Nat) (oldPageId kPageId : Int) :
    Checked String (KVPageTable shape) Unit :=
  if shape.mode = .sparseWindow ∧ oldPageId ≠ kPageId then do
    let activePages ← Checked.read fun t => t.sparseActivePages slot
    Checked.check (kPageId ∉ activePages)
      "KVPageTable::setEntry: duplicate active sparse page id."
    let remaining :=
      if oldPageId ≠ unusedPageEntry then activePages.erase oldPageId else activePages
    Checked.modify (setActivePages slot (insert kPageId remaining))
  else pure ()

def setEntry (slot logicalPage kPageId : Int) : Checked String (KVPageTable shape) Unit := do
  Checked.check (0 ≤ slot ∧ slot < shape.maxBatch) "KVPageTable::setEntry: slot out of range."
  Checked.check (0 ≤ logicalPage ∧ logicalPage < shape.maxPagesPerSeq)
    "KVPageTable::setEntry: logicalPage out of range."
  Checked.check (shape.pageInRange kPageId) "KVPageTable::setEntry: kPageId out of range."
  Checked.modify fun t => { t with isIdentity := false }
  let oldPageId ← Checked.read fun t => t.host (shape.rowOffset slot.toNat + logicalPage.toNat)
  claimSparsePage slot.toNat oldPageId kPageId
  Checked.modify fun t => t.setMapping slot.toNat logicalPage.toNat kPageId

def clearEntry (slot logicalPage : Int) : Checked String (KVPageTable shape) Unit := do
  Checked.check (0 ≤ slot ∧ slot < shape.maxBatch) "KVPageTable::clearEntry: slot out of range."
  Checked.check (0 ≤ logicalPage ∧ logicalPage < shape.maxPagesPerSeq)
    "KVPageTable::clearEntry: logicalPage out of range."
  Checked.modify fun t =>
    let oldPageId := t.host (shape.rowOffset slot.toNat + logicalPage.toNat)
    let t := { t with isIdentity := false }
    let t := if shape.mode = .sparseWindow ∧ oldPageId ≠ unusedPageEntry then
        t.setActivePages slot.toNat ((t.sparseActivePages slot.toNat).erase oldPageId)
      else t
    t.setMapping slot.toNat logicalPage.toNat unusedPageEntry

/-! ## Uploads -/

/-- One row of `checkInvariants` from an entry on: its first violation. -/
def checkRow (t : KVPageTable shape) (b : Nat) :
    Bool → Finset Int → List Nat → Option String
  | _, _, [] => none
  | sawSentinel, activePageIds, j :: rest =>
    let k := t.host (shape.rowOffset b + j)
    let v := t.host (shape.rowOffset b + shape.maxPagesPerSeq + j)
    let place := " at slot " ++ toString b ++ ", index " ++ toString j
    if k = unusedPageEntry then
      if v ≠ unusedPageEntry then
        some ("KVPageTable: V page id does not match unused K entry" ++ place)
      else t.checkRow b true activePageIds rest
    else if ¬shape.pageInRange k then
      some ("KVPageTable: page id " ++ toString k ++ " out of range [0, " ++
        toString shape.numPages ++ ")" ++ place)
    else if v ≠ shape.deriveV k then
      some ("KVPageTable: V page id " ++ toString v ++ " is not derived from K page id " ++
        toString k ++ place)
    else if shape.mode = .dense ∧ sawSentinel then
      some ("KVPageTable: live page id " ++ toString k ++ " follows sentinel" ++ place)
    else if shape.mode = .sparseWindow ∧ k ∈ activePageIds then
      some ("KVPageTable: duplicate active page id " ++ toString k ++ place)
    else t.checkRow b sawSentinel
      (if shape.mode = .sparseWindow then insert k activePageIds else activePageIds) rest

/-- `checkInvariants`: the first violation, if there is one. -/
def checkInvariants (t : KVPageTable shape) : Option String :=
  (List.range shape.maxBatch).findSome? fun b =>
    t.checkRow b false ∅ (List.range shape.maxPagesPerSeq)

/-- The CUDA calls of an upload. -/
inductive CudaCall where
  | synchronize
  | memset
  | copy (k : Nat)
  | record
  deriving DecidableEq

/-- `CUDA_CHECK` around a call; `fault` is the call that fails, if one does. -/
def cudaCheck (fault : Option CudaCall) (call : CudaCall)
    (effect : KVPageTable shape → KVPageTable shape) : Checked String (KVPageTable shape) Unit := do
  Checked.check (fault ≠ some call) "CUDA runtime error"
  Checked.modify effect

/-- Wait for the previous upload before its staging is overwritten. -/
def awaitPending (fault : Option CudaCall) : Checked String (KVPageTable shape) Unit := do
  let uploadPending ← Checked.read fun t => t.uploadPending
  if uploadPending then cudaCheck fault .synchronize fun t => { t with uploadPending := false }
  else pure ()

/-- Record the event that the next upload waits for. -/
def recordUpload (fault : Option CudaCall) : Checked String (KVPageTable shape) Unit :=
  cudaCheck fault .record fun t => { t with uploadPending := true }

/-- `copy_n` of `[first, last)` into the staging. -/
def stage (first last : Nat) (t : KVPageTable shape) : KVPageTable shape :=
  { t with uploadStaging := fun i =>
      if first ≤ i ∧ i < last then some (t.host i) else t.uploadStaging i }

/-- `cudaMemcpyAsync` of `[first, last)` from the staging. -/
def copyToDevice (first last : Nat) (t : KVPageTable shape) : KVPageTable shape :=
  { t with device := fun i => if first ≤ i ∧ i < last then t.uploadStaging i else t.device i }

/-- The maximal ranges of dirty rows that the loop of `upload` finds. -/
def dirtyRanges (t : KVPageTable shape) : List (Nat × Nat) :=
  coalesce ((List.range shape.maxBatch).filter t.dirtyRows)

/-- Stage and copy one range of rows after the other. -/
def copyRows (fault : Option CudaCall) :
    Nat → List (Nat × Nat) → Checked String (KVPageTable shape) Unit
  | _, [] => pure ()
  | call, (rangeBegin, rangeEnd) :: rest => do
    Checked.modify (stage (shape.rowOffset rangeBegin) (shape.rowOffset rangeEnd))
    cudaCheck fault (.copy call)
      (copyToDevice (shape.rowOffset rangeBegin) (shape.rowOffset rangeEnd))
    copyRows fault (call + 1) rest

/-- The table after the copies of `upload`. -/
def commitRows (ranges : List (Nat × Nat)) (t : KVPageTable shape) : KVPageTable shape :=
  { t with
    uploadedHost := t.host
    dirtyIndices := ∅
    dirtyRows := fun _ => false
    hasUploaded := true
    lastUploadEntryCount := (ranges.map fun range => (range.2 - range.1) * shape.rowElements).sum
    lastUploadRangeCount := ranges.length }

def upload (fault : Option CudaCall) : Checked String (KVPageTable shape) Bool := do
  let noneDirty ← Checked.read fun t => !(List.range shape.maxBatch).any t.dirtyRows
  if noneDirty then pure false
  else
    let violation ← Checked.read checkInvariants
    Checked.check (violation = none) ("KVPageTable::upload: " ++ violation.getD "")
    awaitPending fault
    let ranges ← Checked.read dirtyRanges
    copyRows fault 0 ranges
    recordUpload fault
    Checked.modify (commitRows ranges)
    pure true

/-- The ranges of neighbouring dirty entries. -/
def dirtyEntryRanges (t : KVPageTable shape) : List (Nat × Nat) :=
  coalesce (t.dirtyIndices.sort (· ≤ ·))

/-- Copy one range of entries after the other. -/
def copyEntries (fault : Option CudaCall) :
    Nat → List (Nat × Nat) → Checked String (KVPageTable shape) Unit
  | _, [] => pure ()
  | call, (first, last) :: rest => do
    cudaCheck fault (.copy call) (copyToDevice first last)
    copyEntries fault (call + 1) rest

/-- `cudaMemsetAsync` of the device table. -/
def clearDevice (t : KVPageTable shape) : KVPageTable shape :=
  { t with device := fun i => if i < shape.tableSize then some unusedPageEntry else t.device i }

def prepareDevice (fault : Option CudaCall) (initializeDevice : Bool) :
    Checked String (KVPageTable shape) Unit :=
  if initializeDevice then cudaCheck fault .memset clearDevice else pure ()

/-- The changed entries into the staging. -/
def stageDirty (t : KVPageTable shape) : KVPageTable shape :=
  { t with uploadStaging := fun i =>
      if i ∈ t.dirtyIndices then some (t.host i) else t.uploadStaging i }

/-- The table after the copies of `uploadDirty`. -/
def commitEntries (ranges : List (Nat × Nat)) (t : KVPageTable shape) : KVPageTable shape :=
  { t with
    uploadedHost := fun i => if i ∈ t.dirtyIndices then t.host i else t.uploadedHost i
    dirtyIndices := ∅
    dirtyRows := fun _ => false
    hasUploaded := true
    lastUploadEntryCount := (ranges.map fun range => range.2 - range.1).sum
    lastUploadRangeCount := ranges.length }

/-- `uploadDirty` once it knows that there is something to do. -/
def uploadChanges (fault : Option CudaCall) (initializeDevice : Bool) :
    Checked String (KVPageTable shape) Unit := do
  awaitPending fault
  prepareDevice fault initializeDevice
  Checked.modify stageDirty
  let ranges ← Checked.read dirtyEntryRanges
  copyEntries fault 0 ranges
  Checked.modify (commitEntries ranges)
  if initializeDevice ∨ ranges.length > 0 then recordUpload fault else pure ()

/-- `uploadDirty` validates a dense table. -/
def checkDense : Checked String (KVPageTable shape) Unit := do
  let violation ← Checked.read checkInvariants
  if shape.mode = .dense then
    Checked.check (violation = none) ("KVPageTable::uploadDirty: " ++ violation.getD "")
  else pure ()

def uploadDirty (fault : Option CudaCall) : Checked String (KVPageTable shape) Unit := do
  checkDense
  let initializeDevice ← Checked.read fun t => !t.hasUploaded
  let nothingDirty ← Checked.read fun t => decide (t.dirtyIndices = ∅)
  if !initializeDevice && nothingDirty then
    Checked.modify fun t => { t with lastUploadEntryCount := 0, lastUploadRangeCount := 0 }
  else uploadChanges fault initializeDevice

/-- A call of a member function.  An upload is given the CUDA call that fails in it. -/
inductive Call where
  | setIdentity
  | setRow (slot : Int) (kPageIds : Option (Nat → Int)) (count : Int)
  | setRows (updates : List KVPageTableRowUpdate)
  | setEntry (slot logicalPage kPageId : Int)
  | clearEntry (slot logicalPage : Int)
  | upload (fault : Option CudaCall)
  | uploadDirty (fault : Option CudaCall)

/-- The call, and whether it throws. -/
def Call.perform (shape : Shape) : Call → Checked String (KVPageTable shape) Unit
  | .setIdentity => KVPageTable.setIdentity
  | .setRow slot kPageIds count => KVPageTable.setRow slot kPageIds count
  | .setRows updates => KVPageTable.setRows updates
  | .setEntry slot logicalPage kPageId => KVPageTable.setEntry slot logicalPage kPageId
  | .clearEntry slot logicalPage => KVPageTable.clearEntry slot logicalPage
  | .upload fault => do
    let _ ← KVPageTable.upload fault
  | .uploadDirty fault => KVPageTable.uploadDirty fault

/-- The table after the calls, those that throw included. -/
def run (shape : Shape) (calls : List Call) : KVPageTable shape :=
  calls.foldl (fun t call => (call.perform shape t).2) {}

/-- What the kernels read, given what the storage held at first. -/
def kernelView (t : KVPageTable shape) (storage : Nat → Int) (i : Nat) : Int :=
  (t.device i).getD (storage i)

end KVPageTable

end EdgeLLM.Ports.PageTable
