import EdgeLLM.Ports.Safetensors
import EdgeLLM.Verified.RangeMerge
import EdgeLLM.Verified.Wrapping
import Mathlib.Data.List.Sort

/-!
# Registering checkpoint pages

`CheckpointReader` maps the shards of a checkpoint and registers the pages of
the tensors that are to be read from the device: `registerTensors` those of a
list of names, merged for each shard, and `registerTensorRange` those of a part
of one tensor.

What is mapped is fixed once the reader is built, so it is apart from what
registering changes.  All mappings share one address space: the number of
registered bytes does not wrap.
-/

namespace EdgeLLM.Ports.Checkpoint

open Verified Safetensors

/-! ## Shards -/

structure TensorInfo where
  dtype : DataType
  shape : Coords
  offset : UInt64
  bytes : UInt64

structure Registration where
  offset : UInt64
  bytes : UInt64
  deviceData : UInt64

structure Shard where
  file : MappedFile
  dataOffset : UInt64
  tensors : List (String × TensorInfo)

/-- `data` is an offset in the mapped file. -/
structure View where
  dtype : DataType
  shape : Coords
  data : UInt64
  deviceData : Option UInt64
  bytes : UInt64

/-- The fields that stay.  `mOpenShards` are the shards that the constructor
opened, and any other shard is a function of its path: it is opened once. -/
structure CheckpointReader where
  mTensorShards : List (String × String)
  mExplicitTensors : List (String × TensorInfo)
  mRawShards : List String
  mOpenShards : List (String × Shard)

/-- The fields that registering changes. -/
structure Registered where
  registrations : String → List Registration := fun _ => []
  mRegisteredBytes : Nat := 0
  mPeakRegisteredBytes : Nat := 0

/-- The system under the reader; a page size of 0 is a failed query. -/
structure Host where
  parse : List UInt8 → Except String Json
  mapFile : String → Except String MappedFile
  systemPageSize : UInt64
  /-- The order in which an `unordered_map` is gone through. -/
  iterate : List String → List String
  iterate_perm : ∀ paths, (iterate paths).Perm paths

/-- The driver in one call: where a range is mapped for the device, and whether
its release succeeds. -/
structure Driver where
  hostRegister : String → UInt64 → UInt64 → Except String UInt64
  hostUnregister : String → Registration → Bool

def readShard (host : Host) (path : String) (raw : Bool) : Except String Shard := do
  let file ← host.mapFile path
  if raw then pure { file, dataOffset := 0, tensors := [] }
  else
    let metadata ← parseMetadata host.parse file path
    pure
      { file
        dataOffset := metadata.dataOffset
        tensors := metadata.tensors.map fun tensor =>
          (tensor.name, ⟨tensor.dataType, tensor.shape, tensor.offset, tensor.bytes⟩) }

def CheckpointReader.openShard (host : Host) (reader : CheckpointReader) (path : String) :
    Except String Shard :=
  match reader.mOpenShards.lookup path with
  | some shard => .ok shard
  | none => readShard host path (reader.mRawShards.contains path)

def CheckpointReader.tensorInfo (reader : CheckpointReader) (name : String) (shard : Shard) :
    Except String TensorInfo :=
  match reader.mExplicitTensors.lookup name with
  | some info => .ok info
  | none =>
    match shard.tensors.lookup name with
    | some info => .ok info
    | none => .error ("Checkpoint index points to a shard without tensor " ++ name)

/-! ## Registering tensors -/

abbrev Range := UInt64 × UInt64

def checkPageSize (pageSize : UInt64) : Except String Unit := do
  requireThat (pageSize > 0) "Failed to query system page size"
  requireThat (pageSize &&& (pageSize - 1) = 0) "System page size is not a power of two"

/-- The pages of a tensor. -/
def pageRange (pageSize : UInt64) (name : String) (shard : Shard) (info : TensorInfo) :
    Except String Range := do
  requireThat (info.offset ≤ 18446744073709551615 - shard.dataOffset)
    ("Checkpoint tensor offset overflow: " ++ name)
  let tensorBegin := shard.dataOffset + info.offset
  requireThat (info.bytes ≤ shard.file.getSize - tensorBegin)
    ("Checkpoint tensor range overflow: " ++ name)
  let tensorEnd := tensorBegin + info.bytes
  let remainder := tensorEnd &&& (pageSize - 1)
  pure (tensorBegin &&& ~~~(pageSize - 1),
    if remainder ≠ 0 then
      tensorEnd + min (pageSize - remainder) (shard.file.getSize - tensorEnd)
    else tensorEnd)

section Reader

variable (host : Host) (driver : Driver) (reader : CheckpointReader)

/-- What one name adds to `rangesByShard`. -/
def requestedRange (name : String) : Except String (Option (String × Range)) :=
  match reader.mTensorShards.lookup name with
  | none => .ok none
  | some path => do
    let shard ← reader.openShard host path
    let info ← reader.tensorInfo name shard
    if info.bytes = 0 then pure none
    else
      let range ← pageRange host.systemPageSize name shard info
      pure (some (path, range))

/-- The order of `std::pair`. -/
def Before (a b : Range) : Prop := a.1 < b.1 ∨ a.1 = b.1 ∧ a.2 ≤ b.2

instance : DecidableRel Before := fun _ _ => inferInstanceAs (Decidable (_ ∨ _ ∧ _))

def sortRanges (ranges : List Range) : List Range := ranges.insertionSort Before

def Registered.push (state : Registered) (path : String) (registration : Registration)
    (mRegisteredBytes : Nat) : Registered where
  registrations := Function.update state.registrations path
    (state.registrations path ++ [registration])
  mRegisteredBytes := mRegisteredBytes
  mPeakRegisteredBytes := max state.mPeakRegisteredBytes mRegisteredBytes

def registerRange (path : String) (range : Range) : Checked String Registered Unit := do
  Checked.check (range.1 < range.2) "Empty checkpoint registration range"
  let bytes := range.2 - range.1
  let deviceData ← Checked.ofExcept (driver.hostRegister path range.1 bytes)
  Checked.modify fun state =>
    state.push path ⟨range.1, bytes, deviceData⟩ (state.mRegisteredBytes + bytes.toNat)

/-- `rangesByShard[path]`. -/
def rangesAt (rangesByShard : List (String × Range)) (path : String) : List Range :=
  (rangesByShard.filter fun entry => entry.1 = path).map Prod.snd

def registerShard (rangesByShard : List (String × Range)) (path : String) :
    Checked String Registered Unit := do
  let registrations ← Checked.read fun state => state.registrations path
  Checked.check (registrations = [])
    ("Checkpoint shard ranges were already registered: " ++ path)
  Checked.forEach (registerRange driver path)
    (mergeRanges (sortRanges (rangesAt rangesByShard path)))

def registerTensors (names : List String) : Checked String Registered Unit := do
  Checked.ofExcept (checkPageSize host.systemPageSize)
  let requested ← Checked.ofExcept (names.mapM (requestedRange host reader))
  let rangesByShard := requested.reduceOption
  Checked.forEach (registerShard driver rangesByShard)
    (host.iterate (rangesByShard.map Prod.fst).dedup)

def registerTensorRange (name : String) (offset bytes : UInt64) :
    Checked String Registered View := do
  let mRegisteredBytes ← Checked.read Registered.mRegisteredBytes
  Checked.check (mRegisteredBytes = 0) "Checkpoint source ranges are already CUDA-mapped"
  let path ← Checked.ofExcept
    ((reader.mTensorShards.lookup name).elim (.error ("Checkpoint tensor not found: " ++ name)) .ok)
  let shard ← Checked.ofExcept (reader.openShard host path)
  let info ← Checked.ofExcept (reader.tensorInfo name shard)
  Checked.check (offset ≤ info.bytes ∧ bytes > 0 ∧ bytes ≤ info.bytes - offset)
    ("Checkpoint registration range exceeds tensor " ++ name)
  let pageSize := host.systemPageSize
  Checked.ofExcept (checkPageSize pageSize)
  let rangeBegin := shard.dataOffset + info.offset + offset
  let first := rangeBegin &&& ~~~(pageSize - 1)
  let last := min ((rangeBegin + bytes + pageSize - 1) &&& ~~~(pageSize - 1)) shard.file.getSize
  Checked.check (first < last) ("Empty checkpoint registration range: " ++ name)
  let registeredBytes := last - first
  let deviceData ← Checked.ofExcept (driver.hostRegister path first registeredBytes)
  Checked.modify fun state =>
    state.push path ⟨first, registeredBytes, deviceData⟩ registeredBytes.toNat
  let viewOffset := rangeBegin - first
  pure
    { dtype := info.dtype, shape := info.shape, data := first + viewOffset,
      deviceData := some (deviceData + viewOffset), bytes }

/-- The registrations whose release fails stay. -/
def unregisterTensors (state : Registered) : Registered :=
  let failed := fun path =>
    (state.registrations path).filter fun registration => !driver.hostUnregister path registration
  { state with
    registrations := failed
    mRegisteredBytes := ((reader.mTensorShards.map Prod.snd).dedup.map fun path =>
      ((failed path).map fun registration => registration.bytes.toNat).sum).sum }

def findHost (name : String) : Except String (Option View) :=
  match reader.mTensorShards.lookup name with
  | none => .ok none
  | some path => do
    let shard ← reader.openShard host path
    let info ← reader.tensorInfo name shard
    pure (some
      { dtype := info.dtype, shape := info.shape, data := shard.dataOffset + info.offset,
        deviceData := none, bytes := info.bytes })

/-- The first registration that has a whole range. -/
def containing (registrations : List Registration) (offset bytes : UInt64) : Option Registration :=
  registrations.find? fun candidate =>
    candidate.offset ≤ offset ∧ offset + bytes ≤ candidate.offset + candidate.bytes

def deviceAddress (state : Registered) (name : String) : Except String UInt64 :=
  match reader.mTensorShards.lookup name with
  | none => .error ("Checkpoint tensor disappeared while resolving: " ++ name)
  | some path => do
    let shard ← reader.openShard host path
    let info ← reader.tensorInfo name shard
    let offset := shard.dataOffset + info.offset
    (containing (state.registrations path) offset info.bytes).elim
      (.error ("Checkpoint tensor was not CUDA-mapped: " ++ name))
      fun registration => .ok (registration.deviceData + (offset - registration.offset))

def find (state : Registered) (name : String) : Except String (Option View) := do
  let view ← findHost host reader name
  match view with
  | none => pure none
  | some view =>
    if view.bytes > 0 then do
      let deviceData ← deviceAddress host reader state name
      pure (some { view with deviceData := some deviceData })
    else pure (some view)

end Reader

end EdgeLLM.Ports.Checkpoint
