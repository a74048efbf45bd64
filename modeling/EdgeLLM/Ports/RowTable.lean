import EdgeLLM.Ports.Safetensors
import EdgeLLM.Verified.Wrapping

/-!
# Row tables in a mapped file

`HostRowTable` finds a table, and optionally the scales of its rows, in a
mapped safetensors file.  `gather` copies the rows of a list of token ids out of
the mapping; an id that is not a row is answered with zero bytes.

A pointer into the mapping is its offset from the first byte of the file, a
64-bit word.  A copy is given by its first byte and its length.
-/

namespace EdgeLLM.Ports.RowTable

open Verified
open Safetensors

/-! ## Resolving the tensors -/

/-- The tensors found so far. -/
structure Selected where
  table : Option TensorMetadata := none
  scales : Option TensorMetadata := none

def selectEntry (source tableName scaleName : String) (found : Selected) (entry : TensorMetadata) :
    Except String Selected :=
  if entry.name = tableName then do
    requireThat (found.table = none) (source ++ " contains duplicate " ++ tableName ++ " tensors")
    pure { found with table := some entry }
  else if entry.name = scaleName then do
    requireThat (found.scales = none) (source ++ " contains duplicate " ++ scaleName ++ " tensors")
    pure { found with scales := some entry }
  else pure found

def selectTensors (source tableName scaleName : String) (entries : List TensorMetadata) :
    Except String Selected :=
  entries.foldlM (selectEntry source tableName scaleName) {}

/-- A block of rows of one width. -/
structure RowBlock where
  first : UInt64
  rowBytes : Int64

structure HostRowTable where
  mDataType : DataType
  rows : Int64
  table : RowBlock
  scales : Option RowBlock

/-- The width of a row, and that all rows together have the size of the tensor. -/
def rowBlock (source name : String) (dataOffset : UInt64) (entry : TensorMetadata)
    (rows columns : Int64) : Except String RowBlock := do
  let size ← getTypeSize entry.dataType
  let rowBytes := columns * size.toInt64
  requireThat (rowBytes.toUInt64 * rows.toUInt64 = entry.bytes)
    (name ++ " byte count does not match its shape: " ++ source)
  pure { first := dataOffset + entry.offset, rowBytes }

/-- `scalesPerRow`: one for a scale tensor of one dimension. -/
def scalesPerRow (shape : Coords) : Except String Int64 :=
  if shape.mNumDims = 2 then shape.get 1 else .ok 1

def scaleBlock (source tableName scaleName : String) (dataOffset : UInt64) (rows : Int64)
    (scales : TensorMetadata) : Except String RowBlock := do
  requireThat (scales.dataType = .kFLOAT ∨ scales.dataType = .kHALF)
    (scaleName ++ " must be FP32 or FP16: " ++ source)
  requireThat (scales.shape.mNumDims = 1 ∨ scales.shape.mNumDims = 2)
    (scaleName ++ " must be [rows] or [rows, scalesPerRow]: " ++ source)
  let scaleRows ← scales.shape.get 0
  requireThat (scaleRows = rows)
    (scaleName ++ " rows must match " ++ tableName ++ " rows: " ++ source)
  let perRow ← scalesPerRow scales.shape
  requireThat (perRow > 0) (scaleName ++ " must have a positive column count: " ++ source)
  rowBlock source scaleName dataOffset scales rows perRow

def scaleBlocks (source tableName scaleName : String) (dataOffset : UInt64) (rows : Int64) :
    Option TensorMetadata → Except String (Option RowBlock)
  | none => .ok none
  | some scales => (scaleBlock source tableName scaleName dataOffset rows scales).map some

def ofTensors (source tableName scaleName : String) (dataOffset : UInt64) (found : Selected) :
    Except String HostRowTable :=
  match found.table with
  | none => .error (source ++ " must contain a tensor named " ++ tableName)
  | some table => do
      requireThat (table.shape.mNumDims = 2)
        (tableName ++ " must be 2D [rows, columns]: " ++ source)
      let rows ← table.shape.get 0
      let columns ← table.shape.get 1
      requireThat (rows > 0 ∧ columns > 0) (tableName ++ " must be non-empty: " ++ source)
      requireThat (rows ≤ 2147483647)
        (tableName ++ " row count exceeds the int32 token id range: " ++ source)
      let block ← rowBlock source tableName dataOffset table rows columns
      let scales ← scaleBlocks source tableName scaleName dataOffset rows found.scales
      pure { mDataType := table.dataType, rows, table := block, scales }

/-- The constructor. -/
def construct (parse : List UInt8 → Except String Json) (file : MappedFile)
    (source tableName scaleName : String) : Except String HostRowTable := do
  let metadata ← parseMetadata parse file source
  let found ← selectTensors source tableName scaleName metadata.tensors
  ofTensors source tableName scaleName metadata.dataOffset found

/-- What is written for one id: zeros, or a copy from the mapping. -/
inductive RowCopy where
  | zero (bytes : UInt64)
  | copy (first bytes : UInt64)

/-- One row of a block, or zeros. -/
def copyRow (rows : Int64) (block : RowBlock) (id : Int32) : RowCopy :=
  if id < 0 ∨ id.toInt64 ≥ rows then .zero block.rowBytes.toUInt64
  else
    .copy (block.first + (id.toInt64 * block.rowBytes).toUInt64) block.rowBytes.toUInt64

/-- `gather`; the scales are copied where the table has some and the caller asks for them. -/
def HostRowTable.gather (t : HostRowTable) (ids : Option (List Int32)) (hasRows hasScales : Bool) :
    Except String (List (RowCopy × Option RowCopy)) := do
  requireThat (ids.isSome = true ∧ hasRows = true)
    "HostRowTable::gather requires ids and a row destination"
  let scales := if hasScales then t.scales else none
  pure ((ids.getD []).map fun id =>
    (copyRow t.rows t.table id, scales.map fun block => copyRow t.rows block id))

end EdgeLLM.Ports.RowTable
