import EdgeLLM.Verified.Checked
import Mathlib.Algebra.Order.Ring.Int

/-!
# Safetensors headers

`parseMetadata` reads the header of a mapped safetensors file: where the
payload starts and, for each tensor, its type, its shape and its byte range.
The JSON parser is a parameter, so a header is any value that it may return.

`size_t` and `int64_t` are 64-bit words that wrap.
-/

namespace EdgeLLM.Ports.Safetensors

open Verified

/-! ## Types and shapes -/

inductive DataType where
  | kFLOAT
  | kHALF
  | kBF16
  | kINT8
  | kUINT8
  | kBOOL
  | kINT32
  | kINT64
  | kFP8
  | kINT4
  | kFP4
  deriving DecidableEq

def getTypeSize : DataType → Except String UInt64
  | .kINT64 => .ok 8
  | .kFLOAT => .ok 4
  | .kINT32 => .ok 4
  | .kHALF => .ok 2
  | .kBF16 => .ok 2
  | .kBOOL => .ok 1
  | .kFP8 => .ok 1
  | .kINT8 => .ok 1
  | .kUINT8 => .ok 1
  | .kINT4 => .error "Other types are not supported"
  | .kFP4 => .error "Other types are not supported"

def dataTypeFromString (dtype : String) : Except String DataType :=
  if dtype = "F32" then .ok .kFLOAT
  else if dtype = "F16" then .ok .kHALF
  else if dtype = "BF16" then .ok .kBF16
  else if dtype = "I8" then .ok .kINT8
  else if dtype = "U8" then .ok .kUINT8
  else if dtype = "BOOL" then .ok .kBOOL
  else if dtype = "I32" then .ok .kINT32
  else if dtype = "I64" then .ok .kINT64
  else if dtype = "F8_E4M3" then .ok .kFP8
  else .error ("Unsupported safetensors data type: " ++ dtype)

/-- The number of dimensions is narrowed to `int32_t`. -/
structure Coords where
  mDims : List Int64
  mNumDims : Int32

def Coords.ofDims (dims : List Int64) : Except String Coords := do
  requireThat (Int32.ofInt dims.length ≤ 8) "Coords: number of dimensions out of range"
  pure { mDims := dims, mNumDims := Int32.ofInt dims.length }

def Coords.get (shape : Coords) (idx : Nat) : Except String Int64 := do
  requireThat ((idx : Int) < shape.mNumDims.toInt) "Coords: index out of range"
  pure (shape.mDims.getD idx 0)

/-! ## JSON -/

/-- A value of the JSON library: integers that fit are unsigned or, below zero,
signed; all other numbers are floating-point. -/
inductive Json where
  | null
  | boolean (value : Bool)
  | unsigned (value : UInt64)
  | integer (value : Int64)
  | float
  | string (value : String)
  | array (values : List Json)
  | object (fields : List (String × Json))

/-- What iterating over `items()` yields. -/
def Json.items : Json → List (String × Json)
  | .null => []
  | .array values => (values.zipIdx).map fun v => (toString v.2, v.1)
  | .object fields => fields
  | value => [("", value)]

def Json.field (value : Json) (key : String) : Option Json :=
  match value with
  | .object fields => fields.lookup key
  | _ => none

def Json.text : Json → Option String
  | .string value => some value
  | _ => none

def Json.values : Json → Option (List Json)
  | .array values => some values
  | _ => none

/-! ## Files -/

/-- A mapped file; its size is a `size_t`. -/
structure MappedFile where
  data : List UInt8
  size_lt : data.length < 2 ^ 64

def MappedFile.getSize (file : MappedFile) : UInt64 := UInt64.ofNat file.data.length

/-- `memcpy` into a `uint64_t`, the low byte first. -/
def readWord (data : List UInt8) : UInt64 :=
  (data.take 8).foldr (fun byte word => word * 256 + byte.toUInt64) 0

structure TensorMetadata where
  name : String
  dataType : DataType
  shape : Coords
  offset : UInt64
  bytes : UInt64

structure FileMetadata where
  dataOffset : UInt64
  tensors : List TensorMetadata

def nonnegativeSize (value : Json) (label : String) : Except String UInt64 :=
  match value with
  | .unsigned result => .ok result
  | .integer signedResult => do
      requireThat (signedResult ≥ 0) (label ++ " must be nonnegative")
      pure signedResult.toUInt64
  | _ => .error (label ++ " must be an integer")

/-- One entry of a shape as a `uint64_t`. -/
def dimensionValue (name source : String) (dimension : Json) : Except String UInt64 :=
  match dimension with
  | .unsigned value => .ok value
  | .integer signedDimension => do
      requireThat (signedDimension ≥ 0)
        ("Tensor dimension must be nonnegative for " ++ name ++ " in " ++ source)
      pure signedDimension.toUInt64
  | _ => .error ("Tensor dimension must be an integer for " ++ name ++ " in " ++ source)

def parseDimension (name source : String) (dimension : Json) : Except String Int64 := do
  let value ← dimensionValue name source dimension
  requireThat (value ≤ 9223372036854775807)
    ("Tensor dimension exceeds INT64 for " ++ name ++ " in " ++ source)
  pure value.toInt64

/-- The fields of a well-formed entry. -/
def entryFields (value : Json) : Option (String × List Json × Json × Json) := do
  let dtype ← (← value.field "dtype").text
  let shape ← (← value.field "shape").values
  let offsets ← (← value.field "data_offsets").values
  if h : offsets.length = 2 then
    some (dtype, shape, offsets.get ⟨0, by omega⟩, offsets.get ⟨1, by omega⟩)
  else none

def parseEntry (bytes dataOffset : UInt64) (source name : String) (value : Json) :
    Except String TensorMetadata :=
  match entryFields value with
  | none => .error ("Malformed tensor entry " ++ name ++ " in " ++ source)
  | some (dtype, shape, first, last) => do
      let dimensions ← shape.mapM (parseDimension name source)
      let start ← nonnegativeSize first "Tensor data offset"
      let stop ← nonnegativeSize last "Tensor data offset"
      requireThat (start ≤ stop ∧ stop ≤ bytes - dataOffset)
        ("Invalid tensor offsets for " ++ name ++ " in " ++ source)
      let dataType ← dataTypeFromString dtype
      let coords ← Coords.ofDims dimensions
      pure { name, dataType, shape := coords, offset := start, bytes := stop - start }

def parseMetadata (parse : List UInt8 → Except String Json) (file : MappedFile)
    (source : String) : Except String FileMetadata := do
  requireThat (file.getSize ≥ 8) ("Truncated safetensors file: " ++ source)
  let headerBytes := readWord file.data
  requireThat (headerBytes ≤ file.getSize - 8) ("Invalid safetensors header size: " ++ source)
  let dataOffset := 8 + headerBytes
  let header ← parse ((file.data.drop 8).take headerBytes.toNat)
  let tensors ← (header.items.filter fun entry => entry.1 ≠ "__metadata__").mapM fun entry =>
    parseEntry file.getSize dataOffset source entry.1 entry.2
  pure { dataOffset, tensors }

theorem getSize_toNat (file : MappedFile) : file.getSize.toNat = file.data.length := by
  unfold MappedFile.getSize
  rw [UInt64.toNat_ofNat']
  exact Nat.mod_eq_of_lt file.size_lt

/-- A tensor of an entry is in the part of the file after `dataOffset`. -/
theorem parseEntry_extent {bytes dataOffset : UInt64} {source name : String} {value : Json}
    {tensor : TensorMetadata} (hoffset : dataOffset ≤ bytes)
    (h : parseEntry bytes dataOffset source name value = .ok tensor) :
    dataOffset.toNat + tensor.offset.toNat + tensor.bytes.toNat ≤ bytes.toNat := by
  unfold parseEntry at h
  cases hfields : entryFields value with
  | none =>
    rw [hfields] at h
    cases h
  | some fields =>
    rw [hfields] at h
    simp only [bind_eq_ok, requireThat_eq_ok, exists_const] at h
    obtain ⟨_, _, start, _, stop, _, ⟨hle, hstop⟩, _, _, _, _, htensor⟩ := h
    cases htensor
    rw [UInt64.le_iff_toNat_le] at hle hstop hoffset
    rw [UInt64.toNat_sub_of_le _ _ (UInt64.le_iff_toNat_le.2 hoffset)] at hstop
    show _ + start.toNat + (stop - start).toNat ≤ _
    rw [UInt64.toNat_sub_of_le _ _ (UInt64.le_iff_toNat_le.2 hle)]
    omega

theorem parseMetadata_extent {parse : List UInt8 → Except String Json} {file : MappedFile}
    {source : String} {metadata : FileMetadata} {tensor : TensorMetadata}
    (h : parseMetadata parse file source = .ok metadata) (htensor : tensor ∈ metadata.tensors) :
    metadata.dataOffset.toNat + tensor.offset.toNat + tensor.bytes.toNat ≤ file.data.length := by
  unfold parseMetadata at h
  simp only [bind_eq_ok, requireThat_eq_ok, exists_const] at h
  obtain ⟨hlong, hheader, _, _, tensors, htensors, hmetadata⟩ := h
  cases hmetadata
  obtain ⟨entry, _, hentry⟩ := exists_of_mem_mapM htensors htensor
  have height : (8 : UInt64).toNat = 8 := rfl
  rw [UInt64.le_iff_toNat_le, UInt64.toNat_sub_of_le _ _ hlong, height] at hheader
  rw [ge_iff_le, UInt64.le_iff_toNat_le, height] at hlong
  have hsize := file.getSize.toNat_lt
  have hoffset : 8 + readWord file.data ≤ file.getSize := by
    rw [UInt64.le_iff_toNat_le, UInt64.toNat_add, height, Nat.mod_eq_of_lt (by omega)]
    omega
  rw [← getSize_toNat]
  exact parseEntry_extent hoffset hentry

theorem Coords.get_ok {shape : Coords} {idx : Nat} {value : Int64}
    (h : shape.get idx = .ok value) : value = shape.mDims.getD idx 0 := by
  unfold Coords.get at h
  rw [check_bind_eq_ok] at h
  exact (Except.ok.inj h.2).symm

end EdgeLLM.Ports.Safetensors
