import EdgeLLM.Ports.RowTable

/-!
# When gathered rows are rows of the file

The constructor compares the product of row width and row count, both words,
with the size of the tensor.  It tells the truth about the rows just when the
product of rows, columns and element size in unbounded integers is below
`2 ^ 64`.
-/

namespace EdgeLLM.Ports.RowTable

open Verified
open Safetensors

/-! ## Rows in unbounded integers -/

def elementBytes (dataType : DataType) : Int :=
  match getTypeSize dataType with
  | .ok size => size.toNat
  | .error _ => 0

def exactRows (entry : TensorMetadata) : Int := (entry.shape.mDims.getD 0 0).toInt

/-- One column for a tensor of one dimension. -/
def exactColumns (entry : TensorMetadata) : Int :=
  if entry.shape.mNumDims = 2 then (entry.shape.mDims.getD 1 0).toInt else 1

def exactRowBytes (entry : TensorMetadata) : Int :=
  exactColumns entry * elementBytes entry.dataType

/-- All rows of a tensor have fewer than `2 ^ 64` bytes. -/
def RowsFit (entry : TensorMetadata) : Prop := exactRows entry * exactRowBytes entry < 2 ^ 64

/-- The first byte of a row in the file. -/
def rowStart (dataOffset : UInt64) (entry : TensorMetadata) (id : Int) : Int :=
  dataOffset.toNat + entry.offset.toNat + id * exactRowBytes entry

/-- A row of the table is copied from where it is, within the tensor and within
the file, and any other id is answered with as many zeros. -/
def RowServed (file : MappedFile) (dataOffset : UInt64) (entry : TensorMetadata) (id : Int32)
    (row : RowCopy) : Prop :=
  if 0 ≤ id.toInt ∧ id.toInt < exactRows entry then
    ∃ first bytes, row = .copy first bytes ∧ (first.toNat : Int) = rowStart dataOffset entry id.toInt ∧
      (bytes.toNat : Int) = exactRowBytes entry ∧
      first.toNat + bytes.toNat ≤ dataOffset.toNat + entry.offset.toNat + entry.bytes.toNat ∧
      first.toNat + bytes.toNat ≤ file.data.length
  else ∃ bytes, row = .zero bytes ∧ (bytes.toNat : Int) = exactRowBytes entry

/-! ## One tensor -/

theorem getTypeSize_bounds {dataType : DataType} {size : UInt64}
    (h : getTypeSize dataType = .ok size) :
    elementBytes dataType = size.toNat ∧ 1 ≤ size.toNat ∧ size.toNat ≤ 8 := by
  unfold elementBytes
  rw [h]
  refine ⟨rfl, ?_⟩
  cases dataType <;> cases h <;> decide

section Block

variable {file : MappedFile} {source name : String} {dataOffset : UInt64} {entry : TensorMetadata}
  {rows columns : Int64} {block : RowBlock}

/-- What a block says of its tensor. -/
structure BlockOf (file : MappedFile) (dataOffset : UInt64) (entry : TensorMetadata)
    (rows : Int64) (block : RowBlock) : Prop where
  rows_eq : rows.toInt = exactRows entry
  rows_pos : 0 < rows.toInt
  rows_le : rows.toInt ≤ 2147483647
  width_pos : 0 < exactRowBytes entry
  extent : dataOffset.toNat + entry.offset.toNat + entry.bytes.toNat ≤ file.data.length
  first : (block.first.toNat : Int) = dataOffset.toNat + entry.offset.toNat
  width : Wraps64 block.rowBytes (exactRowBytes entry)
  product : WrapsU64 entry.bytes (exactRows entry * exactRowBytes entry)

theorem rowBlock_blockOf (hrows : rows.toInt = exactRows entry) (hpos : 0 < rows.toInt)
    (hle : rows.toInt ≤ 2147483647) (hcolumns : columns.toInt = exactColumns entry)
    (hcolumnsPos : 0 < columns.toInt)
    (hextent : dataOffset.toNat + entry.offset.toNat + entry.bytes.toNat ≤ file.data.length)
    (h : rowBlock source name dataOffset entry rows columns = .ok block) :
    BlockOf file dataOffset entry rows block := by
  unfold rowBlock at h
  simp only [bind_eq_ok, requireThat_eq_ok, exists_const] at h
  obtain ⟨size, hsize, hproduct, hblock⟩ := h
  cases hblock
  obtain ⟨helement, hone, height⟩ := getTypeSize_bounds hsize
  have hlength := file.size_lt
  have hsigned : Wraps64 size.toInt64 size.toNat := by
    unfold Wraps64
    have hbits : size.toInt64.toInt = (size.toNat : Int).bmod (2 ^ 64) :=
      BitVec.toInt_eq_toNat_bmod size.toBitVec
    rw [hbits]
    exact bmod_modEq _ (2 ^ 64)
  have hwidth : Wraps64 (columns * size.toInt64) (exactRowBytes entry) := by
    unfold exactRowBytes
    rw [helement, ← hcolumns]
    exact (wraps64 columns).mul hsigned
  constructor
  · exact hrows
  · exact hpos
  · exact hle
  · unfold exactRowBytes
    rw [helement, ← hcolumns]
    exact Int.mul_pos hcolumnsPos (by omega)
  · exact hextent
  · apply ((wrapsU64 dataOffset).add (wrapsU64 entry.offset)).eq_of_fits <;> omega
  · exact hwidth
  · rw [← hproduct, Int.mul_comm, ← hrows]
    exact hwidth.toUInt64.mul (wraps64 rows).toUInt64

theorem BlockOf.served (h : BlockOf file dataOffset entry rows block) (hfits : RowsFit entry)
    (id : Int32) : RowServed file dataOffset entry id (copyRow rows block id) := by
  have hpos := h.width_pos
  have hrows := h.rows_pos
  have hlength := file.size_lt
  have hextent := h.extent
  have hfirst := h.first
  unfold RowsFit at hfits
  have htotal : 0 ≤ exactRows entry * exactRowBytes entry :=
    Int.mul_nonneg (by have := h.rows_eq; omega) hpos.le
  have hproduct := h.product.eq_of_fits htotal hfits
  have hone : exactRowBytes entry ≤ exactRows entry * exactRowBytes entry := by
    have hle := Int.mul_le_mul_of_nonneg_right (show (1 : Int) ≤ exactRows entry by
      have := h.rows_eq; omega) hpos.le
    omega
  have hwidth := h.width.toUInt64.eq_of_fits hpos.le (by omega)
  have hid : (id.toInt64).toInt = id.toInt := Int32.toInt_toInt64 id
  have hzero : (0 : Int32).toInt = 0 := rfl
  unfold RowServed copyRow
  simp only [Int32.lt_iff_toInt_lt, ge_iff_le, Int64.le_iff_toInt_le, hid, hzero]
  by_cases hin : 0 ≤ id.toInt ∧ id.toInt < exactRows entry
  · rw [if_pos hin, if_neg (by have := h.rows_eq; omega)]
    have hlast := Int.mul_le_mul_of_nonneg_right (show id.toInt + 1 ≤ exactRows entry by omega)
      hpos.le
    rw [Int.add_mul, Int.one_mul] at hlast
    have hlow := Int.mul_nonneg hin.1 hpos.le
    have hoffset : WrapsU64 (block.first + (id.toInt64 * block.rowBytes).toUInt64)
        (rowStart dataOffset entry id.toInt) := by
      have hadd := (wrapsU64 block.first).add ((wraps64 id.toInt64).mul h.width).toUInt64
      rw [hfirst, hid] at hadd
      exact hadd
    have hstart : rowStart dataOffset entry id.toInt =
        dataOffset.toNat + entry.offset.toNat + id.toInt * exactRowBytes entry := rfl
    have hexact := hoffset.eq_of_fits (by omega) (by omega)
    exact ⟨_, _, rfl, hexact, hwidth, by omega, by omega⟩
  · rw [if_neg hin, if_pos (by have := h.rows_eq; omega)]
    exact ⟨_, rfl, hwidth⟩

/-- The last row alone tells whether the product has wrapped. -/
theorem BlockOf.fits_of_served (h : BlockOf file dataOffset entry rows block)
    (hserved : ∀ id, RowServed file dataOffset entry id (copyRow rows block id)) :
    RowsFit entry := by
  have hrows := h.rows_pos
  have hle := h.rows_le
  have heq := h.rows_eq
  have hlength := file.size_lt
  have hid : (Int32.ofInt (exactRows entry - 1)).toInt = exactRows entry - 1 :=
    (wraps32_ofInt _).eq_of_fits ⟨by omega, by omega⟩
  have hlast := hserved (Int32.ofInt (exactRows entry - 1))
  unfold RowServed at hlast
  rw [hid, if_pos ⟨by omega, by omega⟩] at hlast
  obtain ⟨first, bytes, _, hfirst, hbytes, _, hin⟩ := hlast
  unfold rowStart at hfirst
  rw [Int.sub_mul, Int.one_mul] at hfirst
  unfold RowsFit
  omega

theorem rowBlock_served_iff (h : BlockOf file dataOffset entry rows block) :
    (∀ id, RowServed file dataOffset entry id (copyRow rows block id)) ↔ RowsFit entry :=
  ⟨h.fits_of_served, h.served⟩

/-! ## The constructor -/

variable {parse : List UInt8 → Except String Json} {tableName scaleName : String} {t : HostRowTable}
variable {metadata : FileMetadata} {found : Selected}

/-- The tensors selected are among those looked at. -/
def Selected.Among (found : Selected) (entries : List TensorMetadata) : Prop :=
  (∀ entry ∈ found.table, entry ∈ entries) ∧ ∀ entry ∈ found.scales, entry ∈ entries

theorem selectEntry_among {entries : List TensorMetadata} {found' : Selected}
    (hentry : entry ∈ entries) (hfound : found.Among entries)
    (h : selectEntry source tableName scaleName found entry = .ok found') :
    found'.Among entries := by
  unfold selectEntry at h
  by_cases htable : entry.name = tableName
  · rw [if_pos htable, check_bind_eq_ok] at h
    cases h.2
    exact ⟨fun e he => (Option.some.inj he) ▸ hentry, hfound.2⟩
  · rw [if_neg htable] at h
    by_cases hscales : entry.name = scaleName
    · rw [if_pos hscales, check_bind_eq_ok] at h
      cases h.2
      exact ⟨hfound.1, fun e he => (Option.some.inj he) ▸ hentry⟩
    · rw [if_neg hscales] at h
      cases h
      exact hfound

theorem selectTensors_among {entries : List TensorMetadata}
    (h : selectTensors source tableName scaleName entries = .ok found) : found.Among entries := by
  have hrun : ∀ (rest : List TensorMetadata) start, (∀ e ∈ rest, e ∈ entries) → Selected.Among start entries →
      rest.foldlM (selectEntry source tableName scaleName) start = .ok found →
      found.Among entries := by
    intro rest
    induction rest with
    | nil =>
      intro start _ hstart hfold
      cases hfold
      exact hstart
    | cons e rest ih =>
      intro start hrest hstart hfold
      rw [List.foldlM_cons, bind_eq_ok] at hfold
      obtain ⟨next, hnext, hfold⟩ := hfold
      apply ih next (fun e' he' => hrest e' (List.mem_cons_of_mem e he'))
      · exact selectEntry_among (hrest e List.mem_cons_self) hstart hnext
      · exact hfold
  apply hrun entries {} (fun e he => he) _ h
  constructor <;> intro e he <;> cases he

theorem scalesPerRow_ok {shape : Coords} {perRow : Int64} (h : scalesPerRow shape = .ok perRow) :
    perRow.toInt = if shape.mNumDims = 2 then (shape.mDims.getD 1 0).toInt else 1 := by
  unfold scalesPerRow at h
  by_cases htwo : shape.mNumDims = 2
  · rw [if_pos htwo] at h ⊢
    rw [Coords.get_ok h]
  · rw [if_neg htwo] at h ⊢
    cases h
    rfl

/-- The blocks of a constructed table are those of the tensors it found. -/
theorem ofTensors_blocks (hmetadata : parseMetadata parse file source = .ok metadata)
    (hfound : selectTensors source tableName scaleName metadata.tensors = .ok found)
    (hentry : found.table = some entry)
    (h : ofTensors source tableName scaleName metadata.dataOffset found = .ok t) :
    BlockOf file metadata.dataOffset entry t.rows t.table ∧
      (∀ scales ∈ found.scales, ∃ block, t.scales = some block ∧
        BlockOf file metadata.dataOffset scales t.rows block) := by
  have hamong := selectTensors_among hfound
  unfold ofTensors at h
  rw [hentry] at h
  dsimp only at h
  rw [check_bind_eq_ok, requireThat_eq_ok] at h
  obtain ⟨htwo, h⟩ := h
  simp only [bind_eq_ok, requireThat_eq_ok, exists_const] at h
  obtain ⟨rows, hrows, columns, hcolumns, hpos, hle, block, hblock, scales, hscales, ht⟩ := h
  cases ht
  have hrowsPos := Int64.lt_iff_toInt_lt.1 hpos.1
  have hrowsLe := Int64.le_iff_toInt_le.1 hle
  have hexact : rows.toInt = exactRows entry := by
    rw [Coords.get_ok hrows]
    rfl
  refine ⟨?_, ?_⟩
  · apply rowBlock_blockOf hexact hrowsPos hrowsLe _ (Int64.lt_iff_toInt_lt.1 hpos.2) _ hblock
    · unfold exactColumns
      rw [if_pos htwo, Coords.get_ok hcolumns]
    · exact parseMetadata_extent hmetadata (hamong.1 entry hentry)
  · intro scaleEntry hscaleEntry
    have hsome : found.scales = some scaleEntry := hscaleEntry
    rw [hsome] at hscales
    unfold scaleBlocks at hscales
    dsimp only at hscales
    cases hscaleBlock : scaleBlock source tableName scaleName metadata.dataOffset rows
        scaleEntry with
    | error e =>
      rw [hscaleBlock] at hscales
      cases hscales
    | ok scaleRow =>
      rw [hscaleBlock] at hscales
      cases hscales
      refine ⟨scaleRow, rfl, ?_⟩
      unfold scaleBlock at hscaleBlock
      simp only [bind_eq_ok, requireThat_eq_ok, exists_const] at hscaleBlock
      obtain ⟨_, _, scaleRows, hscaleRows, hsame, perRow, hperRow, hperRowPos, hscale⟩ :=
        hscaleBlock
      apply rowBlock_blockOf _ hrowsPos hrowsLe _ (Int64.lt_iff_toInt_lt.1 hperRowPos) _ hscale
      · rw [← hsame, Coords.get_ok hscaleRows]
        rfl
      · exact scalesPerRow_ok hperRow
      · exact parseMetadata_extent hmetadata (hamong.2 scaleEntry hscaleEntry)

/-- The answer to one id. -/
def Answered (file : MappedFile) (dataOffset : UInt64) (entry : TensorMetadata)
    (scales : Option TensorMetadata) (hasScales : Bool) (id : Int32)
    (answer : RowCopy × Option RowCopy) : Prop :=
  RowServed file dataOffset entry id answer.1 ∧
    (hasScales = true → ∀ scaleEntry ∈ scales, ∃ row ∈ answer.2,
      RowServed file dataOffset scaleEntry id row)

end Block

/-- Every id of every list is answered as it should be. -/
theorem gather_served_iff (parse : List UInt8 → Except String Json) (file : MappedFile)
    (source tableName scaleName : String) (t : HostRowTable)
    (h : construct parse file source tableName scaleName = .ok t) (metadata : FileMetadata)
    (hmetadata : parseMetadata parse file source = .ok metadata) (found : Selected)
    (hfound : selectTensors source tableName scaleName metadata.tensors = .ok found)
    (entry : TensorMetadata) (hentry : found.table = some entry) :
    (∀ ids hasScales answers, t.gather (some ids) true hasScales = .ok answers →
        List.Forall₂ (Answered file metadata.dataOffset entry found.scales hasScales) ids
          answers) ↔
      RowsFit entry ∧ ∀ scaleEntry ∈ found.scales, RowsFit scaleEntry := by
  unfold construct at h
  rw [hmetadata] at h
  change (selectTensors source tableName scaleName metadata.tensors >>= _) = _ at h
  rw [hfound] at h
  obtain ⟨htable, hscales⟩ := ofTensors_blocks hmetadata hfound hentry h
  constructor
  · intro hserved
    have hone : ∀ id, Answered file metadata.dataOffset entry found.scales true id
        (copyRow t.rows t.table id, t.scales.map fun block => copyRow t.rows block id) := by
      intro id
      have hanswers := hserved [id] true _ rfl
      cases hanswers with
      | cons hanswer _ => exact hanswer
    constructor
    · rw [← rowBlock_served_iff htable]
      intro id
      exact (hone id).1
    · intro scaleEntry hscaleEntry
      obtain ⟨block, hblock, hof⟩ := hscales scaleEntry hscaleEntry
      rw [← rowBlock_served_iff hof]
      intro id
      obtain ⟨row, hrow, hrowServed⟩ := (hone id).2 rfl scaleEntry hscaleEntry
      rw [hblock] at hrow
      have heq : copyRow t.rows block id = row := Option.some.inj hrow
      rw [heq]
      exact hrowServed
  · rintro ⟨hfits, hscaleFits⟩ ids hasScales answers hgather
    unfold HostRowTable.gather at hgather
    rw [check_bind_eq_ok] at hgather
    cases hgather.2
    rw [List.forall₂_map_right_iff, Option.getD_some, List.forall₂_same]
    intro id _
    refine ⟨htable.served hfits id, ?_⟩
    intro hcopy scaleEntry hscaleEntry
    obtain ⟨block, hblock, hof⟩ := hscales scaleEntry hscaleEntry
    refine ⟨_, ?_, hof.served (hscaleFits scaleEntry hscaleEntry) id⟩
    rw [if_pos hcopy, hblock]
    rfl

/-! ## Two files -/

def jsonEntry (dtype : String) (shape : List UInt64) (stop : UInt64) : Json :=
  .object [("t", .object [("dtype", .string dtype), ("shape", .array (shape.map .unsigned)),
    ("data_offsets", .array [.unsigned 0, .unsigned stop])])]

/-- `{"t":{"dtype":"U8","shape":[2,3],"data_offsets":[0,6]}}` and six bytes. -/
def smallFile : MappedFile :=
  { data := [55, 0, 0, 0, 0, 0, 0, 0] ++ [
    123, 34, 116, 34, 58, 123, 34, 100, 116, 121, 112, 101, 34, 58, 34, 85, 56, 34, 44, 34, 115,
    104, 97, 112, 101, 34, 58, 91, 50, 44, 51, 93, 44, 34, 100, 97, 116, 97, 95, 111, 102, 102,
    115, 101, 116, 115, 34, 58, 91, 48, 44, 54, 93, 125, 125] ++ [1, 2, 3, 4, 5, 6]
    size_lt := by decide }

/-- `{"t":{"dtype":"F32","shape":[2,2305843009213693952],"data_offsets":[0,0]}}`. -/
def wideFile : MappedFile :=
  { data := [74, 0, 0, 0, 0, 0, 0, 0] ++ [
    123, 34, 116, 34, 58, 123, 34, 100, 116, 121, 112, 101, 34, 58, 34, 70, 51, 50, 34, 44, 34,
    115, 104, 97, 112, 101, 34, 58, 91, 50, 44, 50, 51, 48, 53, 56, 52, 51, 48, 48, 57, 50, 49,
    51, 54, 57, 51, 57, 53, 50, 93, 44, 34, 100, 97, 116, 97, 95, 111, 102, 102, 115, 101, 116,
    115, 34, 58, 91, 48, 44, 48, 93, 125, 125]
    size_lt := by decide }

def parseSmall (_ : List UInt8) : Except String Json := .ok (jsonEntry "U8" [2, 3] 6)

def parseWide (_ : List UInt8) : Except String Json :=
  .ok (jsonEntry "F32" [2, 2305843009213693952] 0)

/-- The table `t` of a header with one entry. -/
def onlyEntry (dataType : DataType) (columns : Int64) (bytes : UInt64) : TensorMetadata :=
  { name := "t", dataType, shape := { mDims := [2, columns], mNumDims := 2 }, offset := 0, bytes }

def onlyTable (dataType : DataType) (first : UInt64) (rowBytes : Int64) : HostRowTable :=
  { mDataType := dataType, rows := 2, table := { first, rowBytes }, scales := none }

theorem gather_served_small :
    (∀ ids hasScales answers,
        (onlyTable .kUINT8 63 3).gather (some ids) true hasScales = .ok answers →
        List.Forall₂ (Answered smallFile 63 (onlyEntry .kUINT8 3 6) none hasScales) ids answers) ↔
      RowsFit (onlyEntry .kUINT8 3 6) ∧
        ∀ scaleEntry ∈ (none : Option TensorMetadata), RowsFit scaleEntry :=
  gather_served_iff parseSmall smallFile "f" "t" "s" (onlyTable .kUINT8 63 3) rfl
    { dataOffset := 63, tensors := [onlyEntry .kUINT8 3 6] } rfl
    { table := some (onlyEntry .kUINT8 3 6), scales := none } rfl (onlyEntry .kUINT8 3 6) rfl

/-- Two rows of `2 ^ 63` bytes are no bytes at all, as words. -/
theorem gather_wide_outside :
    construct parseWide wideFile "f" "t" "s" =
        .ok (onlyTable .kFLOAT 82 (-9223372036854775808)) ∧
      (onlyTable .kFLOAT 82 (-9223372036854775808)).gather (some [0]) true false =
        .ok [(.copy 82 9223372036854775808, none)] ∧
      ¬RowServed wideFile 82 (onlyEntry .kFLOAT 2305843009213693952 0) 0
        (.copy 82 9223372036854775808) := by
  refine ⟨rfl, rfl, ?_⟩
  intro h
  unfold RowServed at h
  rw [if_pos (by decide)] at h
  obtain ⟨first, bytes, hcopy, _, _, _, hin⟩ := h
  cases hcopy
  exact absurd hin (by decide)

end EdgeLLM.Ports.RowTable
