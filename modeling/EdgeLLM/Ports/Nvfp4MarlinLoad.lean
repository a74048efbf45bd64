import EdgeLLM.Ports.Int4Layouts

/-!
# Loading NVFP4 experts in the Marlin layout

The runtime packs the experts of a checkpoint itself, eight experts a launch.
A thread of the weight kernel computes one word, a thread of the scale kernel
moves one byte; each decides by itself whether its position lies in the
checkpoint's matrix or in the padding.  The buffers are those the exporter makes
of the padded matrices.
-/

namespace EdgeLLM.Ports.Nvfp4

open Verified Int4

/-! ## The kernels -/

/-- The size of a projection in the checkpoint and in the engine. -/
structure Nvfp4A16Geometry where
  sourceN : Nat
  sourceK : Nat
  outputN : Nat
  outputK : Nat

/-- The source pointers of one launch, of one projection or of two. -/
structure ProjectionSources where
  first : CheckpointSourceBatch 8
  second : Option (CheckpointSourceBatch 8)

def ProjectionSources.paired (sources : ProjectionSources) : Bool := sources.second.isSome

/-- The projection and the row of it that a thread reads for row `n` and column
`col` of the output; nothing in the padding. -/
def sourceElement (paired : Bool) (outputN sourceRows sourceCols n col : Nat) :
    Option (Bool × Nat) :=
  let useSecond := paired && decide (outputN ≤ n)
  let sourceRow := if useSecond then n - outputN else n
  if sourceRow < sourceRows ∧ col < sourceCols then some (useSecond, sourceRow) else none

/-- The byte at an offset of the source of an expert. -/
def ProjectionSources.byte (sources : ProjectionSources) (useSecond : Bool)
    (expert offset : Nat) : BitVec 8 :=
  let source := if useSecond then (sources.second.getD [])[expert]? else sources.first[expert]?
  (source.getD fun _ => 0) offset

/-- The code a thread packs for output channel `n` and input channel `k`. -/
def marlinCode (sources : ProjectionSources) (shape : Nvfp4A16Geometry) (expert n k : Nat) :
    BitVec 32 :=
  match sourceElement sources.paired shape.outputN shape.sourceN shape.sourceK n k with
  | none => 0
  | some (useSecond, sourceRow) =>
    let byte := sources.byte useSecond expert (sourceRow * (shape.sourceK / 2) + k / 2)
    (byte.setWidth 32 >>> (4 * (k % 2))) &&& 0xF#32

/-- The writes of a launch over `count` experts whose output starts at `output`. -/
def nvfp4W4A16MarlinRepackSourceBatchKernel (sources : ProjectionSources) (output count : Nat)
    (shape : Nvfp4A16Geometry) : List (Nat × BitVec 32) :=
  let N := if sources.paired then 2 * shape.outputN else shape.outputN
  (List.range count).flatMap fun expert => (List.range (shape.outputK / 16)).flatMap fun kTile =>
    (List.range (N / 64)).flatMap fun nTile => (List.range 128).map fun slot =>
      let packed := pack 8 fun p =>
        let packSrc := Marlin.packIndex p
        let n := nTile * 64 + Marlin.columnIndex slot packSrc
        let k := kTile * 16 + Marlin.rowIndex slot packSrc
        marlinCode sources shape expert n k
      let outCol := nTile * 128 + Marlin.outputIndex slot
      (output + ((expert * (shape.outputK / 16) + kTile) * (N / 64 * 128) + outCol), packed)

/-- `none` is `cudaErrorInvalidValue`. -/
def launchNvfp4W4A16MarlinRepackSourceBatch (sources : ProjectionSources) (output count : Nat)
    (shape : Nvfp4A16Geometry) : Option (List (Nat × BitVec 32)) :=
  if count = 0 ∨ kCheckpointSourcesPerLaunch < count ∨ shape.sourceN = 0 ∨ shape.sourceK = 0 ∨
      shape.outputN < shape.sourceN ∨ shape.outputK < shape.sourceK ∨ shape.sourceK % 2 ≠ 0 ∨
      shape.outputK % 16 ≠ 0 ∨ shape.outputN % 64 ≠ 0 then none
  else some (nvfp4W4A16MarlinRepackSourceBatchKernel sources output count shape)

/-- The writes of a launch over the scales of `count` experts. -/
def nvfp4A16MarlinScaleRepackSourceBatchKernel (sources : ProjectionSources)
    (marlin count sourceN sourceGroups outputN outputGroups : Nat) : List (Nat × BitVec 8) :=
  let N := if sources.paired then 2 * outputN else outputN
  let elements := count * outputGroups * N
  let threads := 256
  let blocks := (elements + threads - 1) / threads
  (List.range (blocks * threads)).filterMap fun index =>
    if elements ≤ index then none
    else
      let n := index % N
      let row := index / N
      let expert := row / outputGroups
      let group := row % outputGroups
      let value := match sourceElement sources.paired outputN sourceN sourceGroups n group with
        | none => 0
        | some (useSecond, sourceRow) =>
          sources.byte useSecond expert (sourceRow * sourceGroups + group)
      let offset := n % 64
      let permutationRow := offset / 8
      let column := offset % 8
      let swappedRow := (permutationRow &&& 4) ||| ((permutationRow &&& 1) <<< 1) |||
        ((permutationRow >>> 1) &&& 1)
      let outputColumn := n / 64 * 64 + (8 * column + swappedRow)
      some (marlin + (row * N + outputColumn), value)

/-- `none` is `cudaErrorInvalidValue`. -/
def launchNvfp4W4A16ScaleRepack (sources : ProjectionSources)
    (marlin count sourceN sourceGroups outputN outputGroups : Nat) :
    Option (List (Nat × BitVec 8)) :=
  if count = 0 ∨ kCheckpointSourcesPerLaunch < count ∨ sourceN = 0 ∨ sourceGroups = 0 ∨
      outputN < sourceN ∨ outputGroups < sourceGroups ∨ outputN % 64 ≠ 0 then none
  else some (nvfp4A16MarlinScaleRepackSourceBatchKernel sources marlin count sourceN sourceGroups
    outputN outputGroups)

/-! ## The loader -/

/-- A projection of an expert: `packed` is `[N, K/2]`, `scale` is `[N, K/16]`. -/
structure Linear where
  packed : Tensor (BitVec 8)
  scale : Tensor (BitVec 8)

/-- The experts of a binding: their projections, and for a gated one the second
projections. -/
structure Experts where
  first : List Linear
  second : Option (List Linear)

/-- The sources of a launch. -/
def Experts.sources (experts : Experts) (tensor : Linear → Tensor (BitVec 8))
    (batch : Nat × Nat) : ProjectionSources where
  first := ((experts.first.drop batch.1).take batch.2).map fun p => (tensor p).flat
  second := experts.second.map fun ps =>
    ((ps.drop batch.1).take batch.2).map fun p => (tensor p).flat

/-- The output channels of an expert. -/
def Experts.outputs (experts : Experts) (shape : Nvfp4A16Geometry) : Nat :=
  if experts.second.isSome then 2 * shape.outputN else shape.outputN

/-- `assembleNvfp4A16Qweight` past its checks of the tensors. -/
def assembleNvfp4A16Qweight (experts : Experts) (shape : Nvfp4A16Geometry)
    (destination : Nat → BitVec 32) : Option (Nat → BitVec 32) :=
  let outputWords := shape.outputK / 16 * (2 * experts.outputs shape)
  (checkpointSourceBatches experts.first.length).foldlM (fun output batch =>
    (launchNvfp4W4A16MarlinRepackSourceBatch (experts.sources Linear.packed batch)
      (batch.1 * outputWords) batch.2 shape).map fun writes => writeAll writes output) destination

/-- `assembleNvfp4A16Scale` past its checks of the tensors. -/
def assembleNvfp4A16Scale (experts : Experts) (shape : Nvfp4A16Geometry)
    (destination : Nat → BitVec 8) : Option (Nat → BitVec 8) :=
  let sourceGroups := shape.sourceK / 16
  let outputGroups := shape.outputK / 16
  let outputBytes := outputGroups * experts.outputs shape
  (checkpointSourceBatches experts.first.length).foldlM (fun output batch =>
    (launchNvfp4W4A16ScaleRepack (experts.sources Linear.scale batch) (batch.1 * outputBytes)
      batch.2 shape.sourceN sourceGroups shape.outputN outputGroups).map
      fun writes => writeAll writes output) destination

/-! ## The exporter's matrices -/

/-- The codes and the scales of an expert, padded with zeros along K and N, the
projections of a pair one below the other. -/
def exportedMatrices (shape : Nvfp4A16Geometry) (first : Linear) (second : Option Linear) :
    Except LinearError (Tensor (BitVec 8) × Tensor (BitVec 8)) :=
  match padNvfp4LinearK first.packed first.scale shape.outputK with
  | .error e => .error e
  | .ok (wp, ws) =>
    match second with
    | none => .ok (padRows wp shape.outputN, padRows ws shape.outputN)
    | some second =>
      match padNvfp4LinearK second.packed second.scale shape.outputK with
      | .error e => .error e
      | .ok (wp', ws') =>
        .ok (catRows (padRows wp shape.outputN) (padRows wp' shape.outputN),
          catRows (padRows ws shape.outputN) (padRows ws' shape.outputN))

/-- The tensors of a projection. -/
structure Linear.Shapes (p : Linear) (shape : Nvfp4A16Geometry) : Prop where
  packed : p.packed.shape = [shape.sourceN, shape.sourceK / 2]
  scale : p.scale.shape = [shape.sourceN, shape.sourceK / 16]

/-- The geometry that a load is called with. -/
structure Nvfp4A16Geometry.Valid (shape : Nvfp4A16Geometry) : Prop where
  sourceN : 0 < shape.sourceN
  sourceGroups : 0 < shape.sourceK / 16
  even : shape.sourceK % 2 = 0
  coversN : shape.sourceN ≤ shape.outputN
  coversK : shape.sourceK ≤ shape.outputK
  outputN : shape.outputN % 64 = 0
  outputK : shape.outputK % 16 = 0

section Matrices

variable {shape : Nvfp4A16Geometry} {p : Linear}

theorem padNvfp4LinearK_get (hvalid : shape.Valid) (hp : p.Shapes shape) :
    ∃ wp ws, padNvfp4LinearK p.packed p.scale shape.outputK = .ok (wp, ws) ∧
      wp.shape = [shape.sourceN, shape.outputK / 2] ∧
      ws.shape = [shape.sourceN, shape.outputK / 16] ∧ (∀ n, ∀ c < shape.outputK / 2,
        wp.get [n, c] = if c < shape.sourceK / 2 then p.packed.get [n, c] else 0) ∧
      ∀ n, ∀ g < shape.outputK / 16,
        ws.get [n, g] = if g < shape.sourceK / 16 then p.scale.get [n, g] else 0 := by
  have hdim := (dims_of_shape hp.packed).2
  have heven := hvalid.even
  have hcovers := hvalid.coversK
  have houtput := hvalid.outputK
  have hk : shape.sourceK / 2 * 2 = shape.sourceK := by omega
  unfold padNvfp4LinearK
  simp only [hdim, hk]
  rw [if_neg (by omega)]
  by_cases hsame : shape.outputK = shape.sourceK
  · rw [if_pos hsame, hsame]
    refine ⟨_, _, rfl, hp.packed, hp.scale, ?_, ?_⟩
    · intro n c hc
      rw [if_pos hc]
    · intro n g hg
      rw [if_pos hg]
  · rw [if_neg hsame]
    obtain ⟨hpacked, hpackedGet⟩ := padCols_get hp.packed (shape.outputK / 2)
    obtain ⟨hscale, hscaleGet⟩ := padCols_get hp.scale (shape.outputK / 16)
    exact ⟨_, _, rfl, hpacked, hscale, fun n c _ => hpackedGet n c, fun n g _ => hscaleGet n g⟩

/-- A padded matrix, element by element: row `n` of the output is a row of one
of the projections or of the padding. -/
def element (tensor : Linear → Tensor (BitVec 8)) (shape : Nvfp4A16Geometry) (sourceCols : Nat)
    (first : Linear) (second : Option Linear) (n col : Nat) : BitVec 8 :=
  match sourceElement second.isSome shape.outputN shape.sourceN sourceCols n col with
  | none => 0
  | some (useSecond, row) =>
    (tensor (if useSecond then second.getD first else first)).get [row, col]

theorem element_single (tensor : Linear → Tensor (BitVec 8)) (sourceCols : Nat) (n col : Nat) :
    element tensor shape sourceCols p none n col =
      if n < shape.sourceN ∧ col < sourceCols then (tensor p).get [n, col] else 0 := by
  unfold element sourceElement
  by_cases hin : n < shape.sourceN ∧ col < sourceCols
  · simp [hin]
  · simp [hin]

theorem element_pair (tensor : Linear → Tensor (BitVec 8)) (sourceCols : Nat) (q : Linear)
    (n col : Nat) : element tensor shape sourceCols p (some q) n col =
      if n < shape.outputN then element tensor shape sourceCols p none n col
      else element tensor shape sourceCols q none (n - shape.outputN) col := by
  rw [element_single, element_single]
  unfold element sourceElement
  by_cases hsecond : n < shape.outputN
  · rw [if_pos hsecond]
    by_cases hin : n < shape.sourceN ∧ col < sourceCols
    · simp [Nat.not_le.2 hsecond, hin]
    · simp [Nat.not_le.2 hsecond, hin]
  · rw [if_neg hsecond]
    by_cases hin : n - shape.outputN < shape.sourceN ∧ col < sourceCols
    · simp [Nat.not_lt.1 hsecond, hin]
    · simp [Nat.not_lt.1 hsecond, hin]

/-- The exporter's matrices hold the padded elements. -/
theorem exportedMatrices_get (hvalid : shape.Valid) {second : Option Linear} (hp : p.Shapes shape)
    (hsecond : ∀ q, second = some q → q.Shapes shape) :
    let N := if second.isSome then 2 * shape.outputN else shape.outputN
    ∃ wp ws, exportedMatrices shape p second = .ok (wp, ws) ∧
      wp.shape = [N, shape.outputK / 2] ∧ ws.shape = [N, shape.outputK / 16] ∧
      (∀ n, ∀ c < shape.outputK / 2,
        wp.get [n, c] = element Linear.packed shape (shape.sourceK / 2) p second n c) ∧
      ∀ n, ∀ g < shape.outputK / 16,
        ws.get [n, g] = element Linear.scale shape (shape.sourceK / 16) p second n g := by
  obtain ⟨wp, ws, hpad, hwp, hws, hwpGet, hwsGet⟩ := padNvfp4LinearK_get hvalid hp
  obtain ⟨hwpRows, hwpRowsGet⟩ := padRows_get hwp shape.outputN
  obtain ⟨hwsRows, hwsRowsGet⟩ := padRows_get hws shape.outputN
  have hwpElement : ∀ n, ∀ c < shape.outputK / 2, (padRows wp shape.outputN).get [n, c] =
      element Linear.packed shape (shape.sourceK / 2) p none n c := by
    intro n c hc
    rw [hwpRowsGet, hwpGet n c hc, element_single, ← ite_and]
  have hwsElement : ∀ n, ∀ g < shape.outputK / 16, (padRows ws shape.outputN).get [n, g] =
      element Linear.scale shape (shape.sourceK / 16) p none n g := by
    intro n g hg
    rw [hwsRowsGet, hwsGet n g hg, element_single, ← ite_and]
  unfold exportedMatrices
  rw [hpad]
  cases second with
  | none => exact ⟨_, _, rfl, hwpRows, hwsRows, hwpElement, hwsElement⟩
  | some q =>
    obtain ⟨wp', ws', hpad', hwp', hws', hwpGet', hwsGet'⟩ :=
      padNvfp4LinearK_get hvalid (hsecond q rfl)
    obtain ⟨hwpRows', hwpRowsGet'⟩ := padRows_get hwp' shape.outputN
    obtain ⟨hwsRows', hwsRowsGet'⟩ := padRows_get hws' shape.outputN
    obtain ⟨hwpCat, hwpCatGet⟩ := catRows_get hwpRows hwpRows'
    obtain ⟨hwsCat, hwsCatGet⟩ := catRows_get hwsRows hwsRows'
    simp only [hpad']
    refine ⟨_, _, rfl, ?_, ?_, ?_, ?_⟩
    · rw [hwpCat, ← Nat.two_mul]
      rfl
    · rw [hwsCat, ← Nat.two_mul]
      rfl
    · intro n c hc
      rw [hwpCatGet, element_pair, hwpElement n c hc, hwpRowsGet', hwpGet' _ c hc,
        element_single Linear.packed (shape.sourceK / 2) (n - shape.outputN), ← ite_and]
    · intro n g hg
      rw [hwsCatGet, element_pair, hwsElement n g hg, hwsRowsGet', hwsGet' _ g hg,
        element_single Linear.scale (shape.sourceK / 16) (n - shape.outputN), ← ite_and]

end Matrices

/-! ## Every element once -/

theorem sum_batches (count c : Nat) :
    ((checkpointSourceBatches count).map fun batch => batch.2 * c).sum = count * c := by
  have hfirst : ∀ m, (((List.range m).map fun b => min 8 (count - b * 8) * c).sum) =
      min (m * 8) count * c := by
    intro m
    induction m with
    | zero => simp
    | succ m ih =>
      rw [List.range_succ, List.map_append, List.sum_append, ih, List.map_singleton,
        List.sum_singleton, ← Nat.add_mul]
      congr 1
      omega
  rw [checkpointSourceBatches, List.map_map]
  refine (hfirst _).trans ?_
  congr 1
  simp only [kCheckpointSourcesPerLaunch]
  omega

/-- The writes of the threads of all launches over the weights. -/
def qweightWrites (experts : Experts) (shape : Nvfp4A16Geometry) : List (Nat × BitVec 32) :=
  (checkpointSourceBatches experts.first.length).flatMap fun batch =>
    nvfp4W4A16MarlinRepackSourceBatchKernel (experts.sources Linear.packed batch)
      (batch.1 * (shape.outputK / 16 * (2 * experts.outputs shape))) batch.2 shape

/-- The writes of the threads of all launches over the scales. -/
def scaleWrites (experts : Experts) (shape : Nvfp4A16Geometry) : List (Nat × BitVec 8) :=
  (checkpointSourceBatches experts.first.length).flatMap fun batch =>
    nvfp4A16MarlinScaleRepackSourceBatchKernel (experts.sources Linear.scale batch)
      (batch.1 * (shape.outputK / 16 * experts.outputs shape)) batch.2 shape.sourceN
      (shape.sourceK / 16) shape.outputN (shape.outputK / 16)

section Writes

variable {experts : Experts} {shape : Nvfp4A16Geometry} {output count : Nat}

theorem paired_sources (tensor : Linear → Tensor (BitVec 8)) (batch : Nat × Nat) :
    (experts.sources tensor batch).paired = experts.second.isSome := by
  rw [ProjectionSources.paired, Experts.sources, Option.isSome_map]

/-- The word that a thread of a launch writes. -/
def marlinThread (experts : Experts) (shape : Nvfp4A16Geometry) (batch : Nat × Nat)
    (i kTile nTile slot : Nat) : BitVec 32 :=
  pack 8 fun p =>
    marlinCode (experts.sources Linear.packed batch) shape i
      (nTile * 64 + Marlin.columnIndex slot (Marlin.packIndex p))
      (kTile * 16 + Marlin.rowIndex slot (Marlin.packIndex p))

theorem mem_marlinKernel {batch : Nat × Nat} {w : Nat × BitVec 32} :
    w ∈ nvfp4W4A16MarlinRepackSourceBatchKernel (experts.sources Linear.packed batch) output count
        shape ↔ ∃ i < count, ∃ kTile < shape.outputK / 16, ∃ nTile < experts.outputs shape / 64,
        ∃ slot < 128, w = (output + ((i * (shape.outputK / 16) + kTile) *
          (experts.outputs shape / 64 * 128) + (nTile * 128 + Marlin.outputIndex slot)),
          marlinThread experts shape batch i kTile nTile slot) := by
  simp only [nvfp4W4A16MarlinRepackSourceBatchKernel, paired_sources, List.mem_flatMap,
    List.mem_map, List.mem_range, eq_comm (b := w)]
  rfl

theorem length_marlinKernel (sources : ProjectionSources) :
    (nvfp4W4A16MarlinRepackSourceBatchKernel sources output count shape).length =
      count * (shape.outputK / 16 *
        ((if sources.paired then 2 * shape.outputN else shape.outputN) / 64 * 128)) := by
  simp [nvfp4W4A16MarlinRepackSourceBatchKernel, List.length_flatMap]

theorem outputs_mod (hvalid : shape.Valid) : experts.outputs shape % 64 = 0 := by
  have := hvalid.outputN
  unfold Experts.outputs
  split <;> omega

theorem qweightAddresses_perm (hvalid : shape.Valid) :
    ((qweightWrites experts shape).map Prod.fst).Perm (List.range (experts.first.length *
      (shape.outputK / 16 * (experts.outputs shape / 64 * 128)))) := by
  have hN := @outputs_mod experts shape hvalid
  have hwords : 2 * experts.outputs shape = experts.outputs shape / 64 * 128 := by omega
  apply perm_range_of_cover
  · intro a ha
    obtain ⟨batch, hbatch, i, hi, he⟩ := exists_batch (row_lt_of_lt ha)
    have hr := col_lt_of_lt ha
    have ho := col_lt_of_lt hr
    have haddress : batch.1 * (shape.outputK / 16 * (2 * experts.outputs shape)) +
        ((i * (shape.outputK / 16) + a % (shape.outputK / 16 * (experts.outputs shape / 64 * 128)) /
          (experts.outputs shape / 64 * 128)) * (experts.outputs shape / 64 * 128) +
        (a % (shape.outputK / 16 * (experts.outputs shape / 64 * 128)) %
          (experts.outputs shape / 64 * 128) / 128 * 128 +
          a % (shape.outputK / 16 * (experts.outputs shape / 64 * 128)) %
            (experts.outputs shape / 64 * 128) % 128)) = a := by
      rw [index_eq _ 128, Nat.add_mul, Nat.add_assoc, index_eq, hwords, Nat.mul_assoc,
        ← Nat.add_assoc, ← Nat.add_mul, ← he, index_eq]
    refine List.mem_map.2 ⟨_, List.mem_flatMap.2 ⟨batch, hbatch, mem_marlinKernel.2
      ⟨i, hi, _, row_lt_of_lt hr, _, row_lt_of_lt ho, tileSlot _, tileSlot_lt (col_lt_of_lt ho),
        rfl⟩⟩, ?_⟩
    dsimp only
    rw [outputIndex_tileSlot (col_lt_of_lt ho)]
    exact haddress
  · rw [List.length_map, qweightWrites, List.length_flatMap, ← sum_batches experts.first.length]
    apply congrArg
    apply List.map_congr_left
    intro batch _
    rw [length_marlinKernel, paired_sources]
    rfl

/-- The byte that a thread of a launch moves. -/
def scaleThread (experts : Experts) (shape : Nvfp4A16Geometry) (batch : Nat × Nat)
    (i n group : Nat) : BitVec 8 :=
  match sourceElement experts.second.isSome shape.outputN shape.sourceN (shape.sourceK / 16) n
      group with
  | none => 0
  | some (useSecond, sourceRow) =>
    (experts.sources Linear.scale batch).byte useSecond i
      (sourceRow * (shape.sourceK / 16) + group)

/-- The position a thread computes is the exporter's. -/
theorem outputColumn_eq (n : Nat) :
    n / 64 * 64 + (8 * (n % 64 % 8) + (((n % 64 / 8) &&& 4) ||| (((n % 64 / 8) &&& 1) <<< 1) |||
      (((n % 64 / 8) >>> 1) &&& 1))) = nvfp4Column n := by
  have hlt : n % 64 < 64 := Nat.mod_lt n (by omega)
  rw [nvfp4Column, nvfp4MarlinE4m3ScalePerm, List.getD_eq_getElem?_getD, List.getElem?_map,
    List.getElem?_range hlt]
  rfl

/-- A launch over the scales, element by element. -/
theorem scaleKernel_eq (batch : Nat × Nat) :
    nvfp4A16MarlinScaleRepackSourceBatchKernel (experts.sources Linear.scale batch) output count
        shape.sourceN (shape.sourceK / 16) shape.outputN (shape.outputK / 16) =
      (List.range (count * (shape.outputK / 16) * experts.outputs shape)).map fun index =>
        (output + (index / experts.outputs shape * experts.outputs shape +
            nvfp4Column (index % experts.outputs shape)),
          scaleThread experts shape batch (index / experts.outputs shape / (shape.outputK / 16))
            (index % experts.outputs shape)
            (index / experts.outputs shape % (shape.outputK / 16))) := by
  simp only [nvfp4A16MarlinScaleRepackSourceBatchKernel, paired_sources, outputColumn_eq]
  exact filterMap_guard _ (by omega)

theorem scaleAddresses_perm (hvalid : shape.Valid) :
    ((scaleWrites experts shape).map Prod.fst).Perm (List.range (experts.first.length *
      (shape.outputK / 16 * experts.outputs shape))) := by
  have hN := @outputs_mod experts shape hvalid
  apply perm_range_of_cover
  · intro a ha
    obtain ⟨batch, hbatch, i, hi, he⟩ := exists_batch (row_lt_of_lt ha)
    have hr := col_lt_of_lt ha
    have hn := nvfp4Channel_lt hN (col_lt_of_lt hr)
    have hg := row_lt_of_lt hr
    have hrow := index_lt hi hg
    have hindex := index_lt hrow hn
    simp only [List.mem_map, scaleWrites, List.mem_flatMap, scaleKernel_eq]
    refine ⟨_, ⟨batch, hbatch, _, List.mem_range.2 hindex, rfl⟩, ?_⟩
    dsimp only
    rw [index_div hn, index_mod hn, nvfp4Column_nvfp4Channel, Nat.add_mul, Nat.add_assoc,
      index_eq, Nat.mul_assoc, ← Nat.add_assoc, ← Nat.add_mul, ← he, index_eq]
  · rw [List.length_map, scaleWrites, List.length_flatMap, ← sum_batches experts.first.length]
    apply congrArg
    apply List.map_congr_left
    intro batch _
    rw [scaleKernel_eq, List.length_map, List.length_range, Nat.mul_assoc]

end Writes

/-! ## What the threads write -/

/-- The second projection of an expert. -/
def Experts.secondOf (experts : Experts) (e : Nat) : Option Linear :=
  experts.second.bind fun ps => ps[e]?

/-- The experts of a binding. -/
structure Experts.Shapes (experts : Experts) (shape : Nvfp4A16Geometry) : Prop where
  paired : ∀ second, experts.second = some second → second.length = experts.first.length
  projections : ∀ p, p ∈ experts.first ∨ (∃ second, experts.second = some second ∧ p ∈ second) →
    p.Shapes shape

/-- Row `row` of a projection reads its own element of the source, and nothing
in the padding. -/
theorem sourceElement_row {paired useSecond : Bool} {outputN sourceRows sourceCols row col : Nat}
    (hpaired : useSecond = true → paired = true) (hrow : row < outputN) :
    sourceElement paired outputN sourceRows sourceCols (if useSecond then outputN + row else row)
        col = if row < sourceRows ∧ col < sourceCols then some (useSecond, row) else none := by
  unfold sourceElement
  cases useSecond with
  | true => simp [hpaired rfl]
  | false => simp [Nat.not_le.2 hrow]

theorem sourceElement_lt {paired useSecond : Bool} {outputN sourceRows sourceCols n col row : Nat}
    (h : sourceElement paired outputN sourceRows sourceCols n col = some (useSecond, row)) :
    row < sourceRows ∧ col < sourceCols ∧ (useSecond = true → paired = true) := by
  obtain ⟨hin, hread⟩ := Option.ite_none_right_eq_some.1 h
  obtain ⟨rfl, rfl⟩ := Prod.mk.inj (Option.some.inj hread)
  refine ⟨hin.1, hin.2, ?_⟩
  intro huse
  exact (Bool.and_eq_true_iff.1 huse).1

section Values

variable {experts : Experts} {shape : Nvfp4A16Geometry} {batch : Nat × Nat} {i e : Nat} {p : Linear}

theorem Experts.Shapes.secondOf_isSome (h : experts.Shapes shape) (he : e < experts.first.length) :
    (experts.secondOf e).isSome = experts.second.isSome := by
  unfold Experts.secondOf
  cases hsecond : experts.second with
  | none => rfl
  | some second =>
    have hlength := h.paired second hsecond
    rw [Option.bind_some, List.getElem?_eq_getElem (by omega)]
    rfl

theorem Experts.Shapes.expert (h : experts.Shapes shape) (hp : experts.first[e]? = some p) :
    p.Shapes shape ∧ ∀ q, experts.secondOf e = some q → q.Shapes shape := by
  refine ⟨h.projections p (Or.inl (List.mem_of_getElem? hp)), ?_⟩
  intro q hq
  obtain ⟨second, hsecond, hq⟩ := Option.bind_eq_some_iff.1 hq
  exact h.projections q (Or.inr ⟨second, hsecond, List.mem_of_getElem? hq⟩)

theorem Experts.Shapes.projection (h : experts.Shapes shape) (hp : experts.first[e]? = some p)
    (useSecond : Bool) : (if useSecond then (experts.secondOf e).getD p else p).Shapes shape := by
  obtain ⟨hfirst, hsecond⟩ := h.expert hp
  cases useSecond with
  | false => exact hfirst
  | true =>
    cases hq : experts.secondOf e with
    | none => exact hfirst
    | some q => exact hsecond q hq

/-- The byte a thread of a launch finds in its source. -/
theorem byte_sources (tensor : Linear → Tensor (BitVec 8)) (h : experts.Shapes shape)
    (hi : i < batch.2) (hp : experts.first[batch.1 + i]? = some p) {useSecond : Bool}
    (huse : useSecond = true → experts.second.isSome = true) (offset : Nat) :
    (experts.sources tensor batch).byte useSecond i offset =
      (tensor (if useSecond then (experts.secondOf (batch.1 + i)).getD p else p)).flat offset := by
  have hbatch : ∀ ps : List Linear,
      (((ps.drop batch.1).take batch.2).map fun p => (tensor p).flat)[i]? =
        (ps[batch.1 + i]?).map fun p => (tensor p).flat := by
    intro ps
    rw [List.getElem?_map, List.getElem?_take_of_lt hi, List.getElem?_drop]
  unfold ProjectionSources.byte Experts.sources
  cases useSecond with
  | false =>
    simp only [Bool.false_eq_true, if_false]
    rw [hbatch, hp]
    rfl
  | true =>
    obtain ⟨second, hsecond⟩ := Option.isSome_iff_exists.1 (huse rfl)
    obtain ⟨he, -⟩ := List.getElem?_eq_some_iff.1 hp
    have hlength := h.paired second hsecond
    obtain ⟨q, hq⟩ : ∃ q, second[batch.1 + i]? = some q :=
      ⟨_, List.getElem?_eq_getElem (by omega)⟩
    simp only [if_true, Experts.secondOf, hsecond, Option.map_some, Option.getD_some,
      Option.bind_some]
    rw [hbatch, hq]
    rfl

theorem code_byte (byte : BitVec 8) : ∀ r < 2,
    (byte.setWidth 32 >>> (4 * r)) &&& 0xF#32 = (field 4 byte r).setWidth 32 := by
  revert byte
  decide +kernel

theorem setWidth_code : ∀ code : BitVec 4,
    ((code.setWidth 8).setWidth 16).signExtend 32 = code.setWidth 32 := by
  decide

/-- The code a thread packs is the code of the padded matrix. -/
theorem marlinCode_eq (h : experts.Shapes shape) (hvalid : shape.Valid) (hi : i < batch.2)
    (hp : experts.first[batch.1 + i]? = some p) (n k : Nat) :
    marlinCode (experts.sources Linear.packed batch) shape i n k =
      (field 4 (element Linear.packed shape (shape.sourceK / 2) p
        (experts.secondOf (batch.1 + i)) n (k / 2)) (k % 2)).setWidth 32 := by
  obtain ⟨he, -⟩ := List.getElem?_eq_some_iff.1 hp
  have heven := hvalid.even
  have hcols : sourceElement experts.second.isSome shape.outputN shape.sourceN shape.sourceK n k =
      sourceElement experts.second.isSome shape.outputN shape.sourceN (shape.sourceK / 2) n
        (k / 2) := by
    have hiff : k < shape.sourceK ↔ k / 2 < shape.sourceK / 2 := by omega
    unfold sourceElement
    simp only [hiff]
  unfold marlinCode element
  rw [paired_sources, hcols, h.secondOf_isSome he]
  cases hread : sourceElement experts.second.isSome shape.outputN shape.sourceN
      (shape.sourceK / 2) n (k / 2) with
  | none =>
    have hzero : ∀ r < 2, (field 4 (0 : BitVec 8) r).setWidth 32 = (0 : BitVec 32) := by decide
    exact (hzero (k % 2) (Nat.mod_lt k (by omega))).symm
  | some read =>
    obtain ⟨useSecond, row⟩ := read
    obtain ⟨hrow, hcol, huse⟩ := sourceElement_lt hread
    have hshape := (h.projection hp useSecond).packed
    dsimp only
    rw [byte_sources Linear.packed h hi hp huse, code_byte _ _ (Nat.mod_lt k (by omega)),
      Tensor.flat_matrix hshape hrow hcol]

/-- The byte a thread moves is the scale of the padded matrix. -/
theorem scaleThread_eq (h : experts.Shapes shape) (hi : i < batch.2)
    (hp : experts.first[batch.1 + i]? = some p) (n group : Nat) :
    scaleThread experts shape batch i n group =
      element Linear.scale shape (shape.sourceK / 16) p (experts.secondOf (batch.1 + i)) n
        group := by
  obtain ⟨he, -⟩ := List.getElem?_eq_some_iff.1 hp
  unfold scaleThread element
  rw [h.secondOf_isSome he]
  cases hread : sourceElement experts.second.isSome shape.outputN shape.sourceN
      (shape.sourceK / 16) n group with
  | none => rfl
  | some read =>
    obtain ⟨useSecond, row⟩ := read
    obtain ⟨hrow, hcol, huse⟩ := sourceElement_lt hread
    have hshape := (h.projection hp useSecond).scale
    dsimp only
    rw [byte_sources Linear.scale h hi hp huse, Tensor.flat_matrix hshape hrow hcol]

/-! ## The load -/

theorem assembleNvfp4A16Qweight_eq (hvalid : shape.Valid) (destination : Nat → BitVec 32) :
    assembleNvfp4A16Qweight experts shape destination =
      some (writeAll (qweightWrites experts shape) destination) := by
  apply foldlM_writeAll
  intro batch hbatch
  obtain ⟨hpos, hle, -⟩ := mem_batches hbatch
  obtain ⟨hsourceN, hgroups, heven, hcoversN, hcoversK, houtputN, houtputK⟩ := hvalid
  apply if_neg
  simp only [kCheckpointSourcesPerLaunch]
  omega

theorem assembleNvfp4A16Scale_eq (hvalid : shape.Valid) (destination : Nat → BitVec 8) :
    assembleNvfp4A16Scale experts shape destination =
      some (writeAll (scaleWrites experts shape) destination) := by
  apply foldlM_writeAll
  intro batch hbatch
  obtain ⟨hpos, hle, -⟩ := mem_batches hbatch
  obtain ⟨hsourceN, hgroups, heven, hcoversN, hcoversK, houtputN, houtputK⟩ := hvalid
  apply if_neg
  simp only [kCheckpointSourcesPerLaunch]
  omega

theorem qweight_flat (h : experts.Shapes shape) (hvalid : shape.Valid)
    (uninitialised : List Nat → BitVec 8) (destination : Nat → BitVec 32) {e i : Nat} {p : Linear}
    (hp : experts.first[e]? = some p) {wp : Tensor (BitVec 8)}
    (hwp : wp.shape = [experts.outputs shape, shape.outputK / 2])
    (hget : ∀ n, ∀ c < shape.outputK / 2, wp.get [n, c] =
      element Linear.packed shape (shape.sourceK / 2) p (experts.secondOf e) n c)
    (hi : i < shape.outputK / 16 * (experts.outputs shape / 64 * 128)) :
    writeAll (qweightWrites experts shape) destination
        (e * (shape.outputK / 16 * (experts.outputs shape / 64 * 128)) + i) =
      (packMarlinWeights ((unpackNvfp4Codes uninitialised wp).map fun code =>
        code.setWidth 16)).flat i := by
  obtain ⟨he, -⟩ := List.getElem?_eq_some_iff.1 hp
  have hN := @outputs_mod experts shape hvalid
  have hK := hvalid.outputK
  have ho := col_lt_of_lt hi
  have hr := row_lt_of_lt hi
  have hnTile := row_lt_of_lt ho
  have hslot := tileSlot_lt (col_lt_of_lt ho)
  obtain ⟨batch, hbatch, j, hj, rfl⟩ := exists_batch he
  have hwords : 2 * experts.outputs shape = experts.outputs shape / 64 * 128 := by omega
  -- the thread that writes the address
  have hmem : (batch.1 * (shape.outputK / 16 * (2 * experts.outputs shape)) +
      ((j * (shape.outputK / 16) + i / (experts.outputs shape / 64 * 128)) *
        (experts.outputs shape / 64 * 128) + (i % (experts.outputs shape / 64 * 128) / 128 * 128 +
          Marlin.outputIndex (tileSlot (i % (experts.outputs shape / 64 * 128) % 128)))),
      marlinThread experts shape batch j (i / (experts.outputs shape / 64 * 128))
        (i % (experts.outputs shape / 64 * 128) / 128)
        (tileSlot (i % (experts.outputs shape / 64 * 128) % 128))) ∈ qweightWrites experts shape :=
    List.mem_flatMap.2 ⟨batch, hbatch, mem_marlinKernel.2
      ⟨j, hj, _, hr, _, hnTile, _, hslot, rfl⟩⟩
  have hnodup := (@qweightAddresses_perm experts _ hvalid).nodup_iff.2 List.nodup_range
  have hvalue := @writeAll_of_nodup _ _ _ _ destination hnodup _ hmem
  rw [outputIndex_tileSlot (col_lt_of_lt ho), index_eq _ 128, Nat.add_mul, Nat.add_assoc, index_eq,
    hwords, Nat.mul_assoc, ← Nat.add_assoc, ← Nat.add_mul] at hvalue
  rw [hvalue]
  -- the word the exporter puts there
  have hcodes : ((unpackNvfp4Codes uninitialised wp).map fun code => code.setWidth 16).shape =
      [experts.outputs shape, shape.outputK] := by
    rw [Tensor.shape_map, unpackNvfp4Codes, Tensor.shape_assignAll, (dims_of_shape hwp).1,
      (dims_of_shape hwp).2, show shape.outputK / 2 * 2 = shape.outputK by omega]
  rw [packMarlinWeights_flat hcodes hN hK hi]
  apply pack_congr
  intro l hl
  have hrow := rowIndex_lt (tileSlot (i % (experts.outputs shape / 64 * 128) % 128))
    (Marlin.packIndex l)
  rw [marlinCode_eq h hvalid hj hp, Tensor.get_map, unpackNvfp4Codes_get, setWidth_code, codeAt,
    hget _ _ (by omega)]

theorem flat_plane {t : Tensor (BitVec 8)} {G N i : Nat} (ht : t.shape = [1, G, N])
    (hi : i < G * N) : t.flat i = t.get [0, i / N, i % N] := by
  have hoffset : offset t.shape [0, i / N, i % N] = i := by
    rw [ht]
    simp only [offset_cons, offset_nil, List.prod_cons, List.prod_nil, Nat.mul_one, Nat.zero_mul,
      Nat.zero_add, Nat.add_zero]
    exact index_eq i N
  have hin : InShape t.shape [0, i / N, i % N] := by
    rw [ht]
    simp only [inShape_cons, inShape_nil, and_true]
    exact ⟨Nat.one_pos, row_lt_of_lt hi, col_lt_of_lt hi⟩
  rw [← Tensor.flat_offset hin, hoffset]

/-- The scale bytes of an expert are the exporter's. -/
theorem scale_flat (h : experts.Shapes shape) (hvalid : shape.Valid)
    {uninitialised : List Nat → BitVec 8} (destination : Nat → BitVec 8) {e i : Nat} {p : Linear}
    (hp : experts.first[e]? = some p) {ws blockScales : Tensor (BitVec 8)}
    (hws : ws.shape = [experts.outputs shape, shape.outputK / 16])
    (hget : ∀ n, ∀ g < shape.outputK / 16, ws.get [n, g] =
      element Linear.scale shape (shape.sourceK / 16) p (experts.secondOf e) n g)
    (hblock : marlinPermuteNvfp4E4m3Scales uninitialised ws (experts.outputs shape) =
      .ok blockScales) (hi : i < shape.outputK / 16 * experts.outputs shape) :
    writeAll (scaleWrites experts shape) destination
        (e * (shape.outputK / 16 * experts.outputs shape) + i) = blockScales.flat i := by
  obtain ⟨he, -⟩ := List.getElem?_eq_some_iff.1 hp
  have hN := @outputs_mod experts shape hvalid
  have hn := nvfp4Channel_lt hN (col_lt_of_lt hi)
  have hg := row_lt_of_lt hi
  obtain ⟨batch, hbatch, j, hj, rfl⟩ := exists_batch he
  have hindex := index_lt (index_lt hj hg) hn
  -- the thread that writes the address
  have hmem : (batch.1 * (shape.outputK / 16 * experts.outputs shape) +
      ((j * (shape.outputK / 16) + i / experts.outputs shape) * experts.outputs shape +
        nvfp4Column (nvfp4Channel (i % experts.outputs shape))),
      scaleThread experts shape batch j (nvfp4Channel (i % experts.outputs shape))
        (i / experts.outputs shape)) ∈ scaleWrites experts shape := by
    refine List.mem_flatMap.2 ⟨batch, hbatch, ?_⟩
    rw [scaleKernel_eq]
    refine List.mem_map.2 ⟨_, List.mem_range.2 hindex, ?_⟩
    rw [index_div hn, index_mod hn, index_div hg, index_mod hg]
  have hnodup := (@scaleAddresses_perm experts _ hvalid).nodup_iff.2 List.nodup_range
  have hvalue := @writeAll_of_nodup _ _ _ _ destination hnodup _ hmem
  rw [nvfp4Column_nvfp4Channel, Nat.add_mul, Nat.add_assoc, index_eq, Nat.mul_assoc,
    ← Nat.add_assoc, ← Nat.add_mul] at hvalue
  -- the byte the exporter puts there
  obtain ⟨out, hout, hshape, houtGet⟩ :=
    @marlinPermuteNvfp4E4m3Scales_get uninitialised ws _ _ hws hN
  obtain rfl := Except.ok.inj (hblock.symm.trans hout)
  have hstored := houtGet _ hn _ hg
  rw [nvfp4Column_nvfp4Channel] at hstored
  rw [hvalue, flat_plane hshape hi, hstored, hget _ _ hg, scaleThread_eq h hj hp]

/-- The experts loaded at run time are the exported ones: the words and the
scale bytes of each expert are those of its padded matrices, each element is
written by one thread, and a padded position reads nothing. -/
theorem load_eq_export (h : experts.Shapes shape) (hvalid : shape.Valid)
    (uninitialised : List Nat → BitVec 8) {padNTo : Nat} (hpad : 0 < padNTo)
    (hpadN : experts.outputs shape % padNTo = 0) (words : Nat → BitVec 32)
    (scales : Nat → BitVec 8) :
    ∃ words' scales', assembleNvfp4A16Qweight experts shape words = some words' ∧
      assembleNvfp4A16Scale experts shape scales = some scales' ∧
      (∀ e p, experts.first[e]? = some p → ∃ wp ws qweights blockScales,
        exportedMatrices shape p (experts.secondOf e) = .ok (wp, ws) ∧
        repackNvfp4A16MarlinLinear uninitialised wp ws padNTo =
          .ok (qweights, blockScales, experts.outputs shape, experts.outputs shape) ∧
        qweights.shape = [shape.outputK / 16, experts.outputs shape / 64 * 128] ∧
        blockScales.shape = [1, shape.outputK / 16, experts.outputs shape] ∧
        (∀ i < shape.outputK / 16 * (experts.outputs shape / 64 * 128),
          words' (e * (shape.outputK / 16 * (experts.outputs shape / 64 * 128)) + i) =
            qweights.flat i) ∧
        ∀ i < shape.outputK / 16 * experts.outputs shape,
          scales' (e * (shape.outputK / 16 * experts.outputs shape) + i) = blockScales.flat i) ∧
      ((qweightWrites experts shape).map Prod.fst).Perm (List.range (experts.first.length *
        (shape.outputK / 16 * (experts.outputs shape / 64 * 128)))) ∧
      ((scaleWrites experts shape).map Prod.fst).Perm (List.range (experts.first.length *
        (shape.outputK / 16 * experts.outputs shape))) ∧
      ∀ (useSecond : Bool) (sourceCols row col : Nat),
        (useSecond = true → experts.second.isSome = true) → row < shape.outputN →
        sourceElement experts.second.isSome shape.outputN shape.sourceN sourceCols
            (if useSecond then shape.outputN + row else row) col =
          if row < shape.sourceN ∧ col < sourceCols then some (useSecond, row) else none := by
  refine ⟨_, _, assembleNvfp4A16Qweight_eq hvalid words, assembleNvfp4A16Scale_eq hvalid scales,
    ?_, qweightAddresses_perm hvalid, scaleAddresses_perm hvalid,
    fun _ _ _ _ hpaired hrow => sourceElement_row hpaired hrow⟩
  intro e p hp
  obtain ⟨he, -⟩ := List.getElem?_eq_some_iff.1 hp
  obtain ⟨hfirst, hsecond⟩ := h.expert hp
  have hN := @outputs_mod experts shape hvalid
  have houtputs : (if (experts.secondOf e).isSome then 2 * shape.outputN else shape.outputN) =
      experts.outputs shape := by
    rw [h.secondOf_isSome he]
    rfl
  obtain ⟨wp, ws, hmatrices, hwp, hws, hwpGet, hwsGet⟩ := exportedMatrices_get hvalid hfirst hsecond
  rw [houtputs] at hwp hws
  obtain ⟨blockScales, hblock, hrepack⟩ := @repackNvfp4A16MarlinLinear_eq uninitialised wp ws _ _
    padNTo hwp hws hvalid.outputK hN hpad hpadN
  obtain ⟨out, hout, hshape, -⟩ := @marlinPermuteNvfp4E4m3Scales_get uninitialised ws _ _ hws hN
  obtain rfl := Except.ok.inj (hblock.symm.trans hout)
  refine ⟨wp, ws, _, blockScales, hmatrices, hrepack, ?_, hshape, ?_, ?_⟩
  · apply packMarlinWeights_shape
    rw [Tensor.shape_map, unpackNvfp4Codes, Tensor.shape_assignAll, (dims_of_shape hwp).1,
      (dims_of_shape hwp).2]
    have hK := hvalid.outputK
    rw [show shape.outputK / 2 * 2 = shape.outputK by omega]
  · intro i hi
    exact qweight_flat h hvalid uninitialised words hp hwp hwpGet hi
  · intro i hi
    exact scale_flat h hvalid scales hp hws hwsGet hblock hi

/-- One gated expert of 32 by 16 codes in tiles of 64 by 16. -/
def gatedExpert : Linear := ⟨.full [32, 8] 0x21#8, .full [32, 1] 0x38#8⟩

theorem load_eq_export_gated :
    ∃ words' scales', assembleNvfp4A16Qweight ⟨[gatedExpert], some [gatedExpert]⟩
        ⟨32, 16, 64, 16⟩ (fun _ => 0) = some words' ∧
      assembleNvfp4A16Scale ⟨[gatedExpert], some [gatedExpert]⟩ ⟨32, 16, 64, 16⟩
        (fun _ => 0) = some scales' := by
  have hshapes : Experts.Shapes ⟨[gatedExpert], some [gatedExpert]⟩ ⟨32, 16, 64, 16⟩ := by
    constructor
    · rintro second ⟨⟩
      rfl
    · rintro p (hp | ⟨second, ⟨⟩, hp⟩)
      · rw [List.mem_singleton.1 hp]
        exact ⟨rfl, rfl⟩
      · rw [List.mem_singleton.1 hp]
        exact ⟨rfl, rfl⟩
  have hvalid : Nvfp4A16Geometry.Valid ⟨32, 16, 64, 16⟩ :=
    ⟨by decide, by decide, rfl, by decide, by decide, rfl, rfl⟩
  obtain ⟨words', scales', hwords, hscales, -⟩ :=
    @load_eq_export _ _ hshapes hvalid (fun _ => 0) 128 (by decide) rfl (fun _ => 0) (fun _ => 0)
  exact ⟨words', scales', hwords, hscales⟩

end Values

end EdgeLLM.Ports.Nvfp4
