import EdgeLLM.Ports.Int4MoeRepack

/-!
# NVFP4 linears in the Marlin layout

An NVFP4 linear has two E2M1 codes a byte and one E4M3 scale for 16 input
channels.  The exporter pads its output channels with zeros, packs the codes as
those of an INT4 expert and scatters the bytes of the scales within blocks of 64
output channels.
-/

namespace EdgeLLM.Ports.Nvfp4

open Verified Int4

/-! ## The exporter -/

/-- What the exporter raises. -/
inductive LinearError where
  /-- `K={k} must be divisible by 16` -/
  | channels (k : Nat)
  /-- `weight_scale shape {shape} != {expected}` -/
  | scaleShape (shape expected : List Nat)
  /-- `N_pad={nPadded} must be divisible by 64` -/
  | paddedRows (nPadded : Nat)
  /-- `k_padded={kPadded} invalid for K={k}` -/
  | paddedChannels (kPadded k : Nat)

def nvfp4GroupSize : Nat := 16

/-- `unpack_nvfp4_codes`; `torch.empty` returns `uninitialised`. -/
def unpackNvfp4Codes (uninitialised : List Nat → BitVec 8) (weightPacked : Tensor (BitVec 8)) :
    Tensor (BitVec 8) :=
  let n := weightPacked.dim 0
  let half := weightPacked.dim 1
  Tensor.assignAll 1 2 [0, 1] id
    (fun k => if k = 0 then weightPacked.map fun w => w &&& 0x0F#8
      else weightPacked.map fun w => w.ushiftRight 4 &&& 0x0F#8) ⟨[n, half * 2], uninitialised⟩

def nvfp4MarlinE4m3ScalePerm : List Nat :=
  (List.range 64).map fun m =>
    let r := m / 8
    let c := m % 8
    let rSw := (r &&& 0x4) ||| ((r &&& 0x1) <<< 1) ||| ((r >>> 1) &&& 0x1)
    8 * c + rSw

def marlinPermuteNvfp4E4m3Scales (uninitialised : List Nat → BitVec 8) (ws : Tensor (BitVec 8))
    (nPadded : Nat) : Except LinearError (Tensor (BitVec 8)) :=
  if nPadded % 64 ≠ 0 then .error (.paddedRows nPadded)
  else
    let numGroups := ws.dim 1
    let fullPerm m := m / 64 * 64 + nvfp4MarlinE4m3ScalePerm.getD (m % 64) 0
    let writes := (List.range numGroups).flatMap fun g => (List.range nPadded).map fun m =>
      ([0, g, fullPerm m], ws.get [m, g])
    .ok { shape := [1, numGroups, nPadded]
          get := writeAll writes uninitialised }

/-- `torch.cat` of a tensor and rows of zeros. -/
def padRows (t : Tensor (BitVec 8)) (nPadded : Nat) : Tensor (BitVec 8) where
  shape := nPadded :: t.shape.tail
  get idx := if idx.headD 0 < t.dim 0 then t.get idx else 0

/-- `torch.cat` of two tensors along the rows. -/
def catRows (t u : Tensor (BitVec 8)) : Tensor (BitVec 8) where
  shape := (t.dim 0 + u.dim 0) :: t.shape.tail
  get idx :=
    if idx.headD 0 < t.dim 0 then t.get idx else u.get ((idx.headD 0 - t.dim 0) :: idx.tail)

/-- A tensor of zeros into whose first columns `t` was assigned. -/
def padCols (t : Tensor (BitVec 8)) (cols : Nat) : Tensor (BitVec 8) where
  shape := [t.dim 0, cols]
  get idx := if idx.getD 1 0 < t.dim 1 then t.get idx else 0

/-- `repack_nvfp4_a16_marlin_linear`: the weights, the scales, `n_logical` and
`n_padded`. -/
def repackNvfp4A16MarlinLinear (uninitialised : List Nat → BitVec 8)
    (weightPacked weightScale : Tensor (BitVec 8)) (padNTo : Nat) :
    Except LinearError (Tensor (BitVec 32) × Tensor (BitVec 8) × Nat × Nat) :=
  let codes := unpackNvfp4Codes uninitialised weightPacked
  let nLogical := codes.dim 0
  let k := codes.dim 1
  if k % nvfp4GroupSize ≠ 0 then .error (.channels k)
  else
    let numGroups := k / nvfp4GroupSize
    if weightScale.shape ≠ [nLogical, numGroups] then
      .error (.scaleShape weightScale.shape [nLogical, numGroups])
    else
      let nPadded := (nLogical + padNTo - 1) / padNTo * padNTo
      let codes := if nPadded ≠ nLogical then padRows codes nPadded else codes
      let wsI8 := if nPadded ≠ nLogical then padRows weightScale nPadded else weightScale
      let qweights := packMarlinWeights (codes.map fun code => code.setWidth 16)
      match marlinPermuteNvfp4E4m3Scales uninitialised wsI8 nPadded with
      | .error e => .error e
      | .ok blockScales => .ok (qweights, blockScales, nLogical, nPadded)

def padNvfp4LinearK (weightPacked weightScale : Tensor (BitVec 8)) (kPadded : Nat) :
    Except LinearError (Tensor (BitVec 8) × Tensor (BitVec 8)) :=
  let k := weightPacked.dim 1 * 2
  if kPadded < k ∨ kPadded % 16 ≠ 0 then .error (.paddedChannels kPadded k)
  else if kPadded = k then .ok (weightPacked, weightScale)
  else .ok (padCols weightPacked (kPadded / 2), padCols weightScale (kPadded / 16))

/-- The code of an output channel and an input channel. -/
def codeAt (weightPacked : Tensor (BitVec 8)) (n k : Nat) : BitVec 4 :=
  field 4 (weightPacked.get [n, k / 2]) (k % 2)

theorem unpack_byte (byte : BitVec 8) : ∀ r < 2,
    (if r = 0 then byte &&& 0x0F#8 else byte.ushiftRight 4 &&& 0x0F#8) = (field 4 byte r).setWidth 8 := by
  revert byte
  decide +kernel

variable {uninitialised : List Nat → BitVec 8}

theorem unpackNvfp4Codes_get
    {weightPacked : Tensor (BitVec 8)} (n k : Nat) :
    (unpackNvfp4Codes uninitialised weightPacked).get [n, k] =
      (codeAt weightPacked n k).setWidth 8 := by
  have hget : (unpackNvfp4Codes uninitialised weightPacked).get [n, k] =
      (if k % 2 = 0 then weightPacked.map fun w => w &&& 0x0F#8
        else weightPacked.map fun w => w.ushiftRight 4 &&& 0x0F#8).get [n, k / 2] := by
    apply @Tensor.get_assignAll _ _ _ k _ [0, 1] _ _ _ (k % 2)
    · simp
    · simp
    · simp
      omega
    · rfl
    · rfl
  rw [hget, codeAt, ← unpack_byte _ _ (Nat.mod_lt k (by omega))]
  split <;> rfl

/-! ## Scales -/

/-- The storage position of the scale of channel `m`. -/
def nvfp4Column (m : Nat) : Nat := m / 64 * 64 + nvfp4MarlinE4m3ScalePerm.getD (m % 64) 0

/-- Swap the two low bits of a row of 8. -/
def swapLow (r : Nat) : Nat := r / 4 * 4 + r % 2 * 2 + r / 2 % 2

theorem nvfp4MarlinE4m3ScalePerm_eq :
    ∀ x < 64, nvfp4MarlinE4m3ScalePerm.getD x 0 = 8 * (x % 8) + swapLow (x / 8) := by
  decide

theorem nvfp4Column_eq (m : Nat) : nvfp4Column m = m / 64 * 64 + (8 * (m % 8) + swapLow (m % 64 / 8)) := by
  rw [nvfp4Column, nvfp4MarlinE4m3ScalePerm_eq _ (Nat.mod_lt m (by omega))]
  omega

private theorem swapLow_all : ∀ r < 8, swapLow r < 8 ∧ swapLow (swapLow r) = r := by
  decide

theorem swapLow_lt {r : Nat} (h : r < 8) : swapLow r < 8 := (swapLow_all r h).1

theorem swapLow_swapLow {r : Nat} (h : r < 8) : swapLow (swapLow r) = r := (swapLow_all r h).2

/-- The channel whose scale is stored at position `j`. -/
def nvfp4Channel (j : Nat) : Nat := j / 64 * 64 + (8 * swapLow (j % 8) + j % 64 / 8)

section Columns

variable {m j N : Nat}

theorem nvfp4Column_lt (hN : N % 64 = 0) (hm : m < N) : nvfp4Column m < N := by
  have hswap := @swapLow_lt (m % 64 / 8) (by omega)
  rw [nvfp4Column_eq]
  omega

theorem nvfp4Channel_lt (hN : N % 64 = 0) (hj : j < N) : nvfp4Channel j < N := by
  have hswap := @swapLow_lt (j % 8) (by omega)
  unfold nvfp4Channel
  omega

theorem nvfp4Channel_nvfp4Column (m : Nat) : nvfp4Channel (nvfp4Column m) = m := by
  have hswap := @swapLow_lt (m % 64 / 8) (by omega)
  have hback := @swapLow_swapLow (m % 64 / 8) (by omega)
  rw [nvfp4Column_eq, nvfp4Channel]
  generalize swapLow (m % 64 / 8) = s at *
  have hrow : (m / 64 * 64 + (8 * (m % 8) + s)) % 8 = s := by omega
  rw [hrow, hback]
  omega

theorem nvfp4Column_nvfp4Channel (j : Nat) : nvfp4Column (nvfp4Channel j) = j := by
  have hswap := @swapLow_lt (j % 8) (by omega)
  have hback := @swapLow_swapLow (j % 8) (by omega)
  rw [nvfp4Column_eq, nvfp4Channel]
  generalize swapLow (j % 8) = s at *
  have hrow : (j / 64 * 64 + (8 * s + j % 64 / 8)) % 64 / 8 = s := by omega
  rw [hrow, hback]
  omega

/-- The scales of whole blocks of channels are permuted. -/
theorem nvfp4Column_bijOn (hN : N % 64 = 0) : Set.BijOn nvfp4Column {m | m < N} {j | j < N} := by
  refine ⟨?_, ?_, ?_⟩
  · intro m hm
    exact nvfp4Column_lt hN hm
  · intro m _ m' _ h
    rw [← nvfp4Channel_nvfp4Column m, h, nvfp4Channel_nvfp4Column]
  · intro j hj
    exact ⟨nvfp4Channel j, nvfp4Channel_lt hN hj, nvfp4Column_nvfp4Channel j⟩

end Columns

/-- Each scale is stored at the position of its channel. -/
theorem marlinPermuteNvfp4E4m3Scales_get
    {ws : Tensor (BitVec 8)} {N G : Nat} (hws : ws.shape = [N, G]) (hN : N % 64 = 0) :
    ∃ out, marlinPermuteNvfp4E4m3Scales uninitialised ws N = .ok out ∧ out.shape = [1, G, N] ∧
      ∀ m < N, ∀ g < G, out.get [0, g, nvfp4Column m] = ws.get [m, g] := by
  have hdim : ws.dim 1 = G := by rw [Tensor.dim, hws]; rfl
  unfold marlinPermuteNvfp4E4m3Scales
  rw [if_neg (by omega), hdim]
  refine ⟨_, rfl, rfl, ?_⟩
  intro m hm g hg
  apply writeAll_of_mem
  · refine ⟨([0, g, nvfp4Column m], ws.get [m, g]), ?_, rfl⟩
    simp only [List.mem_flatMap, List.mem_map, List.mem_range]
    exact ⟨g, hg, m, hm, rfl⟩
  · intro w hw hplace
    simp only [List.mem_flatMap, List.mem_map, List.mem_range] at hw
    obtain ⟨g', _, m', _, rfl⟩ := hw
    have hindex : [0, g', nvfp4Column m'] = [0, g, nvfp4Column m] := hplace
    have hm' : m' = m := by
      rw [← nvfp4Channel_nvfp4Column m', ← nvfp4Channel_nvfp4Column m]
      exact congrArg nvfp4Channel (by simpa using (List.cons.inj (List.cons.inj hindex).2).2)
    have hg' : g' = g := (List.cons.inj (List.cons.inj hindex).2).1
    rw [hm', hg']

section Padding

variable {t u : Tensor (BitVec 8)} {R C R' cols : Nat}

theorem dims_of_shape {α : Type*} {t : Tensor α} (ht : t.shape = [R, C]) :
    t.dim 0 = R ∧ t.dim 1 = C := by
  rw [Tensor.dim, Tensor.dim, ht]
  exact ⟨rfl, rfl⟩

theorem padRows_get (ht : t.shape = [R, C]) (nPadded : Nat) :
    (padRows t nPadded).shape = [nPadded, C] ∧
      ∀ n c, (padRows t nPadded).get [n, c] = if n < R then t.get [n, c] else 0 := by
  constructor
  · change nPadded :: t.shape.tail = _
    rw [ht]
    rfl
  · intro n c
    change (if n < t.dim 0 then t.get [n, c] else 0) = _
    rw [(dims_of_shape ht).1]

theorem padCols_get (ht : t.shape = [R, C]) (cols : Nat) : (padCols t cols).shape = [R, cols] ∧
      ∀ n c, (padCols t cols).get [n, c] = if c < C then t.get [n, c] else 0 := by
  constructor
  · change [t.dim 0, cols] = _
    rw [(dims_of_shape ht).1]
  · intro n c
    change (if c < t.dim 1 then t.get [n, c] else 0) = _
    rw [(dims_of_shape ht).2]

theorem catRows_get (ht : t.shape = [R, C]) (hu : u.shape = [R', C]) :
    (catRows t u).shape = [R + R', C] ∧ ∀ n c,
      (catRows t u).get [n, c] = if n < R then t.get [n, c] else u.get [n - R, c] := by
  constructor
  · change (t.dim 0 + u.dim 0) :: t.shape.tail = _
    rw [(dims_of_shape ht).1, (dims_of_shape hu).1, ht]
    rfl
  · intro n c
    change (if n < t.dim 0 then t.get [n, c] else u.get [n - t.dim 0, c]) = _
    rw [(dims_of_shape ht).1]

end Padding

theorem repackNvfp4A16MarlinLinear_eq
    {packed scale : Tensor (BitVec 8)} {N K padNTo : Nat} (hpacked : packed.shape = [N, K / 2])
    (hscale : scale.shape = [N, K / 16]) (hK : K % 16 = 0) (hN : N % 64 = 0)
    (hpad : 0 < padNTo) (hpadN : N % padNTo = 0) :
    ∃ blockScales, marlinPermuteNvfp4E4m3Scales uninitialised scale N = .ok blockScales ∧
      repackNvfp4A16MarlinLinear uninitialised packed scale padNTo =
        .ok (packMarlinWeights ((unpackNvfp4Codes uninitialised packed).map fun code =>
          code.setWidth 16), blockScales, N, N) := by
  obtain ⟨blockScales, hblock, -⟩ :=
    @marlinPermuteNvfp4E4m3Scales_get uninitialised scale N (K / 16) hscale hN
  refine ⟨blockScales, hblock, ?_⟩
  have hshape : (unpackNvfp4Codes uninitialised packed).shape = [N, K] := by
    rw [unpackNvfp4Codes, Tensor.shape_assignAll, (dims_of_shape hpacked).1,
      (dims_of_shape hpacked).2, show K / 2 * 2 = K by omega]
  obtain ⟨hrows, hcols⟩ := dims_of_shape hshape
  obtain ⟨blocks, rfl⟩ := Nat.dvd_of_mod_eq_zero hpadN
  have hpadded : (padNTo * blocks + padNTo - 1) / padNTo * padNTo = padNTo * blocks := by
    rw [Nat.add_sub_assoc hpad, Nat.mul_add_div hpad, Nat.div_eq_of_lt (by omega), Nat.add_zero,
      Nat.mul_comm]
  unfold repackNvfp4A16MarlinLinear
  simp only [hrows, hcols, nvfp4GroupSize, hK, hscale, hpadded, ne_eq, not_true_eq_false, if_false,
    hblock]

end EdgeLLM.Ports.Nvfp4
