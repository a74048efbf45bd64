import EdgeLLM.Ports.Nvfp4Marlin

/-!
# NVFP4 experts in the Blackwell layout

One buffer holds the codes of all experts of a projection, in tiles of 128
output and 64 input channels; in rows 4 to 7 of each 8 the two halves of 16
bytes are swapped.  The scales lie in tiles of the same order.  The closed form
that gives the address of an element is a placement, and the buffers hold the
padded matrices there.
-/

namespace EdgeLLM.Ports.Nvfp4

open Verified

/-! ## The repacker -/

/-- What the repacker raises. -/
inductive BlackwellError where
  /-- `pad_n_to must be a positive multiple of 128` -/
  | padNTo
  /-- `K={k} must be a positive multiple of 64` -/
  | channels (k : Nat)
  /-- `weight_scale shape {shape} != {expected}` -/
  | scaleShape (shape expected : List Nat)
  /-- `expected [..., 128, 32] row tiles` -/
  | rowTiles
  /-- `at least one expert is required` -/
  | noExperts
  /-- `expert {e} has (N, N_pad, K)={shape}, expected {expected}` -/
  | expertShape (e : Nat) (shape expected : Nat × Nat × Nat)

def tileN : Nat := 128

def tileK : Nat := 64

/-- `repack_nvfp4_a16_blackwell_linear`: the weights, the scales, `n_logical`
and `n_padded`. -/
def repackNvfp4A16BlackwellLinear (weightPacked weightScale : Tensor (BitVec 8)) (padNTo : Nat) :
    Except BlackwellError (Tensor (BitVec 8) × Tensor (BitVec 8) × Nat × Nat) :=
  if padNTo = 0 ∨ padNTo % 128 ≠ 0 then .error .padNTo
  else
    let nLogical := weightPacked.dim 0
    let k := weightPacked.dim 1 * 2
    if k = 0 ∨ k % 64 ≠ 0 then .error (.channels k)
    else
      let expectedScaleShape := [nLogical, k / nvfp4GroupSize]
      if weightScale.shape ≠ expectedScaleShape then
        .error (.scaleShape weightScale.shape expectedScaleShape)
      else
        let nPadded := (nLogical + padNTo - 1) / padNTo * padNTo
        let wp := if nPadded ≠ nLogical then padRows weightPacked nPadded else weightPacked
        let wsI8 := if nPadded ≠ nLogical then padRows weightScale nPadded else weightScale
        let nTiles := nPadded / 128
        let kTiles := k / 64
        let qweights := (wp.reshape [nTiles, 128, kTiles, 32]).permute [0, 2, 1, 3]
        let blockScales := (wsI8.reshape [nTiles, 128, kTiles, 4]).permute [0, 2, 1, 3]
        .ok (qweights, blockScales, nLogical, nPadded)

/-- `out[..., 4:8, half, :] = tiles[..., 4:8, other, :]` -/
def assignHalf (tiles out : Tensor (BitVec 8)) (half other : Nat) : Tensor (BitVec 8) where
  shape := out.shape
  get idx :=
    if 4 ≤ idx.getD 3 0 ∧ idx.getD 3 0 < 8 ∧ idx.getD 4 0 = half then tiles.get (idx.set 4 other)
    else out.get idx

/-- `swizzle_nvfp4_a16_blackwell_moe_row_tiles` of a buffer `[nTiles, kTiles, 128, 32]`. -/
def swizzleNvfp4A16BlackwellMoeRowTiles (qweights : Tensor (BitVec 8)) :
    Except BlackwellError (Tensor (BitVec 8)) :=
  if qweights.shape.drop 2 ≠ [tileN, tileK / 2] then .error .rowTiles
  else
    let tiles := qweights.reshape (qweights.shape.take 2 ++ [16, 8, 2, 16])
    let out := assignHalf tiles (assignHalf tiles tiles 0 1) 1 0
    .ok (out.reshape qweights.shape)

/-- `torch.stack` along a new first axis. -/
def stackTensors (ts : List (Tensor (BitVec 8))) : Tensor (BitVec 8) where
  shape := ts.length :: ((ts.head?.map Tensor.shape).getD [])
  get idx := ((ts[idx.headD 0]?).map fun t => t.get idx.tail).getD 0

/-- One turn of the loop of `_stack`: expert `e` after the ones in `done`. -/
def stackExpert (done : List (Tensor (BitVec 8)) × List (Tensor (BitVec 8)) ×
      Option (Nat × Nat × Nat)) (expert : Nat × Tensor (BitVec 8) × Tensor (BitVec 8)) :
    Except BlackwellError (List (Tensor (BitVec 8)) × List (Tensor (BitVec 8)) ×
      Option (Nat × Nat × Nat)) :=
  match repackNvfp4A16BlackwellLinear expert.2.1 expert.2.2 128 with
  | .error e => .error e
  | .ok (q, s, nLogical, nPadded) =>
    match swizzleNvfp4A16BlackwellMoeRowTiles q with
    | .error e => .error e
    | .ok q =>
      let k := q.dim 1 * tileK
      let shapeE := (nLogical, nPadded, k)
      match done.2.2 with
      | none => .ok (done.1 ++ [q], done.2.1 ++ [s], some shapeE)
      | some shape0 =>
        if shapeE ≠ shape0 then .error (.expertShape expert.1 shapeE shape0)
        else .ok (done.1 ++ [q], done.2.1 ++ [s], some shape0)

/-- `_stack` of `repack_nvfp4_a16_blackwell_moe_experts`: the weights and scales
of all experts and their `(N, N_pad, K)`. -/
def stackExperts (experts : List (Tensor (BitVec 8) × Tensor (BitVec 8))) :
    Except BlackwellError (Tensor (BitVec 8) × Tensor (BitVec 8) × Nat × Nat × Nat) :=
  match (experts.zipIdx.map fun x => (x.2, x.1)).foldlM stackExpert ([], [], none) with
  | .error e => .error e
  | .ok (_, _, none) => .error .noExperts
  | .ok (qs, ss, some shape0) => .ok (stackTensors qs, stackTensors ss, shape0)

def nvfp4A16BlackwellMoeOffsets (n k numKTiles : Nat) : Nat × Bool × Nat :=
  let rowTile := (n / tileN * numKTiles + k / tileK) * tileN + n % tileN
  let byteInRow := k % tileK / 2
  let half := (byteInRow / 16) ^^^ (((n % tileN) >>> 2) &&& 1)
  let qweightByte := rowTile * (tileK / 2) + half * 16 + byteInRow % 16
  let scaleByte := rowTile * (tileK / nvfp4GroupSize) + k % tileK / nvfp4GroupSize
  (qweightByte, k % 2 == 1, scaleByte)

/-! ## The closed form -/

/-- The half of a row that holds its first or second 16 bytes. -/
def halfOf (n half : Nat) : Nat := half ^^^ ((n >>> 2) &&& 1)

section Half

variable {n half : Nat}

theorem halfOf_eq (hhalf : half < 2) : halfOf n half = (half + n / 4 % 2) % 2 := by
  have hall : ∀ a < 2, ∀ b < 2, a ^^^ b = (a + b) % 2 := by decide
  rw [halfOf, Nat.shiftRight_eq_div_pow, Nat.and_one_is_mod]
  exact hall half hhalf _ (Nat.mod_lt _ (by omega))

theorem halfOf_lt (hhalf : half < 2) : halfOf n half < 2 := by
  rw [halfOf_eq hhalf]
  omega

theorem halfOf_halfOf (hhalf : half < 2) : halfOf n (halfOf n half) = half := by
  rw [halfOf_eq (halfOf_lt hhalf), halfOf_eq hhalf]
  omega

end Half

/-- The byte and the nibble of an element. -/
def moePlace (kTiles n k : Nat) : Nat × Nat :=
  (((n / 128 * kTiles + k / 64) * 128 + n % 128) * 32 +
    (halfOf (n % 128) (k % 64 / 32) * 16 + k % 32 / 2), k % 2)

theorem offsets_eq (n k kTiles : Nat) : ((nvfp4A16BlackwellMoeOffsets n k kTiles).1,
      (nvfp4A16BlackwellMoeOffsets n k kTiles).2.1.toNat) = moePlace kTiles n k := by
  have hhigh : k % 64 / 2 / 16 = k % 64 / 32 := by omega
  have hlow : k % 64 / 2 % 16 = k % 32 / 2 := by omega
  have hbit : (k % 2 == 1).toNat = k % 2 := by
    rcases Nat.mod_two_eq_zero_or_one k with h | h <;> simp [h]
  dsimp only [nvfp4A16BlackwellMoeOffsets, moePlace, halfOf, tileN, tileK]
  rw [hhigh, hlow, hbit, Nat.add_assoc]

/-- The codes of an expert of `128 nTiles` by `64 kTiles` elements. -/
def moePlane (nTiles kTiles : Nat) : Placement where
  rows := 128 * nTiles
  cols := 64 * kTiles
  words := nTiles * kTiles * 128 * 32
  fields := 2
  place := moePlace kTiles
  entry i j :=
    let row := i / 32
    let r := row % 128
    let tile := row / 128
    (tile / kTiles * 128 + r,
      tile % kTiles * 64 + (halfOf r (i % 32 / 16) * 32 + (i % 16 * 2 + j)))
  place_lt := by
    intro n k hn hk
    have hhalf := @halfOf_lt (n % 128) (k % 64 / 32) (by omega)
    have htile : n / 128 * kTiles + k / 64 < nTiles * kTiles := index_lt (by omega) (by omega)
    exact ⟨index_lt (index_lt htile (by omega)) (by omega), by dsimp only [moePlace]; omega⟩
  entry_lt := by
    intro i j hi hj
    have hrow := row_lt_of_lt hi
    have htile := row_lt_of_lt hrow
    have hr := row_lt_of_lt htile
    have hc := col_lt_of_lt htile
    have hhalf := @halfOf_lt (i / 32 % 128) (i % 32 / 16) (by omega)
    exact ⟨by dsimp only; omega, by dsimp only; omega⟩
  entry_place := by
    intro n k hn hk
    have hhalf := @halfOf_lt (n % 128) (k % 64 / 32) (by omega)
    have hback := @halfOf_halfOf (n % 128) (k % 64 / 32) (by omega)
    have hk64 : k / 64 < kTiles := by omega
    dsimp only [moePlace]
    generalize halfOf (n % 128) (k % 64 / 32) = half at *
    have hcol : half * 16 + k % 32 / 2 < 32 := by omega
    have hrow : n % 128 < 128 := by omega
    have hhigh : (half * 16 + k % 32 / 2) / 16 = half := by omega
    have hlow : (((n / 128 * kTiles + k / 64) * 128 + n % 128) * 32 +
        (half * 16 + k % 32 / 2)) % 16 = k % 32 / 2 := by omega
    rw [index_div hcol, index_mod hcol, index_div hrow, index_mod hrow, index_div hk64,
      index_mod hk64, hhigh, hlow, hback]
    congr 1 <;> omega
  place_entry := by
    intro i j hi hj
    have hhalf := @halfOf_lt (i / 32 % 128) (i % 32 / 16) (by omega)
    have hback := @halfOf_halfOf (i / 32 % 128) (i % 32 / 16) (by omega)
    have htile := index_eq (i / 32 / 128) kTiles
    have hrow := index_eq (i / 32) 128
    have hbyte := index_eq i 32
    have hr : i / 32 % 128 < 128 := by omega
    dsimp only [moePlace]
    generalize halfOf (i / 32 % 128) (i % 32 / 16) = half at *
    have hcol : half * 32 + (i % 16 * 2 + j) < 64 := by omega
    have hhigh : (half * 32 + (i % 16 * 2 + j)) / 32 = half := by omega
    have hlow : (i / 32 / 128 % kTiles * 64 + (half * 32 + (i % 16 * 2 + j))) % 32 / 2 = i % 16 := by
      omega
    have hfield : (i / 32 / 128 % kTiles * 64 + (half * 32 + (i % 16 * 2 + j))) % 2 = j := by omega
    have hbits : i % 32 / 16 * 16 + i % 16 = i % 32 := by omega
    rw [index_div hr, index_mod hr, index_div hcol, index_mod hcol, hhigh, hlow, hfield, hback,
      hbits, htile, hrow, hbyte]

/-- The scale byte of an element. -/
def scalePlace (kTiles n g : Nat) : Nat :=
  ((n / 128 * kTiles + g / 4) * 128 + n % 128) * 4 + g % 4

theorem offsets_scale (n k kTiles : Nat) :
    (nvfp4A16BlackwellMoeOffsets n k kTiles).2.2 = scalePlace kTiles n (k / 16) := by
  have htile : k / 16 / 4 = k / 64 := by omega
  have hgroup : k / 16 % 4 = k % 64 / 16 := by omega
  dsimp only [nvfp4A16BlackwellMoeOffsets, scalePlace, tileN, tileK, nvfp4GroupSize]
  rw [htile, hgroup]

/-- The scales of an expert of `128 nTiles` rows and `4 kTiles` groups. -/
def scalePlane (nTiles kTiles : Nat) : Placement where
  rows := 128 * nTiles
  cols := 4 * kTiles
  words := nTiles * kTiles * 128 * 4
  fields := 1
  place n g := (scalePlace kTiles n g, 0)
  entry i _ := (i / 4 / 128 / kTiles * 128 + i / 4 % 128, i / 4 / 128 % kTiles * 4 + i % 4)
  place_lt := by
    intro n g hn hg
    have htile : n / 128 * kTiles + g / 4 < nTiles * kTiles := index_lt (by omega) (by omega)
    exact ⟨index_lt (index_lt htile (by omega)) (by omega), Nat.one_pos⟩
  entry_lt := by
    intro i j hi _
    have htile := row_lt_of_lt (row_lt_of_lt hi)
    have hr := row_lt_of_lt htile
    have hc := col_lt_of_lt htile
    exact ⟨by dsimp only; omega, by dsimp only; omega⟩
  entry_place := by
    intro n g hn hg
    have hgroup : g % 4 < 4 := by omega
    have hrow : n % 128 < 128 := by omega
    have htile : g / 4 < kTiles := by omega
    dsimp only [scalePlace]
    rw [index_div hgroup, index_mod hgroup, index_div hrow, index_mod hrow, index_div htile,
      index_mod htile, index_eq, index_eq]
  place_entry := by
    intro i j hi hj
    have hgroup : i % 4 < 4 := by omega
    have hrow : i / 4 % 128 < 128 := by omega
    have hzero : j = 0 := by omega
    dsimp only [scalePlace]
    rw [index_div hrow, index_mod hrow, index_div hgroup, index_mod hgroup, index_eq, index_eq,
      index_eq, hzero]

/-! ## One expert -/

section Plane

variable {packed scale : Tensor (BitVec 8)} {N K nt kt : Nat}

/-- A matrix cut into tiles of 128 rows and `w` columns. -/
theorem tiles_get {t : Tensor (BitVec 8)} {w a b r c : Nat} (ht : t.shape = [nt * 128, kt * w])
    (ha : a < nt) (hb : b < kt) (hr : r < 128) (hc : c < w) :
    ((t.reshape [nt, 128, kt, w]).permute [0, 2, 1, 3]).get [a, b, r, c] =
      t.get [a * 128 + r, b * w + c] := by
  change (t.reshape [nt, 128, kt, w]).get [a, r, b, c] = _
  apply Tensor.get_reshape
  · rw [ht]
    simp only [inShape_cons, inShape_nil, and_true]
    exact ⟨index_lt ha hr, index_lt hb hc⟩
  · rw [ht]
    simp only [offset_cons, offset_nil, List.prod_cons, List.prod_nil]
    ring

theorem padded_get {t : Tensor (BitVec 8)} {C : Nat} (ht : t.shape = [N, C]) (nPadded : Nat) :
    (if nPadded ≠ N then padRows t nPadded else t).shape = [nPadded, C] ∧
      ∀ n < nPadded, ∀ c, (if nPadded ≠ N then padRows t nPadded else t).get [n, c] =
        if n < N then t.get [n, c] else 0 := by
  by_cases hsame : nPadded = N
  · rw [if_neg (not_not.2 hsame), hsame]
    refine ⟨ht, ?_⟩
    intro n hn c
    rw [if_pos hn]
  · rw [if_pos hsame]
    obtain ⟨hshape, hget⟩ := padRows_get ht nPadded
    exact ⟨hshape, fun n _ c => hget n c⟩

theorem repackNvfp4A16BlackwellLinear_get (hpacked : packed.shape = [N, kt * 32])
    (hscale : scale.shape = [N, kt * 4]) (hkt : 0 < kt) :
    ∃ q s, repackNvfp4A16BlackwellLinear packed scale 128 = .ok (q, s, N, (N + 127) / 128 * 128) ∧
      q.shape = [(N + 127) / 128, kt, 128, 32] ∧ s.shape = [(N + 127) / 128, kt, 128, 4] ∧
      (∀ a < (N + 127) / 128, ∀ b < kt, ∀ r < 128, ∀ c < 32, q.get [a, b, r, c] =
        if a * 128 + r < N then packed.get [a * 128 + r, b * 32 + c] else 0) ∧
      ∀ a < (N + 127) / 128, ∀ b < kt, ∀ r < 128, ∀ g < 4, s.get [a, b, r, g] =
        if a * 128 + r < N then scale.get [a * 128 + r, b * 4 + g] else 0 := by
  obtain ⟨hrows, hcols⟩ := dims_of_shape hpacked
  have hk : kt * 32 * 2 = 64 * kt := by omega
  have htiles : 64 * kt / 64 = kt := Nat.mul_div_cancel_left kt (by omega)
  have hgroups : 64 * kt / 16 = kt * 4 := by omega
  have hblocks : (N + 127) / 128 * 128 / 128 = (N + 127) / 128 := Nat.mul_div_cancel _ (by omega)
  obtain ⟨hpackedShape, hpackedGet⟩ := padded_get hpacked ((N + 127) / 128 * 128)
  obtain ⟨hscaleShape, hscaleGet⟩ := padded_get hscale ((N + 127) / 128 * 128)
  unfold repackNvfp4A16BlackwellLinear
  simp only [hrows, hcols, hk, nvfp4GroupSize, htiles, hgroups, hscale]
  rw [if_neg (by omega), if_neg (by omega), if_neg (by simp)]
  simp only [show N + 128 - 1 = N + 127 from rfl, hblocks]
  refine ⟨_, _, rfl, rfl, rfl, ?_, ?_⟩
  · intro a ha b hb r hr c hc
    rw [tiles_get hpackedShape ha hb hr hc, hpackedGet _ (by omega)]
  · intro a ha b hb r hr g hg
    rw [tiles_get hscaleShape ha hb hr hg, hscaleGet _ (by omega)]

theorem swizzle_get {q : Tensor (BitVec 8)} (hq : q.shape = [nt, kt, 128, 32]) :
    ∃ out, swizzleNvfp4A16BlackwellMoeRowTiles q = .ok out ∧ out.shape = [nt, kt, 128, 32] ∧
      ∀ a < nt, ∀ b < kt, ∀ r < 128, ∀ c < 32,
        out.get [a, b, r, c] = q.get [a, b, r, halfOf r (c / 16) * 16 + c % 16] := by
  unfold swizzleNvfp4A16BlackwellMoeRowTiles
  rw [hq, if_neg (by simp [tileN, tileK])]
  refine ⟨_, rfl, rfl, ?_⟩
  intro a ha b hb r hr c hc
  have htile : ∀ h < 2, (q.reshape [nt, kt, 16, 8, 2, 16]).get [a, b, r / 8, r % 8, h, c % 16] =
      q.get [a, b, r, h * 16 + c % 16] := by
    intro h hh
    apply Tensor.get_reshape
    · rw [hq]
      simp only [inShape_cons, inShape_nil, and_true]
      omega
    · rw [hq]
      simp only [offset_cons, offset_nil, List.prod_cons, List.prod_nil, Nat.reduceMul]
      omega
  rw [Tensor.get_reshape [a, b, r / 8, r % 8, c / 16, c % 16]]
  · change (if 4 ≤ r % 8 ∧ r % 8 < 8 ∧ c / 16 = 1 then
        (q.reshape [nt, kt, 16, 8, 2, 16]).get [a, b, r / 8, r % 8, 0, c % 16]
      else if 4 ≤ r % 8 ∧ r % 8 < 8 ∧ c / 16 = 0 then
        (q.reshape [nt, kt, 16, 8, 2, 16]).get [a, b, r / 8, r % 8, 1, c % 16]
      else (q.reshape [nt, kt, 16, 8, 2, 16]).get [a, b, r / 8, r % 8, c / 16, c % 16]) = _
    rw [htile 0 (by omega), htile 1 (by omega), htile (c / 16) (by omega), halfOf_eq (by omega)]
    split
    case isTrue h => rw [show (c / 16 + r / 4 % 2) % 2 = 0 by omega]
    case isFalse h =>
      split
      case isTrue h' => rw [show (c / 16 + r / 4 % 2) % 2 = 1 by omega]
      case isFalse h' => rw [show (c / 16 + r / 4 % 2) % 2 = c / 16 by omega]
  · change InShape [nt, kt, 16, 8, 2, 16] _
    simp only [inShape_cons, inShape_nil, and_true]
    omega
  · change _ = offset [nt, kt, 16, 8, 2, 16] _
    simp only [offset_cons, offset_nil, List.prod_cons, List.prod_nil, Nat.reduceMul]
    omega

theorem flat_tiles {t : Tensor (BitVec 8)} {w i : Nat} (ht : t.shape = [nt, kt, 128, w])
    (hi : i < nt * kt * 128 * w) :
    t.flat i = t.get [i / w / 128 / kt, i / w / 128 % kt, i / w % 128, i % w] := by
  have hrow := row_lt_of_lt hi
  have htile := row_lt_of_lt hrow
  have hin : InShape t.shape [i / w / 128 / kt, i / w / 128 % kt, i / w % 128, i % w] := by
    rw [ht]
    simp only [inShape_cons, inShape_nil, and_true]
    exact ⟨row_lt_of_lt htile, col_lt_of_lt htile, col_lt_of_lt hrow, col_lt_of_lt hi⟩
  have hoffset : offset t.shape [i / w / 128 / kt, i / w / 128 % kt, i / w % 128, i % w] = i := by
    rw [ht]
    simp only [offset_cons, offset_nil, List.prod_cons, List.prod_nil, Nat.mul_one, Nat.add_zero]
    calc i / w / 128 / kt * (kt * (128 * w)) + (i / w / 128 % kt * (128 * w) +
          (i / w % 128 * w + i % w))
        = ((i / w / 128 / kt * kt + i / w / 128 % kt) * 128 + i / w % 128) * w + i % w := by ring
      _ = i := by rw [index_eq, index_eq, index_eq]
  rw [← Tensor.flat_offset hin, hoffset]

/-- The planes of an expert hold its padded codes and scales. -/
theorem expert_holds (hpacked : packed.shape = [N, kt * 32]) (hscale : scale.shape = [N, kt * 4])
    (hkt : 0 < kt) : ∃ q q' s, repackNvfp4A16BlackwellLinear packed scale 128 =
        .ok (q, s, N, (N + 127) / 128 * 128) ∧ swizzleNvfp4A16BlackwellMoeRowTiles q = .ok q' ∧
      q'.shape = [(N + 127) / 128, kt, 128, 32] ∧ s.shape = [(N + 127) / 128, kt, 128, 4] ∧
      (moePlane ((N + 127) / 128) kt).Holds q'.flat (extended N (64 * kt) (codeAt packed) 0#4) ∧
      (scalePlane ((N + 127) / 128) kt).Holds s.flat
        (extended N (4 * kt) (fun n g => scale.get [n, g]) 0#8) := by
  obtain ⟨q, s, hrepack, hq, hs, hqGet, hsGet⟩ :=
    repackNvfp4A16BlackwellLinear_get hpacked hscale hkt
  obtain ⟨q', hswizzle, hq', hq'Get⟩ := swizzle_get hq
  refine ⟨q, q', s, hrepack, hswizzle, hq', hs, ?_, ?_⟩
  · rw [Placement.holds_iff]
    intro i hi j hj
    have hi' : i < (N + 127) / 128 * kt * 128 * 32 := hi
    have hj' : j < 2 := hj
    have hrow := row_lt_of_lt hi'
    have htile := row_lt_of_lt hrow
    have hr := col_lt_of_lt hrow
    have hhalf := @halfOf_lt (i / 32 % 128) (i % 32 / 16) (by omega)
    have hentry := ((moePlane ((N + 127) / 128) kt).entry_lt hi hj).2
    have hlow : i % 32 % 16 = i % 16 := by omega
    rw [flat_tiles hq' hi', hq'Get _ (row_lt_of_lt htile) _ (col_lt_of_lt htile) _ hr _
      (by omega), hlow, hqGet _ (row_lt_of_lt htile) _ (col_lt_of_lt htile) _ hr _ (by omega)]
    dsimp only [moePlane, extended] at hentry ⊢
    generalize halfOf (i / 32 % 128) (i % 32 / 16) = half at *
    by_cases hn : i / 32 / 128 / kt * 128 + i / 32 % 128 < N
    · rw [if_pos hn, if_pos ⟨hn, hentry⟩, codeAt]
      have hbyte : (i / 32 / 128 % kt * 64 + (half * 32 + (i % 16 * 2 + j))) / 2 =
          i / 32 / 128 % kt * 32 + (half * 16 + i % 16) := by omega
      have hfield : (i / 32 / 128 % kt * 64 + (half * 32 + (i % 16 * 2 + j))) % 2 = j := by omega
      rw [hbyte, hfield]
    · rw [if_neg hn, if_neg fun h => hn h.1]
      have hzero : ∀ j < 2, field 4 (0 : BitVec 8) j = 0#4 := by decide
      exact hzero j hj'
  · rw [Placement.holds_iff]
    intro i hi j hj
    have hi' : i < (N + 127) / 128 * kt * 128 * 4 := hi
    have hj' : j < 1 := hj
    have hrow := row_lt_of_lt hi'
    have htile := row_lt_of_lt hrow
    have hentry := ((scalePlane ((N + 127) / 128) kt).entry_lt hi hj).2
    have hwhole : ∀ byte : BitVec 8, field 8 byte 0 = byte := by
      intro byte
      apply BitVec.eq_of_getLsbD_eq
      intro b hb
      rw [getLsbD_field]
      simp [hb]
    rw [flat_tiles hs hi', hsGet _ (row_lt_of_lt htile) _ (col_lt_of_lt htile) _
      (col_lt_of_lt hrow) _ (by omega), show j = 0 by omega, hwhole]
    dsimp only [scalePlane, extended] at hentry ⊢
    by_cases hn : i / 4 / 128 / kt * 128 + i / 4 % 128 < N
    · rw [if_pos hn, if_pos ⟨hn, hentry⟩]
    · rw [if_neg hn, if_neg fun h => hn h.1]
      rfl

end Plane

/-! ## All experts -/

/-- The codes of an expert. -/
def CodePlane (N kt : Nat) (x : Tensor (BitVec 8) × Tensor (BitVec 8)) (q : Tensor (BitVec 8)) :
    Prop :=
  q.shape = [(N + 127) / 128, kt, 128, 32] ∧
    (moePlane ((N + 127) / 128) kt).Holds q.flat (extended N (64 * kt) (codeAt x.1) 0#4)

/-- The scales of an expert. -/
def ScalePlane (N kt : Nat) (x : Tensor (BitVec 8) × Tensor (BitVec 8)) (s : Tensor (BitVec 8)) :
    Prop :=
  s.shape = [(N + 127) / 128, kt, 128, 4] ∧
    (scalePlane ((N + 127) / 128) kt).Holds s.flat
      (extended N (4 * kt) (fun n g => x.2.get [n, g]) 0#8)

section Stack

variable {experts : List (Tensor (BitVec 8) × Tensor (BitVec 8))} {N kt : Nat}

variable {shape0 : Option (Nat × Nat × Nat)} {ts : List (Tensor (BitVec 8))} {e : Nat}

/-- One turn of the loop appends the planes of its expert. -/
theorem stackExpert_eq {x : Tensor (BitVec 8) × Tensor (BitVec 8)}
    (hpacked : x.1.shape = [N, kt * 32]) (hscale : x.2.shape = [N, kt * 4]) (hkt : 0 < kt)
    (hshape0 : shape0 = none ∨ shape0 = some (N, (N + 127) / 128 * 128, 64 * kt)) (e : Nat)
    (qs ss : List (Tensor (BitVec 8))) : ∃ q s, stackExpert (qs, ss, shape0) (e, x) =
        .ok (qs ++ [q], ss ++ [s], some (N, (N + 127) / 128 * 128, 64 * kt)) ∧
      CodePlane N kt x q ∧ ScalePlane N kt x s := by
  obtain ⟨q, q', s, hrepack, hswizzle, hq', hs, hcodes, hscales⟩ := expert_holds hpacked hscale hkt
  have hdim : q'.dim 1 * tileK = 64 * kt := by
    rw [Tensor.dim, hq', Nat.mul_comm]
    rfl
  refine ⟨q', s, ?_, ⟨hq', hcodes⟩, hs, hscales⟩
  unfold stackExpert
  simp only [hrepack, hswizzle, hdim]
  rcases hshape0 with rfl | rfl
  · rfl
  · simp

theorem foldlM_stackExpert (hkt : 0 < kt)
    (hshapes : ∀ x ∈ experts, x.1.shape = [N, kt * 32] ∧ x.2.shape = [N, kt * 4])
    (hne : experts ≠ []) (start : Nat) (qs ss : List (Tensor (BitVec 8)))
    (hshape0 : shape0 = none ∨ shape0 = some (N, (N + 127) / 128 * 128, 64 * kt)) :
    ∃ qs' ss', ((experts.zipIdx start).map fun x => (x.2, x.1)).foldlM stackExpert
        (qs, ss, shape0) = .ok (qs ++ qs', ss ++ ss', some (N, (N + 127) / 128 * 128, 64 * kt)) ∧
      List.Forall₂ (CodePlane N kt) experts qs' ∧ List.Forall₂ (ScalePlane N kt) experts ss' := by
  induction experts generalizing start qs ss shape0 with
  | nil => exact absurd rfl hne
  | cons x experts ih =>
    obtain ⟨hpacked, hscale⟩ := hshapes x List.mem_cons_self
    obtain ⟨q, s, hstep, hcodes, hscales⟩ := stackExpert_eq hpacked hscale hkt hshape0 start qs ss
    rw [List.zipIdx_cons, List.map_cons, List.foldlM_cons, hstep]
    cases hrest : experts with
    | nil => exact ⟨[q], [s], rfl, .cons hcodes .nil, .cons hscales .nil⟩
    | cons y rest =>
      obtain ⟨qs', ss', hrun, hqs', hss'⟩ :=
        ih (fun x hx => hshapes x (List.mem_cons_of_mem _ hx)) (by simp [hrest]) (start + 1)
          (qs ++ [q]) (ss ++ [s]) (Or.inr rfl)
      rw [List.append_assoc, List.append_assoc] at hrun
      rw [hrest] at hrun hqs' hss'
      exact ⟨q :: qs', s :: ss', hrun, .cons hcodes hqs', .cons hscales hss'⟩

theorem stackTensors_flat {t : Tensor (BitVec 8)} {shape : List Nat} {i : Nat}
    (ht : ts[e]? = some t) (hshape : t.shape = shape)
    (hhead : (ts.head?.map Tensor.shape).getD [] = shape) (hi : i < shape.prod) :
    (stackTensors ts).flat (e * shape.prod + i) = t.flat i := by
  unfold Tensor.flat stackTensors
  rw [hhead, unoffset, index_div hi, index_mod hi, hshape]
  simp [ht]

theorem stackTensors_shape {shape : List Nat} (hne : ts ≠ []) (hts : ∀ t ∈ ts, t.shape = shape) :
    (ts.head?.map Tensor.shape).getD [] = shape ∧ (stackTensors ts).shape = ts.length :: shape := by
  obtain ⟨t, rest, rfl⟩ := List.exists_cons_of_ne_nil hne
  have ht := hts t List.mem_cons_self
  exact ⟨ht, congrArg _ ht⟩

theorem forall₂_getElem? {α β : Type*} {R : α → β → Prop} {xs : List α} {ys : List β}
    (h : List.Forall₂ R xs ys) {x : α} (hx : xs[e]? = some x) : ∃ y, ys[e]? = some y ∧ R x y := by
  induction h generalizing e with
  | nil => cases hx
  | @cons x' y xs ys hxy _ ih =>
    cases e with
    | zero =>
      obtain rfl := Option.some.inj hx
      exact ⟨y, rfl, hxy⟩
    | succ e => exact ih hx

theorem forall₂_shape {R : Tensor (BitVec 8) × Tensor (BitVec 8) → Tensor (BitVec 8) → Prop}
    {shape : List Nat} (hR : ∀ x t, R x t → t.shape = shape) (h : List.Forall₂ R experts ts) :
    ∀ t ∈ ts, t.shape = shape := by
  induction h with
  | nil =>
    intro t ht
    cases ht
  | @cons x t xs ts hxt _ ih =>
    intro u hu
    rcases List.mem_cons.1 hu with rfl | hu
    · exact hR x u hxt
    · exact ih u hu

/-- The buffers of all experts follow the executable specification: the code of
an element is the nibble at its offset, its scale the byte at the scale offset,
every byte of a plane belongs to an element and the padding is zero. -/
theorem stack_lossless {K : Nat} (hK : 0 < K) (hK64 : K % 64 = 0) (hne : experts ≠ [])
    (hshapes : ∀ x ∈ experts, x.1.shape = [N, K / 2] ∧ x.2.shape = [N, K / 16]) :
    ∃ q s, stackExperts experts = .ok (q, s, N, (N + 127) / 128 * 128, K) ∧
      q.shape = [experts.length, (N + 127) / 128, K / 64, 128, 32] ∧
      s.shape = [experts.length, (N + 127) / 128, K / 64, 128, 4] ∧
      ∀ e x, experts[e]? = some x →
        Lossless ((N + 127) / 128 * 128) K ((N + 127) / 128 * 128 * K / 2) 2
          (fun n k => ((nvfp4A16BlackwellMoeOffsets n k (K / 64)).1,
            (nvfp4A16BlackwellMoeOffsets n k (K / 64)).2.1.toNat))
          (fun i => q.flat (e * ((N + 127) / 128 * 128 * K / 2) + i))
          (extended N K (codeAt x.1) 0#4) ∧
        Lossless ((N + 127) / 128 * 128) (K / 16) ((N + 127) / 128 * 128 * K / 16) 1
          (fun n g => ((nvfp4A16BlackwellMoeOffsets n (16 * g) (K / 64)).2.2, 0))
          (fun i => s.flat (e * ((N + 127) / 128 * 128 * K / 16) + i))
          (extended N (K / 16) (fun n g => x.2.get [n, g]) 0#8) ∧
        ∀ n k, (nvfp4A16BlackwellMoeOffsets n k (K / 64)).2.2 =
          (nvfp4A16BlackwellMoeOffsets n (16 * (k / 16)) (K / 64)).2.2 := by
  obtain ⟨kt, rfl⟩ := Nat.dvd_of_mod_eq_zero hK64
  have hkt : 0 < kt := by omega
  have htiles : 64 * kt / 64 = kt := Nat.mul_div_cancel_left kt (by omega)
  have hgroups : 64 * kt / 16 = 4 * kt := by omega
  have hshapes' : ∀ x ∈ experts, x.1.shape = [N, kt * 32] ∧ x.2.shape = [N, kt * 4] := by
    intro x hx
    rw [show kt * 32 = 64 * kt / 2 by omega, show kt * 4 = 64 * kt / 16 by omega]
    exact hshapes x hx
  obtain ⟨qs, ss, hrun, hqs, hss⟩ := foldlM_stackExpert hkt hshapes' hne 0 [] [] (Or.inl rfl)
  have hqsNe : qs ≠ [] := by
    rintro rfl
    exact hne (List.length_eq_zero_iff.1 hqs.length_eq)
  have hssNe : ss ≠ [] := by
    rintro rfl
    exact hne (List.length_eq_zero_iff.1 hss.length_eq)
  obtain ⟨hqHead, hqShape⟩ := stackTensors_shape hqsNe (forall₂_shape (fun _ _ h => h.1) hqs)
  obtain ⟨hsHead, hsShape⟩ := stackTensors_shape hssNe (forall₂_shape (fun _ _ h => h.1) hss)
  have hqPlane : (N + 127) / 128 * 128 * (64 * kt) / 2 =
      [(N + 127) / 128, kt, 128, 32].prod := by
    simp only [List.prod_cons, List.prod_nil]
    rw [show (N + 127) / 128 * 128 * (64 * kt) = (N + 127) / 128 * (kt * (128 * (32 * 1))) * 2 by
      ring, Nat.mul_div_cancel _ (by omega)]
  have hsPlane : (N + 127) / 128 * 128 * (64 * kt) / 16 =
      [(N + 127) / 128, kt, 128, 4].prod := by
    simp only [List.prod_cons, List.prod_nil]
    rw [show (N + 127) / 128 * 128 * (64 * kt) = (N + 127) / 128 * (kt * (128 * (4 * 1))) * 16 by
      ring, Nat.mul_div_cancel _ (by omega)]
  have hqWords : [(N + 127) / 128, kt, 128, 32].prod = (N + 127) / 128 * kt * 128 * 32 := by
    simp only [List.prod_cons, List.prod_nil]
    ring
  have hsWords : [(N + 127) / 128, kt, 128, 4].prod = (N + 127) / 128 * kt * 128 * 4 := by
    simp only [List.prod_cons, List.prod_nil]
    ring
  rw [List.nil_append, List.nil_append] at hrun
  refine ⟨stackTensors qs, stackTensors ss, ?_, ?_, ?_, ?_⟩
  · unfold stackExperts
    rw [hrun]
  · rw [hqShape, ← hqs.length_eq, htiles]
  · rw [hsShape, ← hss.length_eq, htiles]
  · intro e x hx
    obtain ⟨q, hq, hqPlaneOf⟩ := forall₂_getElem? hqs hx
    obtain ⟨s, hs, hsPlaneOf⟩ := forall₂_getElem? hss hx
    rw [htiles, hgroups, hqPlane, hsPlane, Nat.mul_comm ((N + 127) / 128) 128]
    refine ⟨?_, ?_, ?_⟩
    · simp only [offsets_eq]
      have hflat : ∀ i < (N + 127) / 128 * kt * 128 * 32,
          (stackTensors qs).flat (e * [(N + 127) / 128, kt, 128, 32].prod + i) = q.flat i := by
        intro i hi
        rw [← hqWords] at hi
        exact stackTensors_flat hq hqPlaneOf.1 hqHead hi
      have hlossless := (hqPlaneOf.2.congr hflat).lossless rfl
      rw [hqWords] at hlossless ⊢
      exact hlossless
    · have hplace : (fun n g => ((nvfp4A16BlackwellMoeOffsets n (16 * g) kt).2.2, 0)) =
          (scalePlane ((N + 127) / 128) kt).place := by
        funext n g
        rw [offsets_scale, Nat.mul_div_cancel_left g (by omega)]
        rfl
      have hflat : ∀ i < (N + 127) / 128 * kt * 128 * 4,
          (stackTensors ss).flat (e * [(N + 127) / 128, kt, 128, 4].prod + i) = s.flat i := by
        intro i hi
        rw [← hsWords] at hi
        exact stackTensors_flat hs hsPlaneOf.1 hsHead hi
      have hlossless := (hsPlaneOf.2.congr hflat).lossless rfl
      rw [hplace]
      rw [hsWords] at hlossless ⊢
      exact hlossless
    · intro n k
      rw [offsets_scale, offsets_scale, Nat.mul_div_cancel_left _ (by omega)]

/-- Two experts of one row and 64 channels. -/
theorem stack_lossless_row :
    ∃ q s, stackExperts [(.full [1, 32] 0x21#8, .full [1, 4] 0x38#8),
        (.full [1, 32] 0x43#8, .full [1, 4] 0x40#8)] = .ok (q, s, 1, 128, 64) ∧
      q.shape = [2, 1, 1, 128, 32] := by
  have hshapes : ∀ x ∈ [((.full [1, 32] 0x21#8, .full [1, 4] 0x38#8) :
      Tensor (BitVec 8) × Tensor (BitVec 8)), (.full [1, 32] 0x43#8, .full [1, 4] 0x40#8)],
      x.1.shape = [1, 64 / 2] ∧ x.2.shape = [1, 64 / 16] := by
    simp [Tensor.full]
  obtain ⟨q, s, hstack, hq, -⟩ := stack_lossless (by decide) rfl (by simp) hshapes
  exact ⟨q, s, hstack, hq⟩

end Stack

end EdgeLLM.Ports.Nvfp4
