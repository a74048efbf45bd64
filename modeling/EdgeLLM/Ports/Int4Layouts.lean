import EdgeLLM.Ports.Int4PluginLayout
import EdgeLLM.Ports.Nvfp4Marlin
import Mathlib.Tactic.IntervalCases

/-!
# Where the INT4 layouts put a code

The exporter writes its three INT4 layouts as reshapes and transpositions, as
nested loops and as literal tables.  Each of them is a placement given by one
index formula: the codes of a matrix, padded for the fragment layout to blocks
of 128 by 64, fill the fields of the buffer, one each.
-/

namespace EdgeLLM.Ports.Int4

open Verified

/-! ## The index formulas -/

/-- Where `_pack_intweights` puts input channel `k`, before the rows are
interleaved. -/
def packTarget (k : Nat) : Nat := k / 32 * 32 + (k % 8 / 2 * 8 + k % 2 * 4 + k % 32 / 8)

section Digits

variable {b x y z : Nat}

/-- The digits of a position within its block of 32 are exchanged. -/
theorem packTarget_digits (hx : x < 4) (hy : y < 4) (hz : z < 2) :
    packTarget (b * 32 + (x * 8 + y * 2 + z)) = b * 32 + (y * 8 + z * 4 + x) := by
  have hblock : (b * 32 + (x * 8 + y * 2 + z)) / 32 = b := by omega
  have hhigh : (b * 32 + (x * 8 + y * 2 + z)) % 32 / 8 = x := by omega
  have hmiddle : (b * 32 + (x * 8 + y * 2 + z)) % 8 / 2 = y := by omega
  have hlow : (b * 32 + (x * 8 + y * 2 + z)) % 2 = z := by omega
  rw [packTarget, hblock, hhigh, hmiddle, hlow]

theorem packSource_digits (hx : x < 4) (hy : y < 4) (hz : z < 2) :
    packSource (b * 32 + (y * 8 + z * 4 + x)) = b * 32 + (x * 8 + y * 2 + z) := by
  have hblock : (b * 32 + (y * 8 + z * 4 + x)) / 32 = b := by omega
  have hhigh : (b * 32 + (y * 8 + z * 4 + x)) % 32 / 8 = y := by omega
  have hmiddle : (b * 32 + (y * 8 + z * 4 + x)) % 8 / 4 = z := by omega
  have hlow : (b * 32 + (y * 8 + z * 4 + x)) % 4 = x := by omega
  have hlast : (y * 8 + (x * 2 + z)) % 8 = x * 2 + z := by omega
  have hx' : (x * 2 + z) / 2 = x := by omega
  have hy' : (y * 8 + (x * 2 + z)) / 8 = y := by omega
  have hz' : (y * 8 + (x * 2 + z)) % 2 = z := by omega
  simp only [packSource, hblock, hhigh, hmiddle, hlow, hlast, hx', hy', hz']

end Digits

theorem packSource_packTarget (k : Nat) : packSource (packTarget k) = k := by
  have hdigits : k = k / 32 * 32 + (k % 32 / 8 * 8 + k % 8 / 2 * 2 + k % 2) := by omega
  rw [hdigits, packTarget_digits (by omega) (by omega) (by omega),
    packSource_digits (by omega) (by omega) (by omega)]

theorem packTarget_packSource (k : Nat) : packTarget (packSource k) = k := by
  have hdigits : k = k / 32 * 32 + (k % 32 / 8 * 8 + k % 8 / 4 * 4 + k % 4) := by omega
  rw [hdigits, packSource_digits (by omega) (by omega) (by omega),
    packTarget_digits (by omega) (by omega) (by omega)]

theorem packTarget_lt {q k : Nat} (hk : k < 64 * q) : packTarget k < 64 * q := by
  have hx : k % 32 / 8 < 4 := by omega
  have hy : k % 8 / 2 < 4 := by omega
  have hz : k % 2 < 2 := by omega
  unfold packTarget
  omega

/-- The shapes that `_pack_intweights` passes to `reshape`, which keeps the
number of elements or raises. -/
structure PackAccepts (N K : Nat) : Prop where
  permuted : N * (K / 32 * 32) = N * K
  interleaved : N / 4 * 4 * (K / 64 * 64) = N * K
  packed : N / 4 * (K / 64 * 64) = N / 4 * K

section Accepts

variable {N K : Nat}

/-- Only whole blocks are accepted, or an empty matrix. -/
theorem PackAccepts.blocks (h : PackAccepts N K) (hN : 0 < N) (hK : 0 < K) :
    N % 4 = 0 ∧ K % 64 = 0 := by
  obtain ⟨hrows, hcols⟩ := eq_of_mul_eq_mul (by omega) (by omega) hN hK h.interleaved
  omega

theorem packAccepts_of_blocks (hN : N % 4 = 0) (hK : K % 64 = 0) : PackAccepts N K := by
  have hrows : N / 4 * 4 = N := by omega
  have hwide : K / 32 * 32 = K := by omega
  have hcols : K / 64 * 64 = K := by omega
  exact ⟨by rw [hwide], by rw [hrows, hcols], by rw [hcols]⟩

end Accepts

/-- The word and the position in it of a code of a matrix of `K` columns. -/
def packPlace (K n k : Nat) : Nat × Nat :=
  let p := packTarget k
  (n / 4 * K + (p / 64 * 64 + n % 4 * 16 + p % 64 / 4), p % 4)

def packEntry (K i j : Nat) : Nat × Nat :=
  let c := i % K
  (4 * (i / K) + c % 64 / 16, packSource (c / 64 * 64 + (c % 64 % 16 * 4 + j)))

section PackPlace

variable {m q n k i j : Nat}

theorem packPlace_lt (hn : n < 4 * m) (hk : k < 64 * q) :
    (packPlace (64 * q) n k).1 < m * (64 * q) ∧ (packPlace (64 * q) n k).2 < 4 := by
  have hp := packTarget_lt hk
  exact ⟨index_lt (by omega) (by omega), by dsimp only [packPlace]; omega⟩

theorem packEntry_lt (hi : i < m * (64 * q)) (hj : j < 4) :
    (packEntry (64 * q) i j).1 < 4 * m ∧ (packEntry (64 * q) i j).2 < 64 * q := by
  have hr := row_lt_of_lt hi
  have hc := col_lt_of_lt hi
  exact ⟨by dsimp only [packEntry]; omega, packSource_lt (by omega) (by omega)⟩

theorem packEntry_packPlace (hk : k < 64 * q) :
    packEntry (64 * q) (packPlace (64 * q) n k).1 (packPlace (64 * q) n k).2 = (n, k) := by
  have hp := packTarget_lt hk
  have hk' := packSource_packTarget k
  dsimp only [packEntry, packPlace]
  rw [index_div (by omega), index_mod (by omega)]
  generalize packTarget k = p at *
  have hsplit : (p / 64 * 64 + n % 4 * 16 + p % 64 / 4) / 64 * 64 +
      ((p / 64 * 64 + n % 4 * 16 + p % 64 / 4) % 64 % 16 * 4 + p % 4) = p := by omega
  rw [hsplit, hk']
  congr 1
  omega

theorem packPlace_packEntry (hi : i < m * (64 * q)) (hj : j < 4) :
    packPlace (64 * q) (packEntry (64 * q) i j).1 (packEntry (64 * q) i j).2 = (i, j) := by
  have hc := col_lt_of_lt hi
  have hi' := index_eq i (64 * q)
  dsimp only [packEntry, packPlace]
  rw [packTarget_packSource]
  generalize i % (64 * q) = c at *
  generalize i / (64 * q) = r at *
  have hrow : (4 * r + c % 64 / 16) / 4 = r := by omega
  have hcol : (c / 64 * 64 + (c % 64 % 16 * 4 + j)) / 64 * 64 + (4 * r + c % 64 / 16) % 4 * 16 +
      (c / 64 * 64 + (c % 64 % 16 * 4 + j)) % 64 / 4 = c := by omega
  rw [hrow, hcol, hi']
  congr 1
  omega

end PackPlace

/-- `_pack_intweights` of whole blocks: four codes a word. -/
def pluginV1 (m q : Nat) : Placement where
  rows := 4 * m
  cols := 64 * q
  words := m * (64 * q)
  fields := 4
  place := packPlace (64 * q)
  entry := packEntry (64 * q)
  place_lt := packPlace_lt
  entry_lt := packEntry_lt
  entry_place _ hk := packEntry_packPlace hk
  place_entry := packPlace_packEntry

section Fragments

variable {b x y z v u : Nat}

theorem fragmentRow_digits (hx : x < 2) (hy : y < 2) (hz : z < 32) :
    (b * 128 + (x * 64 + y * 32 + z)) / 128 = b ∧ (b * 128 + (x * 64 + y * 32 + z)) % 128 / 64 = x ∧
      (b * 128 + (x * 64 + y * 32 + z)) % 64 / 32 = y ∧
      (b * 128 + (x * 64 + y * 32 + z)) % 32 = z := by
  refine ⟨?_, ?_, ?_, ?_⟩ <;> omega

theorem fragmentCol_digits (hx : x < 4) (hy : y < 2) (hz : z < 4) (hv : v < 2) :
    (b * 64 + (x * 16 + y * 8 + z * 2 + v)) / 64 = b ∧
      (b * 64 + (x * 16 + y * 8 + z * 2 + v)) % 64 / 16 = x ∧
      (b * 64 + (x * 16 + y * 8 + z * 2 + v)) % 16 / 8 = y ∧
      (b * 64 + (x * 16 + y * 8 + z * 2 + v)) % 8 / 2 = z ∧
      (b * 64 + (x * 16 + y * 8 + z * 2 + v)) % 2 = v := by
  refine ⟨?_, ?_, ?_, ?_, ?_⟩ <;> omega

theorem fragmentField_digits (hy : y < 2) (hz : z < 2) :
    (x * 4 + y * 2 + z) / 4 = x ∧ (x * 4 + y * 2 + z) % 4 / 2 = y ∧
      (x * 4 + y * 2 + z) % 2 = z := by
  refine ⟨?_, ?_, ?_⟩ <;> omega

theorem fragmentRow_eq (n : Nat) :
    n / 128 * 128 + (n % 128 / 64 * 64 + n % 64 / 32 * 32 + n % 32) = n := by
  have hhigh : n % 128 / 64 * 64 + n % 64 = n % 128 := by omega
  have hlow : n % 64 / 32 * 32 + n % 32 = n % 64 := by omega
  omega

theorem fragmentCol_eq (k : Nat) :
    k / 64 * 64 + (k % 64 / 16 * 16 + k % 16 / 8 * 8 + k % 8 / 2 * 2 + k % 2) = k := by
  have hhigh : k % 64 / 16 * 16 + k % 16 = k % 64 := by omega
  have hmiddle : k % 16 / 8 * 8 + k % 8 = k % 16 := by omega
  have hlow : k % 8 / 2 * 2 + k % 2 = k % 8 := by omega
  omega

end Fragments

/-- The word and the position in it of a code of a matrix of `tiles` tiles of
64 columns. -/
def fragmentPlace (tiles n k : Nat) : Nat × Nat :=
  (((n / 128 * tiles + k / 64) * 8 + (k % 64 / 16 * 2 + n % 128 / 64)) * 128 +
      (n % 32 * 4 + k % 8 / 2),
    k % 2 * 4 + n % 64 / 32 * 2 + k % 16 / 8)

/-- `repack_to_cutedsl_fragment` of `blocks` blocks of 128 rows and `tiles`
tiles of 64 columns: rows of 128 words of eight codes. -/
def cutedslFragment (blocks tiles : Nat) : Placement where
  rows := 128 * blocks
  cols := 64 * tiles
  words := blocks * tiles * 8 * 128
  fields := 8
  place := fragmentPlace tiles
  entry i j :=
    let tile := i / 128 / 8
    let fragment := i / 128 % 8
    let thread := i % 128
    (tile / tiles * 128 + (fragment % 2 * 64 + j % 4 / 2 * 32 + thread / 4),
      tile % tiles * 64 + (fragment / 2 * 16 + j % 2 * 8 + thread % 4 * 2 + j / 4))
  place_lt := by
    intro n k hn hk
    have hn128 : n / 128 < blocks := Nat.div_lt_of_lt_mul hn
    have hk64 : k / 64 < tiles := Nat.div_lt_of_lt_mul hk
    have htile : n / 128 * tiles + k / 64 < blocks * tiles := index_lt hn128 hk64
    have hfragment : k % 64 / 16 * 2 + n % 128 / 64 < 8 := by omega
    have hthread : n % 32 * 4 + k % 8 / 2 < 128 := by omega
    exact ⟨index_lt (index_lt htile hfragment) hthread, by dsimp only [fragmentPlace]; omega⟩
  entry_lt := by
    intro i j hi hj
    have htile := row_lt_of_lt (row_lt_of_lt hi)
    have hr := row_lt_of_lt htile
    have hc := col_lt_of_lt htile
    exact ⟨by dsimp only; omega, by dsimp only; omega⟩
  entry_place := by
    intro n k hn hk
    have hfragment : k % 64 / 16 * 2 + n % 128 / 64 < 8 := by omega
    have hthread : n % 32 * 4 + k % 8 / 2 < 128 := by omega
    have hk64 : k / 64 < tiles := Nat.div_lt_of_lt_mul hk
    have hp : n % 128 / 64 < 2 := by omega
    have hq : k % 8 / 2 < 4 := by omega
    obtain ⟨hodd, hhigh, hupper⟩ := @fragmentField_digits (k % 2) (n % 64 / 32) (k % 16 / 8)
      (by omega) (by omega)
    dsimp only [fragmentPlace]
    rw [index_div hthread, index_mod hthread, index_div hfragment, index_mod hfragment,
      index_div hk64, index_mod hk64, index_div hp, index_mod hp, index_div hq, index_mod hq,
      hodd, hhigh, hupper, fragmentRow_eq, fragmentCol_eq]
  place_entry := by
    intro i j hi hj
    have hrow := index_eq i 128
    have hfragment := index_eq (i / 128) 8
    have htile := index_eq (i / 128 / 8) tiles
    have hpair := index_eq (i / 128 % 8) 2
    have hquad := index_eq (i % 128) 4
    obtain ⟨hnb, hp, hhi, ht⟩ := @fragmentRow_digits (i / 128 / 8 / tiles) (i / 128 % 8 % 2)
      (j % 4 / 2) (i % 128 / 4) (by omega) (by omega) (by omega)
    obtain ⟨hkt, hkbl, hupper, hq, hodd⟩ := @fragmentCol_digits (i / 128 / 8 % tiles)
      (i / 128 % 8 / 2) (j % 2) (i % 128 % 4) (j / 4) (by omega) (Nat.mod_lt _ Nat.two_pos)
      (by omega) (by omega)
    dsimp only [fragmentPlace]
    rw [hnb, hp, hhi, ht, hkt, hkbl, hupper, hq, hodd, htile, hpair, hquad, hfragment, hrow,
      Prod.mk.injEq]
    omega

/-- The slot of a tile and the position in its word of a code in row `r` and
column `c` of the transposed tile. -/
def marlinSlot (r c : Nat) : Nat := (c / 16 * 8 + c % 8) * 4 + r % 8 / 2

def marlinPosition (r c : Nat) : Nat := r % 2 * 4 + c % 16 / 8 * 2 + r / 8

/-- The slot whose word is at column `o` of a tile. -/
def tileSlot (o : Nat) : Nat := o % 4 * 32 + o / 4

section MarlinTile

/-! A tile has 16 by 64 codes, so its formulas are checked code by code. -/

variable {r c slot j o : Nat}

theorem marlinSlot_lt (hc : c < 64) : marlinSlot r c < 128 := by
  unfold marlinSlot
  omega

theorem marlinPosition_lt (hr : r < 16) : marlinPosition r c < 8 := by
  unfold marlinPosition
  omega

theorem tileSlot_lt (ho : o < 128) : tileSlot o < 128 := by
  unfold tileSlot
  omega

theorem tileSlot_outputIndex (hslot : slot < 128) : tileSlot (Marlin.outputIndex slot) = slot := by
  unfold tileSlot Marlin.outputIndex
  omega

theorem outputIndex_tileSlot (ho : o < 128) : Marlin.outputIndex (tileSlot o) = o := by
  unfold tileSlot Marlin.outputIndex
  omega

private theorem tile_entry : ∀ r < 16, ∀ c < 64,
    Marlin.columnIndex (marlinSlot r c) (Marlin.packIndex (marlinPosition r c)) = c ∧
      Marlin.rowIndex (marlinSlot r c) (Marlin.packIndex (marlinPosition r c)) = r := by
  decide +kernel

private theorem tile_place : ∀ slot < 128, ∀ j < 8,
    marlinSlot (Marlin.rowIndex slot (Marlin.packIndex j))
        (Marlin.columnIndex slot (Marlin.packIndex j)) = slot ∧
      marlinPosition (Marlin.rowIndex slot (Marlin.packIndex j))
        (Marlin.columnIndex slot (Marlin.packIndex j)) = j := by
  decide +kernel

theorem columnIndex_marlin (hr : r < 16) (hc : c < 64) :
    Marlin.columnIndex (marlinSlot r c) (Marlin.packIndex (marlinPosition r c)) = c :=
  (tile_entry r hr c hc).1

theorem rowIndex_marlin (hr : r < 16) (hc : c < 64) :
    Marlin.rowIndex (marlinSlot r c) (Marlin.packIndex (marlinPosition r c)) = r :=
  (tile_entry r hr c hc).2

theorem marlinSlot_entry (hslot : slot < 128) (hj : j < 8) :
    marlinSlot (Marlin.rowIndex slot (Marlin.packIndex j))
      (Marlin.columnIndex slot (Marlin.packIndex j)) = slot :=
  (tile_place slot hslot j hj).1

theorem marlinPosition_entry (hslot : slot < 128) (hj : j < 8) :
    marlinPosition (Marlin.rowIndex slot (Marlin.packIndex j))
      (Marlin.columnIndex slot (Marlin.packIndex j)) = j :=
  (tile_place slot hslot j hj).2

end MarlinTile

/-- The shapes that `pack_int4_awq_marlin` passes to `reshape`. -/
def MarlinAccepts (N K : Nat) : Prop := K / 16 * 16 * (N / 64 * 64) = K * N

theorem MarlinAccepts.tiles {N K : Nat} (h : MarlinAccepts N K) (hN : 0 < N) (hK : 0 < K) :
    N % 64 = 0 ∧ K % 16 = 0 := by
  obtain ⟨hcols, hrows⟩ := eq_of_mul_eq_mul (by omega) (by omega) hK hN h
  omega

/-- The word and the position in it of a code of a matrix of `nTiles` tiles of
64 rows. -/
def marlinPlace (nTiles n k : Nat) : Nat × Nat :=
  (k / 16 * (nTiles * 128) + (n / 64 * 128 + Marlin.outputIndex (marlinSlot (k % 16) (n % 64))),
    marlinPosition (k % 16) (n % 64))

/-- The weights of `pack_int4_awq_marlin` of `64 nTiles` rows and `16 kTiles`
columns: eight codes a word. -/
def marlinTiles (nTiles kTiles : Nat) : Placement where
  rows := 64 * nTiles
  cols := 16 * kTiles
  words := kTiles * (nTiles * 128)
  fields := 8
  place := marlinPlace nTiles
  entry i j :=
    let o := i % (nTiles * 128)
    (o / 128 * 64 + Marlin.columnIndex (tileSlot (o % 128)) (Marlin.packIndex j),
      i / (nTiles * 128) * 16 + Marlin.rowIndex (tileSlot (o % 128)) (Marlin.packIndex j))
  place_lt := by
    intro n k hn hk
    have hslot : marlinSlot (k % 16) (n % 64) < 128 := marlinSlot_lt (by omega)
    have hcolumn : n / 64 * 128 + Marlin.outputIndex (marlinSlot (k % 16) (n % 64)) <
        nTiles * 128 := index_lt (by omega) (outputIndex_lt hslot)
    exact ⟨index_lt (by omega) hcolumn, marlinPosition_lt (by omega)⟩
  entry_lt := by
    intro i j hi hj
    have hr := row_lt_of_lt hi
    have hc := row_lt_of_lt (col_lt_of_lt hi)
    have hslot := tileSlot_lt (col_lt_of_lt (col_lt_of_lt hi))
    have hrow := rowIndex_lt (tileSlot (i % (nTiles * 128) % 128)) (Marlin.packIndex j)
    have hcolumn := columnIndex_lt hslot (Marlin.packIndex j)
    exact ⟨by dsimp only; omega, by dsimp only; omega⟩
  entry_place := by
    intro n k hn hk
    have hr : k % 16 < 16 := by omega
    have hc : n % 64 < 64 := by omega
    have hslot := @marlinSlot_lt (k % 16) _ hc
    have hlt := outputIndex_lt hslot
    have hcolumn : n / 64 * 128 + Marlin.outputIndex (marlinSlot (k % 16) (n % 64)) <
        nTiles * 128 := index_lt (by omega) hlt
    dsimp only [marlinPlace]
    rw [index_div hcolumn, index_mod hcolumn, index_div hlt, index_mod hlt,
      tileSlot_outputIndex hslot, columnIndex_marlin hr hc, rowIndex_marlin hr hc, index_eq, index_eq]
  place_entry := by
    intro i j hi hj
    have hc := col_lt_of_lt hi
    have ho := col_lt_of_lt hc
    have hslot := tileSlot_lt ho
    have hrow := rowIndex_lt (tileSlot (i % (nTiles * 128) % 128)) (Marlin.packIndex j)
    have hcolumn := columnIndex_lt hslot (Marlin.packIndex j)
    dsimp only [marlinPlace]
    rw [index_div hcolumn, index_mod hcolumn, index_div hrow, index_mod hrow,
      marlinSlot_entry hslot hj, marlinPosition_entry hslot hj, outputIndex_tileSlot ho, index_eq,
      index_eq]

/-! ## What the buffers hold -/

/-- The matrix of codes of a tensor. -/
def codeOf (t : Tensor (BitVec 16)) (n k : Nat) : BitVec 4 := (t.get [n, k]).setWidth 4

/-- A matrix of codes. -/
structure Codes (N K : Nat) (t : Tensor (BitVec 16)) : Prop where
  shape : t.shape = [N, K]
  lt : ∀ n < N, ∀ k < K, (t.get [n, k]).toNat < 16

section Holds

variable {t : Tensor (BitVec 16)}

theorem packIntweights_holds {m q : Nat} (h : Codes (4 * m) (64 * q) t) :
    (pluginV1 m q).Holds (packIntweights t).flat (codeOf t) := by
  rw [Placement.holds_iff]
  intro i hi j hj
  have hi' : i < m * (64 * q) := hi
  have hj' : j < 4 := hj
  have hr := row_lt_of_lt hi'
  have hc := col_lt_of_lt hi'
  have hflat := @packIntweights_flat _ _ t h.shape (by omega) (by omega) (i / (64 * q))
    (i % (64 * q)) (by omega) hc
  rw [index_eq] at hflat
  rw [hflat, field_pack _ (Nat.le_refl _) hj']
  · rfl
  · intro l hl
    have hentry := (pluginV1 m q).entry_lt hi (show l < 4 from hl)
    exact h.lt _ hentry.1 _ hentry.2

theorem Codes.same {N K : Nat} (h : Codes N K t) :
    SameCodes N K (fun n k => (t.get [n, k]).setWidth 8) t where
  shape := h.shape
  code := by
    intro n hn k hk
    have hlt := h.lt n hn k hk
    have hvalue : ((t.get [n, k]).setWidth 32).toNat < 16 := by
      rwa [BitVec.toNat_setWidth_of_le (by omega)]
    refine ⟨⟨(t.get [n, k]).setWidth 32, hvalue⟩, ?_, ?_⟩
    · apply BitVec.eq_of_toNat_eq
      simp only [BitVec.toNat_setWidth]
      omega
    · apply BitVec.eq_of_toNat_eq
      simp only [BitVec.toNat_setWidth]
      omega

theorem signExtend_code {value : BitVec 16} (h : value.toNat < 16) :
    (value.signExtend 32).toNat < 16 ∧ (value.signExtend 32).setWidth 4 = value.setWidth 4 := by
  have hmsb : value.msb = false := by
    rw [BitVec.msb_eq_decide, decide_eq_false_iff_not]
    omega
  rw [BitVec.signExtend_eq_setWidth_of_msb_false hmsb]
  constructor
  · rwa [BitVec.toNat_setWidth_of_le (by omega)]
  · apply BitVec.eq_of_toNat_eq
    simp only [BitVec.toNat_setWidth]
    omega

theorem packMarlinWeights_shape {N K : Nat} (ht : t.shape = [N, K]) :
    (packMarlinWeights t).shape = [K / 16, N / 64 * 128] := by
  change [t.dim 1 / 16, t.dim 0 / 64 * 128] = _
  rw [Tensor.dim, Tensor.dim, ht]
  rfl

theorem packMarlinWeights_flat {N K i : Nat} (ht : t.shape = [N, K]) (hN : N % 64 = 0)
    (hK : K % 16 = 0) (hi : i < K / 16 * (N / 64 * 128)) :
    (packMarlinWeights t).flat i = pack 8 fun p =>
      (t.get [i % (N / 64 * 128) / 128 * 64 +
          Marlin.columnIndex (tileSlot (i % (N / 64 * 128) % 128)) (Marlin.packIndex p),
        i / (N / 64 * 128) * 16 +
          Marlin.rowIndex (tileSlot (i % (N / 64 * 128) % 128)) (Marlin.packIndex p)]).signExtend
        32 := by
  have ho := col_lt_of_lt (col_lt_of_lt hi)
  have hget := @packMarlinWeights_get _ _ t ht hN hK _ _ _ (row_lt_of_lt hi)
    (row_lt_of_lt (col_lt_of_lt hi)) (tileSlot_lt ho)
  have hflat := Tensor.flat_matrix (packMarlinWeights_shape ht) (row_lt_of_lt hi)
    (col_lt_of_lt hi)
  rw [index_eq] at hflat
  rw [outputIndex_tileSlot ho, index_eq] at hget
  rw [hflat, hget]

theorem packMarlinWeights_holds {nTiles kTiles : Nat} (h : Codes (64 * nTiles) (16 * kTiles) t) :
    (marlinTiles nTiles kTiles).Holds (packMarlinWeights t).flat (codeOf t) := by
  rw [Placement.holds_iff]
  intro i hi j hj
  have hi' : i < kTiles * (nTiles * 128) := hi
  have hj' : j < 8 := hj
  have hrows : 64 * nTiles / 64 = nTiles := Nat.mul_div_cancel_left _ (by omega)
  have hcols : 16 * kTiles / 16 = kTiles := Nat.mul_div_cancel_left _ (by omega)
  have hflat := @packMarlinWeights_flat t _ _ i h.shape (Nat.mul_mod_right 64 nTiles)
    (Nat.mul_mod_right 16 kTiles) (by rwa [hrows, hcols])
  rw [hrows] at hflat
  have hlt : ∀ l < 8, (t.get [i % (nTiles * 128) / 128 * 64 +
      Marlin.columnIndex (tileSlot (i % (nTiles * 128) % 128)) (Marlin.packIndex l),
      i / (nTiles * 128) * 16 +
        Marlin.rowIndex (tileSlot (i % (nTiles * 128) % 128)) (Marlin.packIndex l)]).toNat < 16 := by
    intro l hl
    have hentry := (marlinTiles nTiles kTiles).entry_lt hi (show l < 8 from hl)
    exact h.lt _ hentry.1 _ hentry.2
  rw [hflat, field_pack (fun l hl => (signExtend_code (hlt l hl)).1) (by omega) hj']
  exact (signExtend_code (hlt j hj')).2

/-- The row and the column that a field of a fragment word is read from. -/
theorem fragmentRow_getD {j : Nat} (lo : Nat) (hj : j < 8) :
    [lo, lo, lo + 32, lo + 32, lo, lo, lo + 32, lo + 32].getD j 0 = lo + j % 4 / 2 * 32 := by
  interval_cases j <;> rfl

theorem fragmentCol_getD {j : Nat} (k : Nat) (hj : j < 8) :
    [k, k + 8, k, k + 8, k + 1, k + 9, k + 1, k + 9].getD j 0 = k + (j % 2 * 8 + j / 4) := by
  interval_cases j <;> rfl

/-- Each field of a fragment word is the code of its entry, or the filler below
the matrix. -/
theorem field_directFragmentWord {accessor : Accessor} {N tiles blocks i j : Nat}
    (hlt : ∀ n < N, ∀ k < 64 * tiles, (accessor n k).toNat < 16)
    (hi : i < blocks * tiles * 8 * 128) (hj : j < 8) :
    field 4 (directFragmentWord accessor N (64 * tiles) (i / 128) (i % 128)) j =
      extended N (64 * tiles) (fun n k => (accessor n k).setWidth 4) 8#4
        ((cutedslFragment blocks tiles).entry i j).1
        ((cutedslFragment blocks tiles).entry i j).2 := by
  have hentry : ∀ l < 8, ((cutedslFragment blocks tiles).entry i l).2 < 64 * tiles :=
    fun l hl => ((cutedslFragment blocks tiles).entry_lt hi (show l < 8 from hl)).2
  have hrow : ∀ l < 8, i / 128 / 8 / tiles * 128 + i % 128 / 4 + i / 128 % 8 % 2 * 64 +
      l % 4 / 2 * 32 = ((cutedslFragment blocks tiles).entry i l).1 := by
    intro l hl
    dsimp only [cutedslFragment]
    omega
  have hcol : ∀ l < 8, i / 128 / 8 % tiles * 64 + i / 128 % 8 / 2 * 16 + 2 * (i % 128 % 4) +
      (l % 2 * 8 + l / 4) = ((cutedslFragment blocks tiles).entry i l).2 := by
    intro l hl
    dsimp only [cutedslFragment]
    omega
  have htiles : 64 * tiles / 64 = tiles := Nat.mul_div_cancel_left _ (by omega)
  have hsmall : ∀ {x : BitVec 8}, x.toNat < 16 → (x.setWidth 32).toNat < 16 := by
    intro x hx
    rwa [BitVec.toNat_setWidth_of_le (by omega)]
  dsimp only [directFragmentWord]
  rw [htiles, field_pack _ (by omega) hj, fragmentRow_getD _ hj, fragmentCol_getD _ hj,
    hrow j hj, hcol j hj, extended]
  · by_cases hn : ((cutedslFragment blocks tiles).entry i j).1 < N
    · rw [if_pos hn, if_pos ⟨hn, hentry j hj⟩, BitVec.setWidth_setWidth_of_le _ (by omega)]
    · rw [if_neg hn, if_neg (fun h => hn h.1)]
      rfl
  · intro l hl
    rw [fragmentRow_getD _ hl, fragmentCol_getD _ hl, hrow l hl, hcol l hl]
    split
    case isTrue hn => exact hsmall (hlt _ hn _ (hentry l hl))
    case isFalse hn => exact hsmall (show (8#8 : BitVec 8).toNat < 16 by decide)

theorem fragment_field {m q : Nat} (h : Codes (64 * m) (64 * (q + 1)) t) :
    ∃ out, repackToCutedslFragment t = .ok out ∧
      (cutedslFragment ((m + 1) / 2) (q + 1)).Holds out.flat
        (extended (64 * m) (64 * (q + 1)) (codeOf t) 8#4) := by
  obtain ⟨out, hout, hshape, hget⟩ := fragment_get h.same (by omega) (by omega) (by omega)
  refine ⟨out, hout, ?_⟩
  rw [Placement.holds_iff]
  intro i hi j hj
  have hi' : i < (m + 1) / 2 * (q + 1) * 8 * 128 := hi
  have hj' : j < 8 := hj
  have hrows : int4CuteDslFragmentRows (64 * m) (64 * (q + 1)) = (m + 1) / 2 * (q + 1) * 8 := by
    rw [int4CuteDslFragmentRows, show (64 * m + 127) / 128 = (m + 1) / 2 by omega,
      show (64 * (q + 1) + 63) / 64 = q + 1 by omega]
  rw [hrows] at hshape hget
  have hflat := Tensor.flat_matrix hshape (row_lt_of_lt hi') (col_lt_of_lt hi')
  rw [index_eq] at hflat
  have hsmall : ∀ n < 64 * m, ∀ k < 64 * (q + 1), ((t.get [n, k]).setWidth 8).toNat < 16 := by
    intro n hn k hk
    have hlt := h.lt n hn k hk
    rw [BitVec.toNat_setWidth]
    omega
  rw [hflat, hget _ (row_lt_of_lt hi') _ (col_lt_of_lt hi'),
    field_directFragmentWord hsmall hi' hj']
  unfold extended
  split
  · exact BitVec.setWidth_setWidth_of_le _ (by omega)
  · rfl

theorem repackToCutedslFragment_holds {m q : Nat} (h : Codes (64 * m) (64 * q) t) :
    ∃ out, repackToCutedslFragment t = .ok out ∧ (cutedslFragment ((m + 1) / 2) q).Holds out.flat
        (extended (64 * m) (64 * q) (codeOf t) 8#4) := by
  cases q with
  | zero =>
    have hdims : t.dim 0 = 64 * m ∧ t.dim 1 = 0 := by
      rw [Tensor.dim, Tensor.dim, h.shape]
      exact ⟨rfl, rfl⟩
    unfold repackToCutedslFragment
    rw [hdims.1, hdims.2, if_neg (by omega)]
    refine ⟨_, rfl, ?_⟩
    intro n hn k hk
    exact absurd hk (Nat.not_lt_zero k)
  | succ q => exact fragment_field h

end Holds

/-! ## Permutations of scales -/

section Scales

variable {N K G groupSize : Nat}

theorem scalePermSingle_inverse : ∀ x < 32,
    scalePermSingle.getD (x % 8 / 2 * 8 + (x / 8 * 2 + x % 2)) 0 = x ∧
      (let y := scalePermSingle.getD x 0; y % 8 / 2 * 8 + (y / 8 * 2 + y % 2) = x) := by
  decide

/-- The column at which the exporter puts the scale of column `c`. -/
def storedColumn (K groupSize c : Nat) : Nat :=
  if groupSize < K then scaleColumn c
  else c / 32 * 32 + (c % 32 % 8 / 2 * 8 + (c % 32 / 8 * 2 + c % 2))

theorem storedColumn_lt (hN : N % 64 = 0) {c : Nat} (hc : c < N) :
    storedColumn K groupSize c < N := by
  unfold storedColumn
  split
  · exact scaleColumn_lt hN hc
  · omega

theorem packedColumn_storedColumn (c : Nat) :
    packedColumn K groupSize (storedColumn K groupSize c) = c := by
  unfold packedColumn storedColumn
  split
  · exact scaleColumn_scaleColumn c
  · have hlow : c % 2 = c % 32 % 2 := by omega
    have hlt : c % 32 % 8 / 2 * 8 + (c % 32 / 8 * 2 + c % 2) < 32 := by omega
    rw [index_div hlt, index_mod hlt, hlow, (scalePermSingle_inverse _ (by omega)).1, index_eq]

theorem storedColumn_packedColumn (j : Nat) :
    storedColumn K groupSize (packedColumn K groupSize j) = j := by
  unfold packedColumn storedColumn
  split
  · exact scaleColumn_scaleColumn j
  · have hlt := scalePermSingle_lt (j % 32) (by omega)
    have hback := (scalePermSingle_inverse (j % 32) (by omega)).2
    have hlow : (j / 32 * 32 + scalePermSingle.getD (j % 32) 0) % 2 =
        scalePermSingle.getD (j % 32) 0 % 2 := by omega
    rw [index_div hlt, index_mod hlt, hlow, hback, index_eq]

theorem packedColumn_bijOn (hN : N % 64 = 0) :
    Set.BijOn (packedColumn K groupSize) {j | j < N} {c | c < N} := by
  refine ⟨?_, ?_, ?_⟩
  · intro j hj
    exact packedColumn_lt K groupSize hN hj
  · intro j _ j' _ h
    rw [← @storedColumn_packedColumn K groupSize j, h, storedColumn_packedColumn]
  · intro c hc
    exact ⟨storedColumn K groupSize c, storedColumn_lt hN hc, packedColumn_storedColumn c⟩

/-- `_marlin_permute_scales` permutes each row. -/
theorem marlinPermuteScales_get {s : Tensor (BitVec 16)} (hs : s.shape = [G, N]) (hN : N % 64 = 0)
    (hpos : 0 < N) : (marlinPermuteScales s K N groupSize).shape = [G, N] ∧ ∀ g < G, ∀ j < N,
      (marlinPermuteScales s K N groupSize).get [g, j] = s.get [g, packedColumn K groupSize j] := by
  have hshape : (marlinPermuteScales s K N groupSize).shape = [G, N] := by
    change [s.shape.prod / N, N] = [G, N]
    rw [hs, List.prod_cons, List.prod_cons, List.prod_nil, Nat.mul_one, Nat.mul_div_cancel _ hpos]
  refine ⟨hshape, ?_⟩
  intro g hg j hj
  rw [← Tensor.flat_matrix hshape hg hj]
  exact marlinPermuteScales_flat hs hN hg hj

end Scales

/-! ## Nothing is lost -/

section Lossless

variable {N K : Nat} {t : Tensor (BitVec 16)}

theorem packIntweights_lossless (h : Codes N K t) (haccepts : PackAccepts N K) :
    (packIntweights t).shape = [N / 4, K] ∧
      Lossless N K (N / 4 * K) 4 (packPlace K) (packIntweights t).flat (codeOf t) := by
  have hshape : (packIntweights t).shape = [N / 4, K] := by
    change [t.dim 0 / 4, t.dim 1] = _
    rw [Tensor.dim, Tensor.dim, h.shape]
    rfl
  refine ⟨hshape, ?_⟩
  by_cases hempty : N = 0 ∨ K = 0
  · apply lossless_empty rfl hempty
    rcases hempty with rfl | rfl
    · exact Nat.zero_mul K
    · exact Nat.mul_zero (N / 4)
  · obtain ⟨hrows, hcols⟩ := haccepts.blocks (by omega) (by omega)
    obtain ⟨m, rfl⟩ := Nat.dvd_of_mod_eq_zero hrows
    obtain ⟨q, rfl⟩ := Nat.dvd_of_mod_eq_zero hcols
    rw [Nat.mul_div_cancel_left m (Nat.zero_lt_succ 3)]
    exact (packIntweights_holds h).lossless rfl

theorem repackToCutedslFragment_lossless (h : Codes N K t) (hN : N % 64 = 0) (hK : K % 64 = 0) :
    ∃ out, repackToCutedslFragment t = .ok out ∧
      out.shape = [(N + 127) / 128 * ((K + 63) / 64) * 8, 128] ∧
      Lossless (128 * ((N + 127) / 128)) (64 * ((K + 63) / 64))
        ((N + 127) / 128 * ((K + 63) / 64) * 8 * 128) 8 (fragmentPlace ((K + 63) / 64)) out.flat
        (extended N K (codeOf t) 8#4) := by
  obtain ⟨m, rfl⟩ := Nat.dvd_of_mod_eq_zero hN
  obtain ⟨q, rfl⟩ := Nat.dvd_of_mod_eq_zero hK
  obtain ⟨out, hout, hholds⟩ := repackToCutedslFragment_holds h
  have hblocks : (64 * m + 127) / 128 = (m + 1) / 2 := by omega
  have htiles : (64 * q + 63) / 64 = q := by omega
  rw [hblocks, htiles]
  refine ⟨out, hout, ?_, hholds.lossless rfl⟩
  unfold repackToCutedslFragment at hout
  rw [Tensor.dim, Tensor.dim, h.shape] at hout
  simp only [List.getD_cons_zero, List.getD_cons_succ] at hout
  rw [if_neg (by omega)] at hout
  rw [← Except.ok.inj hout]
  change [(64 * m + 128 - 1) / 128 * ((64 * q + 64 - 1) / 64) * 8, 128] = _
  rw [show (64 * m + 128 - 1) / 128 = (m + 1) / 2 by omega,
    show (64 * q + 64 - 1) / 64 = q by omega]

theorem packMarlinWeights_lossless (h : Codes N K t) (haccepts : MarlinAccepts N K) :
    (packMarlinWeights t).shape = [K / 16, N / 64 * 128] ∧
      Lossless N K (K / 16 * (N / 64 * 128)) 8 (marlinPlace (N / 64)) (packMarlinWeights t).flat
        (codeOf t) := by
  refine ⟨packMarlinWeights_shape h.shape, ?_⟩
  by_cases hempty : N = 0 ∨ K = 0
  · apply lossless_empty rfl hempty
    rcases hempty with rfl | rfl
    · exact Nat.mul_zero (K / 16)
    · exact Nat.zero_mul _
  · obtain ⟨hrows, hcols⟩ := haccepts.tiles (by omega) (by omega)
    obtain ⟨m, rfl⟩ := Nat.dvd_of_mod_eq_zero hrows
    obtain ⟨q, rfl⟩ := Nat.dvd_of_mod_eq_zero hcols
    rw [Nat.mul_div_cancel_left m (Nat.zero_lt_succ 63),
      Nat.mul_div_cancel_left q (Nat.zero_lt_succ 15)]
    exact (packMarlinWeights_holds h).lossless rfl

/-- The layouts lose nothing: each code has its own place, given by an index
formula, the only other codes are the midpoints below the matrix, and the scales
are permuted within their rows. -/
theorem layouts_lossless (h : Codes N K t) :
    (PackAccepts N K → (packIntweights t).shape = [N / 4, K] ∧
      Lossless N K (N / 4 * K) 4 (packPlace K) (packIntweights t).flat (codeOf t)) ∧
    (if N % 64 = 0 ∧ K % 64 = 0 then
      ∃ out, repackToCutedslFragment t = .ok out ∧
        out.shape = [(N + 127) / 128 * ((K + 63) / 64) * 8, 128] ∧
        Lossless (128 * ((N + 127) / 128)) (64 * ((K + 63) / 64))
          ((N + 127) / 128 * ((K + 63) / 64) * 8 * 128) 8 (fragmentPlace ((K + 63) / 64)) out.flat
          (extended N K (codeOf t) 8#4)
      else repackToCutedslFragment t = .error .misaligned) ∧
    (MarlinAccepts N K → (packMarlinWeights t).shape = [K / 16, N / 64 * 128] ∧
      Lossless N K (K / 16 * (N / 64 * 128)) 8 (marlinPlace (N / 64)) (packMarlinWeights t).flat
        (codeOf t)) ∧
    (0 < N → 0 < K → MarlinAccepts N K → ∀ (groupSize G : Nat) (s : Tensor (BitVec 16)),
      s.shape = [G, N] →
        (marlinPermuteScales s K N groupSize).shape = [G, N] ∧
        Set.BijOn (packedColumn K groupSize) {j | j < N} {c | c < N} ∧
        ∀ g < G, ∀ j < N, (marlinPermuteScales s K N groupSize).get [g, j] =
          s.get [g, packedColumn K groupSize j]) ∧
    (∀ (G : Nat) (ws : Tensor (BitVec 8)) (uninitialised : List Nat → BitVec 8),
      ws.shape = [N, G] →
        if N % 64 = 0 then
          ∃ out, Nvfp4.marlinPermuteNvfp4E4m3Scales uninitialised ws N = .ok out ∧
            out.shape = [1, G, N] ∧ Set.BijOn Nvfp4.nvfp4Column {m | m < N} {j | j < N} ∧
            ∀ m < N, ∀ g < G, out.get [0, g, Nvfp4.nvfp4Column m] = ws.get [m, g]
        else Nvfp4.marlinPermuteNvfp4E4m3Scales uninitialised ws N = .error (.paddedRows N)) := by
  refine ⟨packIntweights_lossless h, ?_, packMarlinWeights_lossless h, ?_, ?_⟩
  · by_cases haligned : N % 64 = 0 ∧ K % 64 = 0
    · rw [if_pos haligned]
      exact repackToCutedslFragment_lossless h haligned.1 haligned.2
    · have hdims : t.dim 0 = N ∧ t.dim 1 = K := by
        rw [Tensor.dim, Tensor.dim, h.shape]
        exact ⟨rfl, rfl⟩
      rw [if_neg haligned, repackToCutedslFragment, hdims.1, hdims.2, if_pos (by omega)]
  · intro hN hK haccepts groupSize G s hs
    have hblocks := (haccepts.tiles hN hK).1
    obtain ⟨hshape, hget⟩ := marlinPermuteScales_get hs hblocks hN
    exact ⟨hshape, packedColumn_bijOn hblocks, hget⟩
  · intro G ws uninitialised hws
    by_cases hblocks : N % 64 = 0
    · obtain ⟨out, hout, hshape, hget⟩ :=
        @Nvfp4.marlinPermuteNvfp4E4m3Scales_get uninitialised ws N G hws hblocks
      rw [if_pos hblocks]
      exact ⟨out, hout, hshape, Nvfp4.nvfp4Column_bijOn hblocks, hget⟩
    · rw [if_neg hblocks, Nvfp4.marlinPermuteNvfp4E4m3Scales, if_pos hblocks]

/-- A matrix of one tile. -/
theorem layouts_lossless_tile :
    let t : Tensor (BitVec 16) := .full [64, 64] 5#16
    let s : Tensor (BitVec 16) := .full [2, 64] 1#16
    Lossless 64 64 1024 4 (packPlace 64) (packIntweights t).flat (codeOf t) ∧
      (∃ out, repackToCutedslFragment t = .ok out ∧ Lossless 128 64 1024 8 (fragmentPlace 1)
        out.flat (extended 64 64 (codeOf t) 8#4)) ∧
      Lossless 64 64 512 8 (marlinPlace 1) (packMarlinWeights t).flat (codeOf t) ∧
      (marlinPermuteScales s 64 64 32).shape = [2, 64] ∧
      ∃ out, Nvfp4.marlinPermuteNvfp4E4m3Scales (fun _ => 0#8) (.full [64, 4] 7#8) 64 = .ok out := by
  intro t s
  have h : Codes 64 64 t := ⟨rfl, fun _ _ _ _ => (by decide : (5#16 : BitVec 16).toNat < 16)⟩
  obtain ⟨hpack, hfragment, hmarlin, hscales, hnvfp4⟩ := layouts_lossless h
  obtain ⟨out, hout, -, hlossless⟩ := hfragment
  obtain ⟨out', hout', -⟩ := hnvfp4 4 (.full [64, 4] 7#8) (fun _ => 0#8) rfl
  exact ⟨(hpack (packAccepts_of_blocks rfl rfl)).2, ⟨out, hout, hlossless⟩, (hmarlin rfl).2,
    (hscales (by decide) (by decide) rfl 32 2 s rfl).1, out', hout'⟩

end Lossless

end EdgeLLM.Ports.Int4
