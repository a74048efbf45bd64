import EdgeLLM.Ports.ImageAddresses
import Mathlib.Tactic.Ring

/-!
# When the kernel's 32-bit addressing is exact

A launch addresses a sample by its row, its column and its batch entry.  In
32-bit words that is exact for every sample of a frame just when the products
the host checks have not wrapped, when the rounded-up chroma extents are in
range and when the rows of a whole batch can be counted.
-/

namespace EdgeLLM.Ports.ImageBuffer

open Verified

/-! ## Clamped taps -/

section Limit

variable {v high : Int32}

theorem toInt_limit (v high : Int32) : (limit v 0 high).toInt =
    if v.toInt < 0 then 0 else if high.toInt < v.toInt then high.toInt else v.toInt := by
  have hzero : (0 : Int32).toInt = 0 := rfl
  unfold limit
  simp only [gt_iff_lt, Int32.lt_iff_toInt_lt, hzero]
  split
  · rfl
  · split <;> rfl

theorem limit_inside (hlow : 0 ≤ v.toInt) (hhigh : v.toInt ≤ high.toInt) :
    (limit v 0 high).toInt = v.toInt := by
  rw [toInt_limit, if_neg (Int.not_lt.2 hlow), if_neg (Int.not_lt.2 hhigh)]

/-- Below a negative bound every tap is the bound. -/
theorem limit_negative (high : Int32) (hlow : 0 ≤ v.toInt) (hhigh : high.toInt < 0) :
    (limit v 0 high).toInt = high.toInt := by
  rw [toInt_limit, if_neg (Int.not_lt.2 hlow), if_pos (hhigh.trans_le hlow)]

end Limit

theorem toInt_ofInt32 {x : Int} (hlow : 0 ≤ x) (hhigh : x < 2 ^ 31) : (Int32.ofInt x).toInt = x :=
  (wraps32_ofInt x).eq_of_fits ⟨by omega, hhigh⟩

theorem toInt_toInt32_of_fits {a : Int64} (hlow : 0 ≤ a.toInt) (hhigh : a.toInt < 2 ^ 31) :
    a.toInt32.toInt = a.toInt :=
  (wraps32_toInt32 a).eq_of_fits ⟨by omega, hhigh⟩

/-! ## The part of an address within its plane -/

def KernelArgs.inPlane (args : KernelArgs) (plane : Fin 2) (ib row column : Int32) : Int :=
  (args.sampleRow plane ib row).toInt * (args.stride plane).toInt +
    (args.sampleColumn plane column).toInt * (pixelBytes args.format plane).toInt

variable (format : ImageFormat) (args : KernelArgs) (p : Fin 2)

theorem pixelBytes_cases : (pixelBytes format p).toInt = 1 ∨ (pixelBytes format p).toInt = 2 ∨
      (pixelBytes format p).toInt = 3 := by
  unfold pixelBytes
  split
  · split
    · exact Or.inr (Or.inr rfl)
    · exact Or.inl rfl
  · exact Or.inr (Or.inl rfl)

theorem KernelArgs.inPlane_bounds (ib row column : Int32) :
    -2 ^ 63 < args.inPlane p ib row column ∧ args.inPlane p ib row column < 2 ^ 63 := by
  have hrow := mul_toInt32_bounds (args.sampleRow p ib row) (args.stride p)
  have hlow := (args.sampleColumn p column).le_toInt
  have hhigh := (args.sampleColumn p column).toInt_lt
  unfold KernelArgs.inPlane
  rcases pixelBytes_cases args.format p with hbytes | hbytes | hbytes <;> rw [hbytes] <;> omega

theorem KernelArgs.wraps_sampleAddress (ib row column : Int32) {start : Int}
    (hstart : Wraps64 (args.plane p) start) :
    Wraps64 (args.sampleAddress p ib row column) (start + args.inPlane p ib row column) := by
  have hrow := (wraps64 (args.sampleRow p ib row).toInt64).mul (wraps64 (args.stride p).toInt64)
  have hcolumn := (wraps64 (args.sampleColumn p column).toInt64).mul
    (wraps64 (pixelBytes args.format p))
  rw [Int32.toInt_toInt64, Int32.toInt_toInt64] at hrow
  rw [Int32.toInt_toInt64] at hcolumn
  apply ((hstart.add hrow).add hcolumn).congr
  unfold KernelArgs.inPlane
  rw [Int.add_assoc]

/-- The 64-bit base is exact, so an address is exact when the rest of it is. -/
theorem KernelArgs.sample_exact_iff (ib row column : Int32) {start target : Int}
    (hstart : Wraps64 (args.plane p) start) (hlow : 0 ≤ start) (hhigh : start < 2 ^ 63)
    (hlow' : 0 ≤ target) (hhigh' : target < 2 ^ 63) :
    (args.sampleAddress p ib row column).toInt = target ↔
      args.inPlane p ib row column = target - start := by
  have hwraps := args.wraps_sampleAddress p ib row column hstart
  have hbounds := args.inPlane_bounds p ib row column
  constructor
  · intro heq
    unfold Wraps64 Int.ModEq at hwraps
    rw [heq] at hwraps
    omega
  · intro heq
    exact (hwraps.congr (by omega)).eq_of_fits ⟨by omega, hhigh'⟩

/-! ## The source side -/

def exactColumns (width : Int64) (plane : Fin 2) : Int :=
  if plane = 0 then width.toInt else (width.toInt + 1) / 2

/-- Every sample of a whole batch is where it should be, as seen from the base of a launch. -/
def InPlaneExact (image : ImageData) (batch : Int64) (args : KernelArgs) : Prop :=
  ∀ p ∈ planes image.layout.format, ∀ b, 0 ≤ b → b < batch.toInt →
    ∀ r, 0 ≤ r → r < exactRows image.height p →
      ∀ x, 0 ≤ x → x < exactColumns image.width p →
        args.inPlane p (Int32.ofInt b) (Int32.ofInt r) (Int32.ofInt x) =
          b * (image.layout.frameStrideBytes p).toInt +
            (r * (image.layout.pitchBytes p).toInt + x * (pixelBytes image.layout.format p).toInt)

/-- The luma product of the 32-bit check fits in a word, chroma extents can be
rounded up in 32 bits, and so can the rows of a batch be counted. -/
structure SourceFits (image : ImageData) (batch : Int64) : Prop where
  product : image.height.toInt * (image.layout.pitchBytes 0).toInt < 2 ^ 63
  chroma : image.layout.format ≠ .kRGB8 →
    image.width.toInt + 1 < 2 ^ 31 ∧ image.height.toInt + 1 < 2 ^ 31
  rows : batch.toInt * image.height.toInt ≤ 2 ^ 31

theorem zero_mem_planes : (0 : Fin 2) ∈ planes format := by
  cases format <;> decide

theorem one_mem_planes_iff : (1 : Fin 2) ∈ planes format ↔ format ≠ .kRGB8 := by
  cases format <;> decide

section Source

variable {image : ImageData} {batch : Int64} {args : KernelArgs}

/-- The extents of a plane in 32 bits, where they are exact. -/
theorem kernelExtent_exact {size : Int64} {p : Fin 2} (hpos : 0 < size.toInt)
    (hfit : size.toInt < 2 ^ 31) (hchroma : p ≠ 0 → size.toInt + 1 < 2 ^ 31) :
    (kernelExtent size.toInt32 p).toInt = if p = 0 then size.toInt else (size.toInt + 1) / 2 := by
  have hcast := toInt_toInt32_of_fits hpos.le hfit
  unfold kernelExtent
  by_cases hp : p = 0
  · rw [if_pos hp, if_pos hp, hcast]
  · rw [if_neg hp, if_neg hp]
    have hsum : Wraps32 (size.toInt32 + 1) (size.toInt + 1) := by
      have hadd := (wraps32 size.toInt32).add (wraps32 1)
      rw [hcast] at hadd
      exact hadd
    have hexact := hsum.eq_of_fits ⟨by omega, hchroma hp⟩
    rw [toInt_div_two32 (by omega), hexact]

variable {x : Int} {firstFrame outHeight outWidth t : Int64}

/-- A tap in a plane whose extent is exact is not clamped. -/
theorem limit_extent {size : Int64} {p : Fin 2} (hpos : 0 < size.toInt) (hfit : size.toInt < 2 ^ 31)
    (hchroma : p ≠ 0 → size.toInt + 1 < 2 ^ 31) (hlow : 0 ≤ x)
    (hhigh : x < if p = 0 then size.toInt else (size.toInt + 1) / 2) :
    (limit (Int32.ofInt x) 0 (kernelExtent size.toInt32 p - 1)).toInt = x := by
  have hextent := kernelExtent_exact hpos hfit hchroma
  have hlt : (if p = 0 then size.toInt else (size.toInt + 1) / 2) < 2 ^ 31 := by
    split <;> omega
  have hbound : (kernelExtent size.toInt32 p - 1).toInt =
      (if p = 0 then size.toInt else (size.toInt + 1) / 2) - 1 := by
    have hsub := (wraps32 (kernelExtent size.toInt32 p)).sub (wraps32 1)
    rw [hextent] at hsub
    exact hsub.eq_of_fits ⟨by show -2 ^ 31 ≤ _ - 1; omega, by show _ - 1 < _; omega⟩
  have hcast : (Int32.ofInt x).toInt = x := toInt_ofInt32 hlow (by omega)
  rw [limit_inside (by rw [hcast]; exact hlow) (by rw [hcast, hbound]; omega), hcast]

/-- What the host has checked of the source of a launch. -/
structure Launchable (image : ImageData) (batch : Int64) : Prop where
  width_pos : 0 < image.width.toInt
  height_pos : 0 < image.height.toInt
  pitch : ∀ p ∈ planes image.layout.format,
    exactRowBytes image.layout.format image.width p ≤ (image.layout.pitchBytes p).toInt
  luma : image.height * image.layout.pitchBytes 0 ≤ intMax
  chroma : image.layout.pitchBytes 1 ≤ intMax
  batch : batch = 1 ∨ image.layout.format = .kRGB8 ∧
    image.layout.frameStrideBytes 0 = image.height * image.layout.pitchBytes 0

theorem Launchable.pitch_pos (h : Launchable image batch) {p : Fin 2}
    (hp : p ∈ planes image.layout.format) : 0 < (image.layout.pitchBytes p).toInt :=
  (exactRowBytes_pos _ p h.width_pos).trans_le (h.pitch p hp)

/-- What follows once the luma product has not wrapped. -/
structure LumaExact (image : ImageData) : Prop where
  product : (image.height * image.layout.pitchBytes 0).toInt =
    image.height.toInt * (image.layout.pitchBytes 0).toInt
  height : image.height.toInt < 2 ^ 31
  width : image.width.toInt < 2 ^ 31
  pitch : ∀ p, (image.layout.pitchBytes p).toInt < 2 ^ 31

theorem Launchable.lumaExact (h : Launchable image batch)
    (hproduct : image.height.toInt * (image.layout.pitchBytes 0).toInt < 2 ^ 63) :
    LumaExact image := by
  have hpitch := h.pitch_pos (zero_mem_planes _)
  have hheight := h.height_pos
  have hpos := Int.mul_pos hheight hpitch
  have hexact := ((wraps64 image.height).mul (wraps64 (image.layout.pitchBytes 0))).eq_of_fits
    ⟨by omega, hproduct⟩
  have hword := Int64.le_iff_toInt_le.1 h.luma
  have hword' := Int64.le_iff_toInt_le.1 h.chroma
  have hmax : intMax.toInt = 2147483647 := rfl
  rw [hexact, hmax] at hword
  rw [hmax] at hword'
  have hle := Int.mul_le_mul_of_nonneg_left (show (1 : Int) ≤ _ from hpitch) hheight.le
  have hle' := Int.mul_le_mul_of_nonneg_right (show (1 : Int) ≤ _ from hheight) hpitch.le
  have hrow := h.pitch 0 (zero_mem_planes _)
  have hwidth := h.width_pos
  have hbytes : image.width.toInt ≤ exactRowBytes image.layout.format image.width 0 := by
    unfold exactRowBytes
    rw [if_pos rfl]
    split <;> omega
  constructor
  · exact hexact
  · omega
  · omega
  · intro p
    rcases Fin.exists_fin_two.1 ⟨p, rfl⟩ with hp | hp
    · rw [hp]
      omega
    · rw [hp]
      omega

/-- With several frames in a batch, these stack without a gap. -/
theorem Launchable.stacked (h : Launchable image batch) (hluma : LumaExact image) {p : Fin 2}
    (hp : p ∈ planes image.layout.format) {b : Int} (hlow : 0 ≤ b) (hhigh : b < batch.toInt) :
    b = 0 ∨ p = 0 ∧ (image.layout.frameStrideBytes p).toInt =
      image.height.toInt * (image.layout.pitchBytes p).toInt := by
  rcases h.batch with hone | hstack
  · rw [hone] at hhigh
    change b < 1 at hhigh
    exact Or.inl (by omega)
  · have hzero : p = 0 := by
      rw [hstack.1] at hp
      exact List.mem_singleton.1 hp
    rw [hzero, hstack.2, hluma.product]
    exact Or.inr ⟨rfl, rfl⟩

theorem inPlaneExact_of_fits (h : Launchable image batch) (hfits : SourceFits image batch) :
    InPlaneExact image batch (launch image firstFrame batch outHeight outWidth t) := by
  have hluma := h.lumaExact hfits.product
  intro p hp b hb hbatch r hr hrow x hx hcolumn
  have hchroma : p ≠ 0 → image.width.toInt + 1 < 2 ^ 31 ∧ image.height.toInt + 1 < 2 ^ 31 := by
    intro hne
    apply hfits.chroma
    rw [← one_mem_planes_iff]
    rcases Fin.exists_fin_two.1 ⟨p, rfl⟩ with hzero | hone
    · exact absurd hzero hne
    · rw [← hone]
      exact hp
  have hstacked := h.stacked hluma hp hb hbatch
  have hextent := kernelExtent_exact h.height_pos hluma.height fun hne => (hchroma hne).2
  have hrowExact := limit_extent h.height_pos hluma.height (fun hne => (hchroma hne).2) hr hrow
  have hcolumnExact := limit_extent h.width_pos hluma.width (fun hne => (hchroma hne).1) hx hcolumn
  have hstride := toInt_toInt32_of_fits (h.pitch_pos hp).le (hluma.pitch p)
  have hsum : Wraps32 ((launch image firstFrame batch outHeight outWidth t).sampleRow p
      (Int32.ofInt b) (Int32.ofInt r)) (r + b * exactRows image.height p) := by
    have hmul := (wraps32_ofInt b).mul (wraps32 (kernelExtent image.height.toInt32 p))
    have hadd := (wraps32 (limit (Int32.ofInt r) 0
      (kernelExtent image.height.toInt32 p - 1))).add hmul
    rw [hrowExact, hextent] at hadd
    exact hadd
  have hfit : r + b * exactRows image.height p < 2 ^ 31 := by
    rcases hstacked with hzero | hstack
    · unfold exactRows at hrow ⊢
      have hheight := hluma.height
      rw [hzero, Int.zero_mul]
      split at hrow <;> omega
    · have hrows := hfits.rows
      have hle := Int.mul_le_mul_of_nonneg_right (show b + 1 ≤ batch.toInt by omega)
        h.height_pos.le
      rw [Int.add_mul, Int.one_mul] at hle
      unfold exactRows at hrow ⊢
      rw [if_pos hstack.1] at hrow ⊢
      omega
  have hpos : 0 ≤ b * exactRows image.height p :=
    Int.mul_nonneg hb (exactRows_pos h.height_pos).le
  have hrowSum := hsum.eq_of_fits ⟨by omega, hfit⟩
  unfold KernelArgs.inPlane
  rw [hrowSum]
  show _ * (image.layout.pitchBytes p).toInt32.toInt +
    (limit (Int32.ofInt x) 0 (kernelExtent image.width.toInt32 p - 1)).toInt * _ = _
  rw [hcolumnExact, hstride]
  rcases hstacked with hzero | hstack
  · rw [hzero, Int.zero_mul, Int.zero_mul, Int.add_zero, Int.zero_add]
    rfl
  · rw [hstack.2]
    unfold exactRows
    rw [if_pos hstack.1]
    show _ + x * (pixelBytes image.layout.format p).toInt = _
    ring

theorem InPlaneExact.first {p : Fin 2} {r : Int}
    (h : InPlaneExact image batch (launch image firstFrame batch outHeight outWidth t))
    (hbatch : 0 < batch.toInt) (hp : p ∈ planes image.layout.format) (hr : 0 ≤ r)
    (hrow : r < exactRows image.height p) (hx : 0 ≤ x) (hcolumn : x < exactColumns image.width p) :
    (limit (Int32.ofInt r) 0 (kernelExtent image.height.toInt32 p - 1)).toInt *
          (image.layout.pitchBytes p).toInt32.toInt +
        (limit (Int32.ofInt x) 0 (kernelExtent image.width.toInt32 p - 1)).toInt *
          (pixelBytes image.layout.format p).toInt =
      r * (image.layout.pitchBytes p).toInt + x * (pixelBytes image.layout.format p).toInt := by
  have hexact := h p hp 0 le_rfl hbatch r hr hrow x hx hcolumn
  rw [Int.zero_mul, Int.zero_add] at hexact
  rw [← hexact]
  have hzero : Int32.ofInt 0 * kernelExtent image.height.toInt32 p = 0 := Int32.zero_mul
  show _ = (limit (Int32.ofInt r) 0 (kernelExtent image.height.toInt32 p - 1) +
    Int32.ofInt 0 * kernelExtent image.height.toInt32 p).toInt * _ + _
  rw [hzero, Int32.add_zero]
  rfl

/-- A product that wraps puts the second row, or row `2 ^ 31`, in a wrong place. -/
theorem product_fits_of_exact (h : Launchable image batch) (hbatch : 0 < batch.toInt)
    (hexact : InPlaneExact image batch (launch image firstFrame batch outHeight outWidth t)) :
    image.height.toInt * (image.layout.pitchBytes 0).toInt < 2 ^ 63 := by
  by_contra hwrap
  have hp := zero_mem_planes image.layout.format
  have hpitch := h.pitch_pos hp
  have hpitchLt := (image.layout.pitchBytes 0).toInt_lt
  have hheight := h.height_pos
  have hmany : 1 < image.height.toInt := by
    by_contra hone
    have heq : image.height.toInt = 1 := by omega
    rw [heq, Int.one_mul] at hwrap
    exact hwrap hpitchLt
  have hrows : exactRows image.height 0 = image.height.toInt := if_pos rfl
  have hcolumns : 0 < exactColumns image.width 0 := h.width_pos
  have hfirst := hexact.first hbatch hp le_rfl (hheight.trans_eq hrows.symm) le_rfl hcolumns
  have hsecond := hexact.first hbatch hp (show (0 : Int) ≤ 1 by omega)
    (hmany.trans_eq hrows.symm) le_rfl hcolumns
  have hzero : (Int32.ofInt 0).toInt = 0 := rfl
  have hone : (Int32.ofInt 1).toInt = 1 := rfl
  rw [toInt_limit, hzero, if_neg (by omega)] at hfirst
  rw [toInt_limit, hone, if_neg (by omega)] at hsecond
  generalize (kernelExtent image.height.toInt32 0 - 1).toInt = high at hfirst hsecond
  by_cases hneg : high < 0
  · rw [if_pos hneg] at hfirst
    rw [if_pos (by omega)] at hsecond
    omega
  · rw [if_neg hneg, Int.zero_mul] at hfirst
    have hhigh : 1 ≤ high := by
      by_contra hlow
      have heq : high = 0 := by omega
      rw [heq, if_pos (by omega), Int.zero_mul] at hsecond
      omega
    rw [if_neg (by omega)] at hsecond
    have hstride := (image.layout.pitchBytes 0).toInt32.toInt_lt
    have hnarrow : (image.layout.pitchBytes 0).toInt < 2 ^ 31 := by omega
    have htall : 2 ^ 31 < image.height.toInt := by
      by_contra hshort
      have hmul := Int.mul_le_mul (Int.not_lt.1 hshort) hnarrow.le hpitch.le (by omega)
      omega
    have hrow := hexact.first hbatch hp (show (0 : Int) ≤ 2 ^ 31 by omega)
      (htall.trans_eq hrows.symm) le_rfl hcolumns
    have hwrapped : (Int32.ofInt (2 ^ 31)).toInt = -2 ^ 31 := rfl
    rw [toInt_limit, hwrapped, if_pos (by omega), Int.zero_mul] at hrow
    omega

/-- The largest extent a 32-bit word has rounds up to a negative one. -/
theorem kernelExtent_largest {size : Int64} (hlow : 2 ^ 31 ≤ size.toInt + 1)
    (hhigh : size.toInt < 2 ^ 31) : (kernelExtent size.toInt32 1 - 1).toInt < 0 := by
  have hsize : size = 2147483647 := by
    apply Int64.toInt_inj.1
    show size.toInt = 2147483647
    omega
  rw [hsize]
  decide

theorem chroma_fits_of_exact (h : Launchable image batch) (hbatch : 0 < batch.toInt)
    (hexact : InPlaneExact image batch (launch image firstFrame batch outHeight outWidth t))
    (hyuv : image.layout.format ≠ .kRGB8) :
    image.width.toInt + 1 < 2 ^ 31 ∧ image.height.toInt + 1 < 2 ^ 31 := by
  have hluma := h.lumaExact (product_fits_of_exact h hbatch hexact)
  have hp := (one_mem_planes_iff image.layout.format).2 hyuv
  have hpitch := h.pitch_pos hp
  have hwidth := h.width_pos
  have hheight := h.height_pos
  have hrows : exactRows image.height 1 = (image.height.toInt + 1) / 2 := rfl
  have hcolumns : exactColumns image.width 1 = (image.width.toInt + 1) / 2 := rfl
  have hbytes : (pixelBytes image.layout.format 1).toInt = 2 := rfl
  have hzero : (Int32.ofInt 0).toInt = 0 := rfl
  have hone : (Int32.ofInt 1).toInt = 1 := rfl
  have hfirst := hexact.first hbatch hp le_rfl (show (0 : Int) < _ by omega) le_rfl
    (show (0 : Int) < _ by omega)
  rw [hbytes] at hfirst
  constructor
  · by_contra hwide
    have hlargest := kernelExtent_largest (Int.not_lt.1 hwide) hluma.width
    have hsecond := hexact.first hbatch hp le_rfl (show (0 : Int) < _ by omega)
      (show (0 : Int) ≤ 1 by omega) (show (1 : Int) < _ by omega)
    rw [hbytes, limit_negative (v := Int32.ofInt 1) _ (by omega) hlargest] at hsecond
    rw [limit_negative (kernelExtent image.width.toInt32 1 - 1) (by omega) hlargest]
      at hfirst
    omega
  · by_contra htall
    have hlargest := kernelExtent_largest (Int.not_lt.1 htall) hluma.height
    have hsecond := hexact.first hbatch hp (show (0 : Int) ≤ 1 by omega)
      (show (1 : Int) < _ by omega) le_rfl (show (0 : Int) < _ by omega)
    rw [hbytes, limit_negative (v := Int32.ofInt 1) _ (by omega) hlargest] at hsecond
    rw [limit_negative (kernelExtent image.height.toInt32 1 - 1) (by omega) hlargest]
      at hfirst
    omega

/-- Row `2 ^ 31` of a batch is counted as a negative one. -/
theorem rows_fit_of_exact (h : Launchable image batch) (hbatch : 0 < batch.toInt)
    (hexact : InPlaneExact image batch (launch image firstFrame batch outHeight outWidth t)) :
    batch.toInt * image.height.toInt ≤ 2 ^ 31 := by
  have hluma := h.lumaExact (product_fits_of_exact h hbatch hexact)
  have hp := zero_mem_planes image.layout.format
  have hheight := h.height_pos
  have hwidth := h.width_pos
  by_contra hmany
  have hrowLt : 2 ^ 31 % image.height.toInt < image.height.toInt :=
    Int.emod_lt_of_pos _ hheight
  have hrowNonneg : 0 ≤ 2 ^ 31 % image.height.toInt := Int.emod_nonneg _ (by omega)
  have hentry : 0 ≤ 2 ^ 31 / image.height.toInt := Int.ediv_nonneg (by decide) hheight.le
  have hdiv : 2 ^ 31 / image.height.toInt * image.height.toInt + 2 ^ 31 % image.height.toInt =
      2 ^ 31 := Int.ediv_mul_add_emod _ _
  have hbound : 2 ^ 31 / image.height.toInt < batch.toInt := by
    apply Int.lt_of_mul_lt_mul_right _ hheight.le
    omega
  have hstacked := h.stacked hluma hp hentry hbound
  have hrows : exactRows image.height 0 = image.height.toInt := if_pos rfl
  have hplace := hexact 0 hp _ hentry hbound _ hrowNonneg (hrowLt.trans_eq hrows.symm) 0 le_rfl
    hwidth
  have hrow := limit_extent (p := 0) hheight hluma.height (fun hne => absurd rfl hne) hrowNonneg
    hrowLt
  have hcolumn := limit_extent (p := 0) hwidth hluma.width (fun hne => absurd rfl hne) le_rfl
    hwidth
  have hextent := kernelExtent_exact (p := 0) hheight hluma.height fun hne => absurd rfl hne
  set row := (launch image firstFrame batch outHeight outWidth t).sampleRow 0
    (Int32.ofInt (2 ^ 31 / image.height.toInt)) (Int32.ofInt (2 ^ 31 % image.height.toInt))
  have hsum : Wraps32 row (2 ^ 31) := by
    have hmul := (wraps32_ofInt (2 ^ 31 / image.height.toInt)).mul
      (wraps32 (kernelExtent image.height.toInt32 0))
    have hadd := (wraps32 (limit (Int32.ofInt (2 ^ 31 % image.height.toInt)) 0
      (kernelExtent image.height.toInt32 0 - 1))).add hmul
    rw [hrow, hextent, if_pos rfl] at hadd
    exact hadd.congr (by omega)
  have hnegative := row.toInt_lt
  have hlow := row.le_toInt
  have hwrapped : row.toInt = -2 ^ 31 := by
    unfold Wraps32 Int.ModEq at hsum
    omega
  have hpitch := h.pitch_pos hp
  unfold KernelArgs.inPlane at hplace
  rw [hwrapped] at hplace
  change -2 ^ 31 * (image.layout.pitchBytes 0).toInt32.toInt +
    (limit (Int32.ofInt 0) 0 (kernelExtent image.width.toInt32 0 - 1)).toInt * _ = _ at hplace
  rw [hcolumn, toInt_toInt32_of_fits hpitch.le (hluma.pitch 0), Int.zero_mul, Int.zero_mul,
    Int.add_zero, Int.add_zero] at hplace
  rcases hstacked with hzero | hstack
  · have hshort := hluma.height
    rw [hzero, Int.zero_mul] at hdiv
    omega
  · rw [hstack.2, ← Int.mul_assoc, ← Int.add_mul, hdiv] at hplace
    omega

theorem inPlaneExact_iff (firstFrame outHeight outWidth t : Int64)
    (h : Launchable image batch) (hbatch : 0 < batch.toInt) :
    InPlaneExact image batch (launch image firstFrame batch outHeight outWidth t) ↔
      SourceFits image batch := by
  constructor
  · intro hexact
    constructor
    · exact product_fits_of_exact h hbatch hexact
    · exact chroma_fits_of_exact h hbatch hexact
    · exact rows_fit_of_exact h hbatch hexact
  · exact inPlaneExact_of_fits h

end Source

/-! ## The destination side -/

/-- Every pixel of a whole batch is written where it should be. -/
def OutExact (batch outHeight outWidth : Int64) (args : KernelArgs) : Prop :=
  ∀ b, 0 ≤ b → b < batch.toInt → ∀ x, 0 ≤ x → x < outWidth.toInt →
    ∀ y, 0 ≤ y → y < outHeight.toInt →
      (args.outIndex (Int32.ofInt b) (Int32.ofInt x) (Int32.ofInt y)).toInt =
        (b * outHeight.toInt + y) * (outWidth.toInt * 3) + x * 3

/-- The elements of a batch can be counted in a word. -/
def OutFits (batch outHeight outWidth : Int64) : Prop :=
  batch.toInt * (outHeight.toInt * outWidth.toInt * 3) < 2 ^ 63

section Out

variable {image : ImageData} {buffer : Buffer}
  {firstFrame numFrames outHeight outWidth batch t : Int64}

/-- What the checks of the destination say once nothing in them wraps. -/
theorem out_bounds (h : Resized image buffer firstFrame numFrames outHeight outWidth)
    (hbatch : 0 < batch.toInt) (hsmall : batch = 1 ∨ batch * (outHeight * outWidth * 3) ≤ intMax)
    (hfits : OutFits batch outHeight outWidth) :
    batch.toInt * (outHeight.toInt * outWidth.toInt * 3) < 2 ^ 31 := by
  have hheight := h.outHeight_pos
  have hwidth := h.outWidth_pos
  have hmax : intMax.toInt = 2147483647 := rfl
  unfold OutFits at hfits
  have helems : Wraps64 (outHeight * outWidth * 3) (outHeight.toInt * outWidth.toInt * 3) :=
    ((wraps64 _).mul (wraps64 _)).mul (wraps64 3)
  have hpos : 0 < outHeight.toInt * outWidth.toInt := Int.mul_pos hheight hwidth
  have hle := Int.mul_le_mul_of_nonneg_right (show (1 : Int) ≤ batch.toInt from hbatch)
    (show 0 ≤ outHeight.toInt * outWidth.toInt * 3 by omega)
  rcases hsmall with hone | hstack
  · have hword := Int64.le_iff_toInt_le.1 h.addressable.1
    rw [helems.eq_of_fits ⟨by omega, by omega⟩, hmax] at hword
    have hunit : batch.toInt = 1 := by
      rw [hone]
      rfl
    rw [hunit]
    omega
  · have hword := Int64.le_iff_toInt_le.1 hstack
    rw [((wraps64 batch).mul helems).eq_of_fits ⟨by omega, hfits⟩, hmax] at hword
    omega

theorem outExact_of_fits (h : Resized image buffer firstFrame numFrames outHeight outWidth)
    (hbatch : 0 < batch.toInt) (hsmall : batch = 1 ∨ batch * (outHeight * outWidth * 3) ≤ intMax)
    (hfits : OutFits batch outHeight outWidth) :
    OutExact batch outHeight outWidth (launch image firstFrame batch outHeight outWidth t) := by
  have hbound := out_bounds h hbatch hsmall hfits
  have hheight := h.outHeight_pos
  have hwidth := h.outWidth_pos
  intro b hb hentry x hx hcolumn y hy hrow
  have hstride : Wraps64 (outWidth * 3) (outWidth.toInt * 3) := (wraps64 _).mul (wraps64 3)
  have hnarrow : Wraps32 (outWidth * 3).toInt32 (outWidth.toInt * 3) := by
    apply (wraps32_toInt32 _).trans
    exact Int.ModEq.of_dvd (by decide) hstride
  have hindex : Wraps32
      ((launch image firstFrame batch outHeight outWidth t).outIndex (Int32.ofInt b)
        (Int32.ofInt x) (Int32.ofInt y))
      ((b * outHeight.toInt + y) * (outWidth.toInt * 3) + x * 3) :=
    (((wraps32_ofInt b).mul (wraps32_toInt32 outHeight)).add (wraps32_ofInt y)).mul hnarrow
      |>.add ((wraps32_ofInt x).mul (wraps32 3))
  apply hindex.eq_of_fits
  have hrows : b * outHeight.toInt + y + 1 ≤ batch.toInt * outHeight.toInt := by
    have hle := Int.mul_le_mul_of_nonneg_right (show b + 1 ≤ batch.toInt by omega) hheight.le
    rw [Int.add_mul, Int.one_mul] at hle
    omega
  have hlow : 0 ≤ b * outHeight.toInt := Int.mul_nonneg hb hheight.le
  have hpixels := Int.mul_le_mul_of_nonneg_right hrows (show 0 ≤ outWidth.toInt * 3 by omega)
  have hnonneg : 0 ≤ (b * outHeight.toInt + y) * (outWidth.toInt * 3) :=
    Int.mul_nonneg (by omega) (by omega)
  have hassoc : batch.toInt * outHeight.toInt * (outWidth.toInt * 3) =
      batch.toInt * (outHeight.toInt * outWidth.toInt * 3) := by ring
  rw [Int.add_mul, Int.one_mul, hassoc] at hpixels
  exact ⟨by omega, by omega⟩

/-- The last pixel of a batch is counted in 32 bits. -/
theorem outFits_of_exact (h : Resized image buffer firstFrame numFrames outHeight outWidth)
    (hbatch : 0 < batch.toInt) (hexact : OutExact batch outHeight outWidth
      (launch image firstFrame batch outHeight outWidth t)) : OutFits batch outHeight outWidth := by
  have hheight := h.outHeight_pos
  have hwidth := h.outWidth_pos
  have hlast := hexact (batch.toInt - 1) (by omega) (by omega) (outWidth.toInt - 1) (by omega)
    (by omega) (outHeight.toInt - 1) (by omega) (by omega)
  have hword := Int32.toInt_lt ((launch image firstFrame batch outHeight outWidth t).outIndex
    (Int32.ofInt (batch.toInt - 1)) (Int32.ofInt (outWidth.toInt - 1))
    (Int32.ofInt (outHeight.toInt - 1)))
  rw [hlast] at hword
  have htotal : ((batch.toInt - 1) * outHeight.toInt + (outHeight.toInt - 1)) *
      (outWidth.toInt * 3) + (outWidth.toInt - 1) * 3 =
      batch.toInt * (outHeight.toInt * outWidth.toInt * 3) - 3 := by ring
  rw [htotal] at hword
  unfold OutFits
  omega

end Out

end EdgeLLM.Ports.ImageBuffer
