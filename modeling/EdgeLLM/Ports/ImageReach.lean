import EdgeLLM.Ports.ImageBuffer
import EdgeLLM.Verified.Wrapping

/-!
# What an accepted layout reaches

The bytes of a layout in unbounded integers, and what the bound checks of
`wrapImageBuffer` and `resizeAndNormalizeToRgb` say about them.  Both compare
the end of the last frame, computed in words, with the capacity of the buffer:
where the exact end fits in a word, the last frame ends in the buffer.
-/

namespace EdgeLLM.Ports.ImageBuffer

open Verified

/-! ## Exact extents -/

def exactRows (height : Int64) (plane : Fin 2) : Int :=
  if plane = 0 then height.toInt else (height.toInt + 1) / 2

def exactRowBytes (format : ImageFormat) (width : Int64) (plane : Fin 2) : Int :=
  if plane = 0 then if format ≠ .kRGB8 then width.toInt else width.toInt * 3
  else 2 * ((width.toInt + 1) / 2)

/-- Where frame `f` of a plane starts. -/
def frameStart (layout : ImageLayout) (plane : Fin 2) (f : Int) : Int :=
  (layout.planeOffsetBytes plane).toInt + f * (layout.frameStrideBytes plane).toInt

/-- The bytes from the start of a frame to its end. -/
def frameSpan (layout : ImageLayout) (width height : Int64) (plane : Fin 2) : Int :=
  (exactRows height plane - 1) * (layout.pitchBytes plane).toInt +
    exactRowBytes layout.format width plane

def frameEnd (layout : ImageLayout) (width height : Int64) (plane : Fin 2) (f : Int) : Int :=
  frameStart layout plane f + frameSpan layout width height plane

/-- Every byte of the frames from `first` to before `last` is in the buffer. -/
def Contained (layout : ImageLayout) (width height capacity : Int64) (first last : Int) : Prop :=
  ∀ p ∈ planes layout.format, ∀ f, first ≤ f → f < last →
    ∀ r, 0 ≤ r → r < exactRows height p →
      ∀ c, 0 ≤ c → c < exactRowBytes layout.format width p →
        0 ≤ frameStart layout p f + r * (layout.pitchBytes p).toInt + c ∧
          frameStart layout p f + r * (layout.pitchBytes p).toInt + c < capacity.toInt

section Extents

variable {layout : ImageLayout} {width height capacity : Int64} {p : Fin 2} {f first last : Int}

theorem exactRows_pos (hheight : 0 < height.toInt) : 0 < exactRows height p := by
  unfold exactRows
  split <;> omega

theorem exactRowBytes_pos (layout : ImageLayout) (p : Fin 2) (hwidth : 0 < width.toInt) :
    0 < exactRowBytes layout.format width p := by
  unfold exactRowBytes
  split
  · split <;> omega
  · omega

theorem Contained.start_nonneg (h : Contained layout width height capacity first last)
    (hp : p ∈ planes layout.format) (hwidth : 0 < width.toInt) (hheight : 0 < height.toInt)
    (hfirst : first ≤ f) (hlast : f < last) : 0 ≤ frameStart layout p f := by
  have hbyte := h p hp f hfirst hlast 0 le_rfl (exactRows_pos hheight) 0 le_rfl
    (exactRowBytes_pos layout p hwidth)
  rw [Int.zero_mul, Int.add_zero, Int.add_zero] at hbyte
  exact hbyte.1

theorem Contained.end_le (h : Contained layout width height capacity first last)
    (hp : p ∈ planes layout.format) (hwidth : 0 < width.toInt) (hheight : 0 < height.toInt)
    (hfirst : first ≤ f) (hlast : f < last) :
    frameEnd layout width height p f ≤ capacity.toInt := by
  have hrows := exactRows_pos (p := p) hheight
  have hbytes := exactRowBytes_pos layout p hwidth
  have hbyte := h p hp f hfirst hlast (exactRows height p - 1) (by omega) (by omega)
    (exactRowBytes layout.format width p - 1) (by omega) (by omega)
  unfold frameEnd frameSpan
  omega

theorem Contained.rowBytes_le (h : Contained layout width height capacity first last)
    (hp : p ∈ planes layout.format) (hwidth : 0 < width.toInt) (hheight : 0 < height.toInt)
    (hfirst : first ≤ f) (hlast : f < last) :
    exactRowBytes layout.format width p ≤ capacity.toInt := by
  have hrows := exactRows_pos (p := p) hheight
  have hbytes := exactRowBytes_pos layout p hwidth
  have hstart := h.start_nonneg hp hwidth hheight hfirst hlast
  have hbyte := h p hp f hfirst hlast 0 le_rfl hrows
    (exactRowBytes layout.format width p - 1) (by omega) (by omega)
  omega

/-- A linear function lies between its values at the ends of a range. -/
theorem mul_between {a b lo hi x : Int} (hlo : lo ≤ x) (hhi : x ≤ hi) (hbound : lo * a ≤ b)
    (hbound' : hi * a ≤ b) : x * a ≤ b := by
  rcases Int.le_total 0 a with hpos | hneg
  · exact (Int.mul_le_mul_of_nonneg_right hhi hpos).trans hbound'
  · exact (Int.mul_le_mul_of_nonpos_right hlo hneg).trans hbound

/-- Frames between two that are in the buffer are in it. -/
theorem contained_of_corners (hpitch : ∀ p ∈ planes layout.format, 0 ≤ (layout.pitchBytes p).toInt)
    (hstart : ∀ p ∈ planes layout.format,
      0 ≤ frameStart layout p first ∧ 0 ≤ frameStart layout p (last - 1))
    (hend : ∀ p ∈ planes layout.format, frameEnd layout width height p first ≤ capacity.toInt ∧
      frameEnd layout width height p (last - 1) ≤ capacity.toInt) :
    Contained layout width height capacity first last := by
  intro p hp f hfirst hlast r hr hrow c hc hcolumn
  have hlow := hstart p hp
  have hhigh := hend p hp
  unfold frameEnd frameSpan at hhigh
  unfold frameStart at *
  have hup := mul_between (a := (layout.frameStrideBytes p).toInt)
    (b := capacity.toInt - (layout.planeOffsetBytes p).toInt -
      ((exactRows height p - 1) * (layout.pitchBytes p).toInt +
        exactRowBytes layout.format width p))
    hfirst (Int.le_sub_one_of_lt hlast) (by omega) (by omega)
  have hdown := mul_between (a := -(layout.frameStrideBytes p).toInt)
    (b := (layout.planeOffsetBytes p).toInt)
    hfirst (Int.le_sub_one_of_lt hlast)
    (by rw [Int.mul_neg]; omega) (by rw [Int.mul_neg]; omega)
  rw [Int.mul_neg] at hdown
  have hrowLow := Int.mul_nonneg hr (hpitch p hp)
  have hrowHigh := Int.mul_le_mul_of_nonneg_right (Int.le_sub_one_of_lt hrow) (hpitch p hp)
  omega

/-! ## The words the checks compare -/

variable {frames : Int64}

theorem wraps_rowBytes (height : Int64) (hwidth : 0 < width.toInt) :
    Wraps64 (planeExtent layout.format width height p).validRowBytes
      (exactRowBytes layout.format width p) := by
  unfold planeExtent exactRowBytes
  by_cases hp : p = 0
  · rw [if_pos hp, if_pos hp]
    dsimp only
    split
    · exact wraps64 width
    · exact (wraps64 width).mul (wraps64 3)
  · rw [if_neg hp, if_neg hp]
    dsimp only
    have htwo : Wraps64 2 2 := wraps64 2
    have hsum : Wraps64 (width + 1) (width.toInt + 1) := (wraps64 width).add (wraps64 1)
    by_cases hfit : width.toInt + 1 < 2 ^ 63
    · have hexact := hsum.eq_of_fits ⟨by omega, hfit⟩
      apply htwo.mul
      rw [← hexact, ← toInt_div_two64 (by omega)]
      exact wraps64 _
    · -- the widest frame: the row is `2 ^ 63` bytes, which wraps to the same residue
      have hmax : width = 9223372036854775807 := by
        apply Int64.toInt_inj.1
        have := width.toInt_lt
        show width.toInt = 9223372036854775807
        omega
      rw [hmax]
      unfold Wraps64 Int.ModEq
      decide

/-- Where a row fits in a word, the pitch is no less than it. -/
theorem rowBytes_le_pitch (hwidth : 0 < width.toInt)
    (hpitch : layout.pitchBytes p ≥ (planeExtent layout.format width height p).validRowBytes)
    (hfit : exactRowBytes layout.format width p < 2 ^ 63) :
    exactRowBytes layout.format width p ≤ (layout.pitchBytes p).toInt := by
  have hpos := exactRowBytes_pos layout p hwidth
  rw [← (wraps_rowBytes height hwidth).eq_of_fits ⟨by omega, hfit⟩]
  exact Int64.le_iff_toInt_le.1 hpitch

/-- The rows of a plane that ends below `2 ^ 63` are counted exactly. -/
theorem rows_exact (hwidth : 0 < width.toInt) (hheight : 0 < height.toInt) {start : Int}
    (hstart : 0 ≤ start)
    (hpitch : exactRowBytes layout.format width p ≤ (layout.pitchBytes p).toInt)
    (hend : start + frameSpan layout width height p < 2 ^ 63) :
    (planeExtent layout.format width height p).rows.toInt = exactRows height p := by
  unfold planeExtent exactRows
  by_cases hp : p = 0
  · rw [if_pos hp, if_pos hp]
  · rw [if_neg hp, if_neg hp]
    dsimp only
    have hfit : height.toInt + 1 < 2 ^ 63 := by
      unfold frameSpan exactRows at hend
      unfold exactRowBytes at hpitch hend
      rw [if_neg hp] at hpitch hend
      rw [if_neg hp] at hend
      have htwo : (2 : Int) ≤ (layout.pitchBytes p).toInt := by omega
      have hrows : 0 ≤ (height.toInt + 1) / 2 - 1 := by omega
      have hmul := Int.mul_le_mul_of_nonneg_left htwo hrows
      omega
    have hsum : Wraps64 (height + 1) (height.toInt + 1) := (wraps64 height).add (wraps64 1)
    have hexact := hsum.eq_of_fits ⟨by omega, hfit⟩
    rw [toInt_div_two64 (by omega), hexact]

theorem wraps_planeFrameBytes (hwidth : 0 < width.toInt)
    (hrows : (planeExtent layout.format width height p).rows.toInt = exactRows height p) :
    Wraps64 (planeFrameBytes layout width height p) (frameSpan layout width height p) := by
  have hcount : Wraps64 ((planeExtent layout.format width height p).rows - 1)
      (exactRows height p - 1) := by
    rw [← hrows]
    exact (wraps64 _).sub (wraps64 1)
  exact (hcount.mul (wraps64 _)).add (wraps_rowBytes height hwidth)

/-- One frame alone starts at the plane offset, whatever its stride. -/
theorem wraps_planeEnd (hwidth : 0 < width.toInt) (hframes : 0 < frames.toInt)
    (hrows : (planeExtent layout.format width height p).rows.toInt = exactRows height p) :
    Wraps64 (planeEnd layout width height frames p)
      (frameEnd layout width height p (frames.toInt - 1)) := by
  have hlast : Wraps64 ((frames - 1) * if frames > 1 then layout.frameStrideBytes p else 0)
      ((frames.toInt - 1) * (layout.frameStrideBytes p).toInt) := by
    have hcount : Wraps64 (frames - 1) (frames.toInt - 1) := (wraps64 _).sub (wraps64 1)
    by_cases hmany : frames > 1
    · rw [if_pos hmany]
      exact hcount.mul (wraps64 _)
    · rw [if_neg hmany]
      have hone : frames.toInt - 1 = 0 := by
        have hle : ¬1 < frames.toInt := fun h => hmany (Int64.lt_iff_toInt_lt.2 h)
        omega
      apply (hcount.mul (wraps64 0)).congr
      rw [hone, Int.zero_mul, Int.zero_mul]
  exact ((wraps64 _).add hlast).add (wraps_planeFrameBytes hwidth hrows)

theorem layoutAddressedBytes_le (hformat : layout.format ≠ .kNV12BL)
    (h : layoutAddressedBytes layout width height frames ≤ capacity) : 0 ≤ capacity.toInt ∧
      ∀ p ∈ planes layout.format, planeEnd layout width height frames p ≤ capacity := by
  unfold layoutAddressedBytes at h
  rw [if_neg hformat, foldl_max_le_iff64] at h
  exact ⟨Int64.le_iff_toInt_le.1 h.1, h.2⟩

/-- The check on the last frame, where its end fits in a word. -/
theorem frameEnd_le_capacity (hwidth : 0 < width.toInt) (hheight : 0 < height.toInt)
    (hframes : 0 < frames.toInt)
    (hpitch : exactRowBytes layout.format width p ≤ (layout.pitchBytes p).toInt)
    (hstart : 0 ≤ frameStart layout p (frames.toInt - 1))
    (hfit : frameEnd layout width height p (frames.toInt - 1) < 2 ^ 63)
    (hend : planeEnd layout width height frames p ≤ capacity) :
    frameEnd layout width height p (frames.toInt - 1) ≤ capacity.toInt := by
  have hrows := rows_exact hwidth hheight hstart hpitch hfit
  have hbytes := exactRowBytes_pos layout p hwidth
  have hcount := exactRows_pos (p := p) hheight
  have hpos : 0 ≤ (exactRows height p - 1) * (layout.pitchBytes p).toInt :=
    Int.mul_nonneg (by omega) (by omega)
  have hlow : -2 ^ 63 ≤ frameEnd layout width height p (frames.toInt - 1) := by
    unfold frameEnd frameSpan
    omega
  rw [← (wraps_planeEnd hwidth hframes hrows).eq_of_fits ⟨hlow, hfit⟩]
  exact Int64.le_iff_toInt_le.1 hend

end Extents

/-! ## Wrapping a buffer -/

/-- Rows fit in a word, and so do the ends of the first and the last frame. -/
def WrapFits (layout : ImageLayout) (width height frames : Int64) : Prop :=
  ∀ p ∈ planes layout.format,
    exactRowBytes layout.format width p < 2 ^ 63 ∧
      frameEnd layout width height p 0 < 2 ^ 63 ∧
      frameEnd layout width height p (frames.toInt - 1) < 2 ^ 63

/-- What an accepted call has checked. -/
structure Wrapped (buffer : Buffer) (layout : ImageLayout) (width height frames : Int64) :
    Prop where
  width_pos : 0 < width.toInt
  height_pos : 0 < height.toInt
  frames_pos : 0 < frames.toInt
  format : layout.format ≠ .kNV12BL
  offset : ∀ p ∈ planes layout.format, 0 ≤ (layout.planeOffsetBytes p).toInt
  pitch : ∀ p ∈ planes layout.format,
    layout.pitchBytes p ≥ (planeExtent layout.format width height p).validRowBytes
  stride : ∀ p ∈ planes layout.format, frames > 1 →
    layout.frameStrideBytes p ≥ planeFrameBytes layout width height p
  reach : layoutAddressedBytes layout width height frames ≤ buffer.memoryCapacity

variable {buffer : Buffer} {layout : ImageLayout} {height frames : Int64}

theorem wrapImageBuffer_ok {buffer : Option Buffer} {width : Int64} {image : ImageData}
    (h : wrapImageBuffer buffer layout width height frames = .ok image) :
    ∃ b, buffer = some b ∧ Wrapped b layout width height frames ∧
      image = { buffer := some b, layout, width, height, frames } := by
  cases buffer with
  | none => cases h
  | some b =>
    unfold wrapImageBuffer at h
    simp only [check_bind_eq_ok] at h
    obtain ⟨_, hsizes, hformat, _, _, _, hplanes, hreach, himage⟩ := h
    rw [requireThat_eq_ok] at hsizes hformat hreach
    rw [forM_eq_ok] at hplanes
    have hchecks : ∀ p ∈ planes layout.format, layout.planeOffsetBytes p ≥ 0 ∧
        layout.pitchBytes p ≥ (planeExtent layout.format width height p).validRowBytes ∧
        (frames > 1 → layout.frameStrideBytes p ≥ planeFrameBytes layout width height p) := by
      intro p hp
      have hcheck := hplanes p hp
      unfold checkPlane at hcheck
      simpa only [check_bind_eq_ok, requireThat_eq_ok] using hcheck
    refine ⟨b, rfl, ?_, (Except.ok.inj himage).symm⟩
    constructor
    · exact Int64.lt_iff_toInt_lt.1 hsizes.1
    · exact Int64.lt_iff_toInt_lt.1 hsizes.2.1
    · exact Int64.lt_iff_toInt_lt.1 hsizes.2.2
    · exact hformat
    · intro p hp
      exact Int64.le_iff_toInt_le.1 (hchecks p hp).1
    · intro p hp
      exact (hchecks p hp).2.1
    · intro p hp
      exact (hchecks p hp).2.2
    · exact hreach

theorem frameStart_zero (layout : ImageLayout) (p : Fin 2) :
    frameStart layout p 0 = (layout.planeOffsetBytes p).toInt := by
  unfold frameStart
  rw [Int.zero_mul, Int.add_zero]

/-- Later frames start no earlier than the first, since a stride is a frame at least. -/
theorem Wrapped.last_start {width : Int64} {p : Fin 2}
    (h : Wrapped buffer layout width height frames) (hp : p ∈ planes layout.format)
    (hfits : exactRowBytes layout.format width p < 2 ^ 63)
    (hfirst : frameEnd layout width height p 0 < 2 ^ 63) :
    frameStart layout p 0 ≤ frameStart layout p (frames.toInt - 1) := by
  have hstart := (h.offset p hp).trans_eq (frameStart_zero layout p).symm
  have hpitch := rowBytes_le_pitch h.width_pos (h.pitch p hp) hfits
  have hrows := rows_exact h.width_pos h.height_pos hstart hpitch hfirst
  have hbytes := exactRowBytes_pos layout p h.width_pos
  have hcount := exactRows_pos (p := p) h.height_pos
  have hspan : 0 ≤ (exactRows height p - 1) * (layout.pitchBytes p).toInt :=
    Int.mul_nonneg (by omega) (by omega)
  have hpos := h.frames_pos
  unfold frameEnd at hfirst
  by_cases hmany : frames > 1
  · have hstride : 0 ≤ (layout.frameStrideBytes p).toInt := by
      have hle := Int64.le_iff_toInt_le.1 (h.stride p hp hmany)
      have hexact := (wraps_planeFrameBytes h.width_pos hrows).eq_of_fits
        ⟨by unfold frameSpan; omega, by omega⟩
      rw [hexact] at hle
      unfold frameSpan at hle
      omega
    have hmul := Int.mul_nonneg (show 0 ≤ frames.toInt - 1 by omega) hstride
    unfold frameStart
    omega
  · have hone : frames.toInt - 1 = 0 := by
      have hle : ¬1 < frames.toInt := fun h => hmany (Int64.lt_iff_toInt_lt.2 h)
      omega
    rw [hone]

theorem Wrapped.contained_iff {width : Int64} (h : Wrapped buffer layout width height frames) :
    Contained layout width height buffer.memoryCapacity 0 frames.toInt ↔
      WrapFits layout width height frames := by
  have hcapacity := buffer.memoryCapacity.toInt_lt
  have hpos := h.frames_pos
  constructor
  · intro hcontained p hp
    have hrow := hcontained.rowBytes_le hp h.width_pos h.height_pos le_rfl hpos
    have hfirst := hcontained.end_le hp h.width_pos h.height_pos le_rfl hpos
    have hlast := hcontained.end_le hp h.width_pos h.height_pos
      (show 0 ≤ frames.toInt - 1 by omega) (by omega)
    exact ⟨by omega, by omega, by omega⟩
  · intro hfits
    obtain ⟨_, hends⟩ := layoutAddressedBytes_le h.format h.reach
    have hpitch : ∀ p ∈ planes layout.format,
        exactRowBytes layout.format width p ≤ (layout.pitchBytes p).toInt := by
      intro p hp
      exact rowBytes_le_pitch h.width_pos (h.pitch p hp) (hfits p hp).1
    have hstart : ∀ p ∈ planes layout.format, 0 ≤ frameStart layout p 0 ∧
        frameStart layout p 0 ≤ frameStart layout p (frames.toInt - 1) := by
      intro p hp
      have hoffset := h.offset p hp
      exact ⟨hoffset.trans_eq (frameStart_zero layout p).symm,
        h.last_start hp (hfits p hp).1 (hfits p hp).2.1⟩
    apply contained_of_corners
    · intro p hp
      exact (exactRowBytes_pos _ p h.width_pos).le.trans (hpitch p hp)
    · intro p hp
      exact ⟨(hstart p hp).1, (hstart p hp).1.trans (hstart p hp).2⟩
    · intro p hp
      have hlast := frameEnd_le_capacity h.width_pos h.height_pos hpos (hpitch p hp)
        ((hstart p hp).1.trans (hstart p hp).2) (hfits p hp).2.2 (hends p hp)
      refine ⟨?_, hlast⟩
      have hle := (hstart p hp).2
      unfold frameEnd at hlast ⊢
      omega

end EdgeLLM.Ports.ImageBuffer
