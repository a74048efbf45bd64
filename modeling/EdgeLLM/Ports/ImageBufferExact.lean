import EdgeLLM.Ports.ImageKernel

/-!
# When an accepted image is read within its buffer

An accepted `wrapImageBuffer` reaches only its buffer, and an accepted
`resizeAndNormalizeToRgb` reads only the buffer and at the right addresses, just
when nothing that the two compare has wrapped and no frame of a changed layout
starts before the buffer or, going backwards, ends behind it.
-/

namespace EdgeLLM.Ports.ImageBuffer

open Verified

/-- Every launch reads each sample of its frames where the layout has it, and
writes each pixel where the destination has it. -/
def AddressesExact (image : ImageData) (firstFrame batch outHeight outWidth : Int64)
    (launched : List KernelArgs) : Prop :=
  ∀ (i : Nat) (args : KernelArgs), launched[i]? = some args → ∀ b, 0 ≤ b → b < batch.toInt →
    (∀ p ∈ planes image.layout.format, ∀ r, 0 ≤ r → r < exactRows image.height p →
      ∀ x, 0 ≤ x → x < exactColumns image.width p →
        (args.sampleAddress p (Int32.ofInt b) (Int32.ofInt r) (Int32.ofInt x)).toInt =
          frameStart image.layout p (firstFrame.toInt + i * batch.toInt + b) +
            r * (image.layout.pitchBytes p).toInt +
            x * (pixelBytes image.layout.format p).toInt) ∧
    (∀ x, 0 ≤ x → x < outWidth.toInt → ∀ y, 0 ≤ y → y < outHeight.toInt →
      (args.outIndex (Int32.ofInt b) (Int32.ofInt x) (Int32.ofInt y)).toInt =
        (b * outHeight.toInt + y) * (outWidth.toInt * 3) + x * 3)

section Exact

variable {image : ImageData} {buffer : Buffer}
  {firstFrame numFrames outHeight outWidth batch t : Int64}

theorem sample_lt_rowBytes {format : ImageFormat} {width : Int64} {p : Fin 2} {x : Int}
    (hx : x < exactColumns width p) :
    x * (pixelBytes format p).toInt < exactRowBytes format width p := by
  unfold exactColumns at hx
  unfold pixelBytes exactRowBytes
  by_cases hp : p = 0
  · rw [if_pos hp] at hx
    rw [if_pos hp, if_pos hp]
    by_cases hrgb : format = .kRGB8
    · rw [if_pos hrgb, if_neg (not_not_intro hrgb)]
      show x * 3 < _
      omega
    · rw [if_neg hrgb, if_pos hrgb]
      show x * 1 < _
      omega
  · rw [if_neg hp] at hx
    rw [if_neg hp, if_neg hp]
    show x * 2 < _
    omega

theorem wraps_plane (p : Fin 2) :
    Wraps64 ((launch image firstFrame batch outHeight outWidth t).plane p)
      (frameStart image.layout p (firstFrame.toInt + t.toInt)) :=
  (wraps64 _).add (((wraps64 firstFrame).add (wraps64 t)).mul (wraps64 _))

theorem sample_iff (h : Resized image buffer firstFrame numFrames outHeight outWidth)
    (hcontained : Contained image.layout image.width image.height buffer.memoryCapacity
      firstFrame.toInt (firstFrame.toInt + numFrames.toInt))
    (ht : 0 ≤ t.toInt) (hrange : t.toInt + batch.toInt ≤ numFrames.toInt) {p : Fin 2}
    (hp : p ∈ planes image.layout.format) {b r x : Int} (hb : 0 ≤ b) (hentry : b < batch.toInt)
    (hr : 0 ≤ r) (hrow : r < exactRows image.height p) (hx : 0 ≤ x)
    (hcolumn : x < exactColumns image.width p) :
    ((launch image firstFrame batch outHeight outWidth t).sampleAddress p (Int32.ofInt b)
        (Int32.ofInt r) (Int32.ofInt x)).toInt =
        frameStart image.layout p (firstFrame.toInt + t.toInt + b) +
          r * (image.layout.pitchBytes p).toInt + x * (pixelBytes image.layout.format p).toInt ↔
      (launch image firstFrame batch outHeight outWidth t).inPlane p (Int32.ofInt b)
          (Int32.ofInt r) (Int32.ofInt x) = b * (image.layout.frameStrideBytes p).toInt +
          (r * (image.layout.pitchBytes p).toInt +
            x * (pixelBytes image.layout.format p).toInt) := by
  have hcapacity := buffer.memoryCapacity.toInt_lt
  have hstart := hcontained.start_nonneg hp h.width_pos h.height_pos
    (show firstFrame.toInt ≤ firstFrame.toInt + t.toInt by omega) (by omega)
  have hbase := hcontained p hp (firstFrame.toInt + t.toInt) (by omega) (by omega) 0 le_rfl
    (exactRows_pos h.height_pos) 0 le_rfl (exactRowBytes_pos _ _ h.width_pos)
  have hbytes : 0 ≤ x * (pixelBytes image.layout.format p).toInt := by
    apply Int.mul_nonneg hx
    rcases pixelBytes_cases image.layout.format p with hsize | hsize | hsize <;> omega
  have hbyte := hcontained p hp (firstFrame.toInt + t.toInt + b) (by omega) (by omega) r hr hrow
    _ hbytes (sample_lt_rowBytes hcolumn)
  rw [Int.zero_mul] at hbase
  rw [KernelArgs.sample_exact_iff _ p _ _ _ (wraps_plane p) hstart (by omega) hbyte.1 (by omega)]
  have hsplit : (firstFrame.toInt + t.toInt + b) * (image.layout.frameStrideBytes p).toInt =
      (firstFrame.toInt + t.toInt) * (image.layout.frameStrideBytes p).toInt +
        b * (image.layout.frameStrideBytes p).toInt := Int.add_mul _ _ _
  unfold frameStart
  constructor
  · intro heq
    omega
  · intro heq
    omega

theorem Resized.launchable (h : Resized image buffer firstFrame numFrames outHeight outWidth)
    (hrows : ∀ p ∈ planes image.layout.format,
      exactRowBytes image.layout.format image.width p < 2 ^ 63) :
    Launchable image (batchSize image numFrames outHeight outWidth) := by
  have hbound := h.addressable.2.1
  unfold srcBound at hbound
  rw [if_neg h.format, max_le_iff64] at hbound
  constructor
  · exact h.width_pos
  · exact h.height_pos
  · intro p hp
    exact rowBytes_le_pitch h.width_pos (h.pitch p hp) (hrows p hp)
  · exact hbound.1
  · exact hbound.2
  · exact (batchSize_cases _ _ _ _).imp id fun hall => ⟨hall.2.1, hall.2.2.1⟩

theorem batchSize_pos (image : ImageData) (outHeight outWidth : Int64) (hnum : 0 < numFrames.toInt) :
    0 < (batchSize image numFrames outHeight outWidth).toInt := by
  rcases batchSize_cases image numFrames outHeight outWidth with hone | hall
  · rw [hone]
    decide
  · rw [hall.1]
    exact hnum

theorem launches_first (hnum : 0 < numFrames.toInt) :
    (launches image firstFrame numFrames batch outHeight outWidth numFrames.toInt.toNat 0)[0]? =
      some (launch image firstFrame batch outHeight outWidth 0) := by
  obtain ⟨fuel, hfuel⟩ : ∃ fuel, numFrames.toInt.toNat = fuel + 1 :=
    Nat.exists_eq_succ_of_ne_zero (by omega)
  rw [hfuel]
  unfold launches
  have hlt : (0 : Int64) < numFrames := by
    rw [Int64.lt_iff_toInt_lt]
    exact hnum
  rw [if_pos hlt]
  rfl

theorem addressesExact_iff (h : Resized image buffer firstFrame numFrames outHeight outWidth)
    (hcontained : Contained image.layout image.width image.height buffer.memoryCapacity
      firstFrame.toInt (firstFrame.toInt + numFrames.toInt)) :
    AddressesExact image firstFrame (batchSize image numFrames outHeight outWidth) outHeight
        outWidth (launches image firstFrame numFrames
          (batchSize image numFrames outHeight outWidth) outHeight outWidth
          numFrames.toInt.toNat 0) ↔
      SourceFits image (batchSize image numFrames outHeight outWidth) ∧
        OutFits (batchSize image numFrames outHeight outWidth) outHeight outWidth := by
  have hcapacity := buffer.memoryCapacity.toInt_lt
  have hnum := h.num_pos
  have hlaunchable : Launchable image (batchSize image numFrames outHeight outWidth) := by
    apply h.launchable
    intro p hp
    have hrow := hcontained.rowBytes_le hp h.width_pos h.height_pos le_rfl (by omega)
    omega
  have hbatch := batchSize_pos image outHeight outWidth hnum
  have hwhole := batchSize_whole image outHeight outWidth
    hnum
  have hsmall := batchSize_cases image numFrames outHeight outWidth
  have hone := hwhole 0 (by rw [Nat.cast_zero, Int.zero_mul]; exact hnum)
  rw [Nat.cast_zero, Int.zero_add, Int.one_mul] at hone
  generalize batchSize image numFrames outHeight outWidth = batch at *
  constructor
  · intro hexact
    have hlaunch := hexact 0 _ (launches_first hnum)
    constructor
    · rw [← inPlaneExact_iff firstFrame outHeight outWidth 0 hlaunchable hbatch]
      intro p hp b hb hentry r hr hrow x hx hcolumn
      rw [← sample_iff h hcontained le_rfl (by show 0 + _ ≤ _; omega) hp hb hentry hr hrow hx
        hcolumn]
      rw [(hlaunch b hb hentry).1 p hp r hr hrow x hx hcolumn, Nat.cast_zero, Int.zero_mul]
      rfl
    · apply outFits_of_exact (t := 0) h hbatch
      intro b hb hentry x hx hcolumn y hy hrow
      exact (hlaunch b hb hentry).2 x hx hcolumn y hy hrow
  · rintro ⟨hsource, hout⟩ i args hargs b hb hentry
    have hzero : (0 : Int64).toInt = (0 : Nat) * batch.toInt := by
      rw [Nat.cast_zero, Int.zero_mul]
      rfl
    obtain ⟨t, ht, hrange, rfl⟩ := launches_getElem hbatch hwhole hzero hargs
    rw [Nat.zero_add] at ht
    have hpos : 0 ≤ t.toInt := by
      rw [ht]
      exact Int.mul_nonneg (Int.natCast_nonneg i) hbatch.le
    constructor
    · intro p hp r hr hrow x hx hcolumn
      rw [← ht, sample_iff h hcontained hpos hrange hp hb hentry hr hrow hx hcolumn]
      exact inPlaneExact_of_fits hlaunchable hsource p hp b hb hentry r hr hrow x hx hcolumn
    · apply outExact_of_fits h hbatch _ hout b hb hentry
      rcases hsmall with hsingle | hall
      · exact Or.inl hsingle
      · rw [hall.1]
        exact Or.inr hall.2.2.2

end Exact

/-- An image that was wrapped and whose layout was changed afterwards. -/
theorem imageBuffer_exact_iff (buffer : Buffer) (layout : ImageLayout)
    (width height frames : Int64) (image : ImageData)
    (hwrap : wrapImageBuffer (some buffer) layout width height frames = .ok image)
    (layout' : ImageLayout) (firstFrame numFrames outHeight outWidth : Int64)
    (stdNonzero : Bool) (dst : Destination) :
    (Contained layout width height buffer.memoryCapacity 0 frames.toInt ↔
      WrapFits layout width height frames) ∧
    ∀ launched,
      resizeAndNormalizeToRgb { image with layout := layout' } firstFrame numFrames stdNonzero dst
        outHeight outWidth = .ok launched →
      (Contained layout' width height buffer.memoryCapacity firstFrame.toInt
          (firstFrame.toInt + numFrames.toInt) ∧
        AddressesExact { image with layout := layout' } firstFrame
          (batchSize { image with layout := layout' } numFrames outHeight outWidth) outHeight
          outWidth launched ↔
        RangeFits layout' width height buffer.memoryCapacity firstFrame.toInt numFrames.toInt ∧
        SourceFits { image with layout := layout' }
          (batchSize { image with layout := layout' } numFrames outHeight outWidth) ∧
        OutFits (batchSize { image with layout := layout' } numFrames outHeight outWidth)
          outHeight outWidth) := by
  obtain ⟨b, hb, hwrapped, himage⟩ := wrapImageBuffer_ok hwrap
  cases hb
  refine ⟨hwrapped.contained_iff, ?_⟩
  intro launched hresize
  subst himage
  obtain ⟨hresized, hlaunched⟩ := resize_ok rfl rfl hresize
  have hcontained := hresized.contained_iff
  rw [hlaunched]
  constructor
  · rintro ⟨hin, hexact⟩
    exact ⟨hcontained.1 hin, (addressesExact_iff hresized hin).1 hexact⟩
  · rintro ⟨hrange, hfits⟩
    have hin := hcontained.2 hrange
    exact ⟨hin, (addressesExact_iff hresized hin).2 hfits⟩

/-! ## Inputs that reach outside -/

/-- NV12 with the given luma pitch and chroma offset. -/
def nv12Layout (lumaPitch chromaOffset : Int64) : ImageLayout :=
  { format := .kNV12PL
    colorStandard := .kBt709
    colorRange := .kLimited
    planeOffsetBytes := fun p => if p = 0 then 0 else chromaOffset
    pitchBytes := fun p => if p = 0 then lumaPitch else 2 }

def hostBuffer (memoryCapacity : Int64) : Buffer :=
  { isUint8 := true, kernelAddressable := true, memoryCapacity }

def gpuHalf (memoryCapacity : Int64) : Destination :=
  { onGpu := true, isHalf := true, ownMemory := true, memoryCapacity }

/-- A frame of two by three pixels. -/
def wrappedFrame (layout : ImageLayout) : ImageData :=
  { buffer := some (hostBuffer 10), layout, width := 2, height := 3, frames := 1 }

theorem imageBuffer_exact_twoByThree :
    (Contained (nv12Layout 2 6) 2 3 10 0 1 ↔ WrapFits (nv12Layout 2 6) 2 3 1) ∧
      (Contained (nv12Layout 2 6) 2 3 10 0 (0 + 1) ∧
        AddressesExact (wrappedFrame (nv12Layout 2 6)) 0
          (batchSize (wrappedFrame (nv12Layout 2 6)) 1 1 1) 1 1
          [launch (wrappedFrame (nv12Layout 2 6)) 0 1 1 1 0] ↔
        RangeFits (nv12Layout 2 6) 2 3 10 0 1 ∧
        SourceFits (wrappedFrame (nv12Layout 2 6))
          (batchSize (wrappedFrame (nv12Layout 2 6)) 1 1 1) ∧
        OutFits (batchSize (wrappedFrame (nv12Layout 2 6)) 1 1 1) 1 1) :=
  ⟨(imageBuffer_exact_iff (hostBuffer 10) (nv12Layout 2 6) 2 3 1 (wrappedFrame (nv12Layout 2 6))
      rfl (nv12Layout 2 6) 0 1 1 1 true (gpuHalf 6)).1,
    (imageBuffer_exact_iff (hostBuffer 10) (nv12Layout 2 6) 2 3 1 (wrappedFrame (nv12Layout 2 6))
      rfl (nv12Layout 2 6) 0 1 1 1 true (gpuHalf 6)).2 _ rfl⟩

/-- A luma pitch of `2 ^ 62` wraps the end of the plane to a negative number,
and a negative chroma offset is not looked at when the frame is resized. -/
theorem imageBuffer_reaches_outside :
    (wrapImageBuffer (some (hostBuffer 10)) (nv12Layout 4611686018427387904 6) 2 3 1 =
        .ok (wrappedFrame (nv12Layout 4611686018427387904 6)) ∧
      ¬Contained (nv12Layout 4611686018427387904 6) 2 3 10 0 1) ∧
    wrapImageBuffer (some (hostBuffer 10)) (nv12Layout 2 6) 2 3 1 =
        .ok (wrappedFrame (nv12Layout 2 6)) ∧
      (∃ launched, resizeAndNormalizeToRgb
        { wrappedFrame (nv12Layout 2 6) with layout := nv12Layout 2 (-4096) } 0 1 true (gpuHalf 6)
          1 1 = .ok launched) ∧
      ¬Contained (nv12Layout 2 (-4096)) 2 3 10 0 1 := by
  refine ⟨⟨rfl, ?_⟩, rfl, ⟨_, rfl⟩, ?_⟩
  · intro h
    have hbyte := h 0 (by decide) 0 (by decide) (by decide) 1 (by decide) (by decide) 0
      (by decide) (by decide)
    exact absurd hbyte (by decide)
  · intro h
    have hbyte := h 1 (by decide) 0 (by decide) (by decide) 0 (by decide) (by decide) 0
      (by decide) (by decide)
    exact absurd hbyte (by decide)

end EdgeLLM.Ports.ImageBuffer
