import EdgeLLM.Ports.ImageReach

/-!
# The addresses of the preprocessing kernel

The kernel counts rows, columns and batch entries in 32-bit words.  What it
reads at a sample, and where it writes a pixel, is set against the same address
in unbounded integers.
-/

namespace EdgeLLM.Ports.ImageBuffer

open Verified

/-- What an accepted call has checked of an image in a buffer. -/
structure Resized (image : ImageData) (buffer : Buffer)
    (firstFrame numFrames outHeight outWidth : Int64) : Prop where
  width_pos : 0 < image.width.toInt
  height_pos : 0 < image.height.toInt
  outHeight_pos : 0 < outHeight.toInt
  outWidth_pos : 0 < outWidth.toInt
  first_nonneg : 0 ≤ firstFrame.toInt
  num_pos : 0 < numFrames.toInt
  format : image.layout.format ≠ .kNV12BL
  pitch : ∀ p ∈ planes image.layout.format, image.layout.pitchBytes p ≥
    (planeExtent image.layout.format image.width image.height p).validRowBytes
  reach : layoutAddressedBytes image.layout image.width image.height (firstFrame + numFrames) ≤
    buffer.memoryCapacity
  addressable : isAddressable image outHeight outWidth

section Resizing

variable {image : ImageData} {buffer : Buffer} {dst : Destination} {stdNonzero : Bool}
  {firstFrame numFrames outHeight outWidth : Int64} {args : List KernelArgs}

theorem resize_ok (hbuffer : image.buffer = some buffer) (htextures : image.textures = fun _ => 0)
    (h : resizeAndNormalizeToRgb image firstFrame numFrames stdNonzero dst outHeight outWidth =
      .ok args) : Resized image buffer firstFrame numFrames outHeight outWidth ∧
      args = launches image firstFrame numFrames
        (batchSize image numFrames outHeight outWidth) outHeight outWidth
        numFrames.toInt.toNat 0 := by
  unfold resizeAndNormalizeToRgb at h
  simp only [check_bind_eq_ok] at h
  obtain ⟨hsource, hframes, hsizes, hreach, _, _, _, _, haddressable, _, hargs⟩ := h
  have hformat : image.layout.format ≠ .kNV12BL := by
    intro hblock
    unfold checkSource at hsource
    rw [if_pos hblock, requireThat_eq_ok, htextures] at hsource
    exact hsource.1 rfl
  unfold checkFrames at hframes
  rw [requireThat_eq_ok] at hframes hsizes haddressable
  unfold checkBuffer at hreach
  rw [if_neg hformat, hbuffer] at hreach
  dsimp only at hreach
  unfold checkReach at hreach
  simp only [check_bind_eq_ok, requireThat_eq_ok, forM_eq_ok] at hreach
  refine ⟨?_, (Except.ok.inj hargs).symm⟩
  constructor
  · exact Int64.lt_iff_toInt_lt.1 hsizes.2.1
  · exact Int64.lt_iff_toInt_lt.1 hsizes.1
  · exact Int64.lt_iff_toInt_lt.1 hsizes.2.2.1
  · exact Int64.lt_iff_toInt_lt.1 hsizes.2.2.2
  · exact Int64.le_iff_toInt_le.1 hframes.1
  · exact Int64.lt_iff_toInt_lt.1 hframes.2.1
  · exact hformat
  · intro p hp
    have hcheck := hreach.1 p hp
    unfold checkPitch at hcheck
    rw [requireThat_eq_ok] at hcheck
    exact hcheck
  · exact hreach.2
  · exact haddressable

/-- Rows fit in a word, neither the first nor the last frame starts before the
buffer, frames that go backwards start with one that ends in it, and the end of
the last frame fits in a word.  Where the frame count wraps, the check is of one
frame only and the end of the last has to be in the buffer by itself. -/
def RangeFits (layout : ImageLayout) (width height capacity : Int64) (first num : Int) : Prop :=
  ∀ p ∈ planes layout.format,
    exactRowBytes layout.format width p < 2 ^ 63 ∧
      0 ≤ frameStart layout p first ∧ 0 ≤ frameStart layout p (first + num - 1) ∧
      ((layout.frameStrideBytes p).toInt < 0 →
        frameEnd layout width height p first ≤ capacity.toInt) ∧
      (first + num < 2 ^ 63 → frameEnd layout width height p (first + num - 1) < 2 ^ 63) ∧
      (2 ^ 63 ≤ first + num →
        frameEnd layout width height p (first + num - 1) ≤ capacity.toInt)

theorem Resized.contained_iff (h : Resized image buffer firstFrame numFrames outHeight outWidth) :
    Contained image.layout image.width image.height buffer.memoryCapacity firstFrame.toInt
        (firstFrame.toInt + numFrames.toInt) ↔
      RangeFits image.layout image.width image.height buffer.memoryCapacity firstFrame.toInt
        numFrames.toInt := by
  have hcapacity := buffer.memoryCapacity.toInt_lt
  have hfirst := h.first_nonneg
  have hnum := h.num_pos
  constructor
  · intro hcontained p hp
    have hin : firstFrame.toInt ≤ firstFrame.toInt + numFrames.toInt - 1 := by omega
    have hrow := hcontained.rowBytes_le hp h.width_pos h.height_pos hin (by omega)
    have hend := hcontained.end_le hp h.width_pos h.height_pos hin (by omega)
    refine ⟨by omega, ?_, ?_, ?_, ?_, ?_⟩
    · exact hcontained.start_nonneg hp h.width_pos h.height_pos le_rfl (by omega)
    · exact hcontained.start_nonneg hp h.width_pos h.height_pos hin (by omega)
    · intro _
      exact hcontained.end_le hp h.width_pos h.height_pos le_rfl (by omega)
    · intro _
      omega
    · intro _
      exact hend
  · intro hfits
    obtain ⟨_, hends⟩ := layoutAddressedBytes_le h.format h.reach
    have hpitch : ∀ p ∈ planes image.layout.format,
        exactRowBytes image.layout.format image.width p ≤ (image.layout.pitchBytes p).toInt := by
      intro p hp
      exact rowBytes_le_pitch h.width_pos (h.pitch p hp) (hfits p hp).1
    apply contained_of_corners
    · intro p hp
      exact (exactRowBytes_pos _ p h.width_pos).le.trans (hpitch p hp)
    · intro p hp
      exact ⟨(hfits p hp).2.1, (hfits p hp).2.2.1⟩
    · intro p hp
      obtain ⟨_, hstart, hstart', hback, hshort, hlong⟩ := hfits p hp
      have hlast : frameEnd image.layout image.width image.height p
          (firstFrame.toInt + numFrames.toInt - 1) ≤ buffer.memoryCapacity.toInt := by
        by_cases hcount : firstFrame.toInt + numFrames.toInt < 2 ^ 63
        · have hsum : Wraps64 (firstFrame + numFrames) (firstFrame.toInt + numFrames.toInt) :=
            (wraps64 _).add (wraps64 _)
          have hexact := hsum.eq_of_fits ⟨by omega, hcount⟩
          have hcheck := hends p hp
          rw [← hexact] at hstart' hshort ⊢
          exact frameEnd_le_capacity h.width_pos h.height_pos (by omega) (hpitch p hp) hstart'
            (hshort (by omega)) hcheck
        · exact hlong (by omega)
      refine ⟨?_, hlast⟩
      by_cases hneg : (image.layout.frameStrideBytes p).toInt < 0
      · exact hback hneg
      · have hmul := Int.mul_nonneg (show 0 ≤ numFrames.toInt - 1 by omega)
          (Int.not_lt.1 hneg)
        have hsplit : (firstFrame.toInt + numFrames.toInt - 1) *
            (image.layout.frameStrideBytes p).toInt =
            firstFrame.toInt * (image.layout.frameStrideBytes p).toInt +
              (numFrames.toInt - 1) * (image.layout.frameStrideBytes p).toInt := by
          rw [← Int.add_mul, Int.add_sub_assoc]
        unfold frameEnd frameStart at hlast ⊢
        omega

/-- Frames of one launch after the other, each with a whole batch. -/
theorem launches_getElem {batch : Int64} (hbatch : 0 < batch.toInt)
    (hwhole : ∀ k : Nat, k * batch.toInt < numFrames.toInt →
      (k + 1) * batch.toInt ≤ numFrames.toInt) :
    ∀ {fuel i k : Nat} {t : Int64} {a : KernelArgs}, t.toInt = k * batch.toInt →
      (launches image firstFrame numFrames batch outHeight outWidth fuel t)[i]? = some a →
      ∃ t' : Int64, t'.toInt = (k + i : Nat) * batch.toInt ∧
        t'.toInt + batch.toInt ≤ numFrames.toInt ∧
        a = launch image firstFrame batch outHeight outWidth t' := by
  intro fuel
  induction fuel with
  | zero =>
    intro i k t a _ h
    cases h
  | succ fuel ih =>
    intro i k t a ht h
    unfold launches at h
    by_cases hlt : t < numFrames
    · rw [if_pos hlt] at h
      have hwhole' := hwhole k (by rw [← ht]; exact Int64.lt_iff_toInt_lt.1 hlt)
      rw [Int.add_mul, Int.one_mul, ← ht] at hwhole'
      cases i with
      | zero =>
        rw [List.getElem?_cons_zero] at h
        exact ⟨t, ht, hwhole', (Option.some.inj h).symm⟩
      | succ i =>
        rw [List.getElem?_cons_succ] at h
        have hnum := numFrames.toInt_lt
        have hlow := t.le_toInt
        have hsum : Wraps64 (t + batch) (t.toInt + batch.toInt) :=
          (wraps64 t).add (wraps64 batch)
        have hnext : (t + batch).toInt = ((k + 1 : Nat) : Int) * batch.toInt := by
          rw [hsum.eq_of_fits ⟨by omega, by omega⟩, ht, Nat.cast_add, Int.add_mul]
          show _ = _ + 1 * _
          rw [Int.one_mul]
        obtain ⟨t', ht', hrest, ha⟩ := ih hnext h
        refine ⟨t', ?_, hrest, ha⟩
        rw [ht', Nat.add_right_comm, Nat.add_assoc]
    · rw [if_neg hlt] at h
      cases h

theorem batchSize_cases (image : ImageData) (numFrames outHeight outWidth : Int64) :
    batchSize image numFrames outHeight outWidth = 1 ∨
      batchSize image numFrames outHeight outWidth = numFrames ∧
        framesStackVertically image numFrames outHeight outWidth := by
  unfold batchSize
  by_cases hstack : framesStackVertically image numFrames outHeight outWidth
  · rw [if_pos hstack]
    exact Or.inr ⟨rfl, hstack⟩
  · rw [if_neg hstack]
    exact Or.inl rfl

theorem batchSize_whole (image : ImageData) (outHeight outWidth : Int64) (hnum : 0 < numFrames.toInt) (k : Nat)
    (hk : k * (batchSize image numFrames outHeight outWidth).toInt < numFrames.toInt) :
    (k + 1) * (batchSize image numFrames outHeight outWidth).toInt ≤ numFrames.toInt := by
  rcases batchSize_cases image numFrames outHeight outWidth with hone | hall
  · have hword : (1 : Int64).toInt = 1 := rfl
    rw [hone, hword] at hk ⊢
    omega
  · rw [hall.1] at hk ⊢
    have hzero : k = 0 := by
      by_contra hne
      have hle := Int.mul_le_mul_of_nonneg_right (show (1 : Int) ≤ k by omega) hnum.le
      omega
    rw [hzero, Nat.cast_zero, Int.zero_add, Int.one_mul]

end Resizing

end EdgeLLM.Ports.ImageBuffer
