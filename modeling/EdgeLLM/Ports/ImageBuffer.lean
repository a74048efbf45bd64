import EdgeLLM.Verified.Checked
import Mathlib.Data.Fin.Basic

/-!
# Image layouts over caller-owned buffers

`wrapImageBuffer` takes a caller's buffer for an image whose planes, rows and
frames a layout places.  `resizeAndNormalizeToRgb` launches the preprocessing
kernel over a range of the frames, which reads the buffer in place.

`int64_t` and `int` are 64- and 32-bit words that wrap.  A byte of the buffer is
named by its offset from the base of the buffer.
-/

namespace EdgeLLM.Ports.ImageBuffer

open Verified

/-! ## Images -/

inductive ImageFormat where
  | kRGB8
  | kNV12PL
  | kNV12BL
  deriving DecidableEq

inductive ColorStandard where
  | kUnspecified
  | kBt601
  | kBt709
  | kBt2020
  deriving DecidableEq

inductive ColorRange where
  | kUnspecified
  | kLimited
  | kFull
  deriving DecidableEq

structure ImageLayout where
  format : ImageFormat := .kRGB8
  colorStandard : ColorStandard := .kUnspecified
  colorRange : ColorRange := .kUnspecified
  planeOffsetBytes : Fin 2 → Int64 := fun _ => 0
  pitchBytes : Fin 2 → Int64 := fun _ => 0
  frameStrideBytes : Fin 2 → Int64 := fun _ => 0

/-- A tensor as the checks see it. -/
structure Buffer where
  isUint8 : Bool
  kernelAddressable : Bool
  memoryCapacity : Int64

/-- `textures` are the texture objects of the two planes. -/
structure ImageData where
  buffer : Option Buffer := none
  textures : Fin 2 → UInt64 := fun _ => 0
  layout : ImageLayout := {}
  width : Int64 := 0
  height : Int64 := 0
  frames : Int64 := 1

/-! ## Extents -/

structure PlaneExtent where
  validRowBytes : Int64
  rows : Int64

/-- Planes are numbered 0 and 1. -/
scoped instance neZero_two : @NeZero Nat Zero.ofOfNat0 2 := ⟨by decide⟩

def planeExtent (format : ImageFormat) (width height : Int64) (plane : Fin 2) : PlaneExtent :=
  if plane = 0 then
    { validRowBytes := if format ≠ .kRGB8 then width else width * 3
      rows := height }
  else
    { validRowBytes := 2 * ((width + 1) / 2)
      rows := (height + 1) / 2 }

/-- Bytes one frame of `plane` occupies at the layout's pitch. -/
def planeFrameBytes (layout : ImageLayout) (width height : Int64) (plane : Fin 2) : Int64 :=
  let extent := planeExtent layout.format width height plane
  (extent.rows - 1) * layout.pitchBytes plane + extent.validRowBytes

def numPlanes (format : ImageFormat) : Nat := if format = .kRGB8 then 1 else 2

def planes (format : ImageFormat) : List (Fin 2) := (List.finRange 2).take (numPlanes format)

/-- Last byte of one plane. -/
def planeEnd (layout : ImageLayout) (width height frames : Int64) (plane : Fin 2) : Int64 :=
  let frameStride := if frames > 1 then layout.frameStrideBytes plane else 0
  layout.planeOffsetBytes plane + (frames - 1) * frameStride +
    planeFrameBytes layout width height plane

/-- Last byte the layout addresses. -/
def layoutAddressedBytes (layout : ImageLayout) (width height frames : Int64) : Int64 :=
  if layout.format = .kNV12BL then 0
  else
    (planes layout.format).foldl
      (fun last plane => max last (planeEnd layout width height frames plane)) 0

/-! ## Wrapping a buffer -/

def namesColors (layout : ImageLayout) : Prop :=
  layout.colorStandard ≠ .kUnspecified ∧ layout.colorRange ≠ .kUnspecified

instance (layout : ImageLayout) : Decidable (namesColors layout) :=
  inferInstanceAs (Decidable (_ ∧ _))

/-- The checks that `wrapImageBuffer` makes of one plane. -/
def checkPlane (layout : ImageLayout) (width height frames : Int64) (plane : Fin 2) :
    Except String Unit := do
  requireThat (layout.planeOffsetBytes plane ≥ 0) "wrapImageBuffer: negative plane offset."
  let validRowBytes := (planeExtent layout.format width height plane).validRowBytes
  requireThat (layout.pitchBytes plane ≥ validRowBytes)
    ("wrapImageBuffer: plane " ++ toString plane.val ++ " pitch " ++
      toString (layout.pitchBytes plane) ++ " is below its valid row width " ++
      toString validRowBytes ++ "; supply the pitch explicitly.")
  let planeBytes := planeFrameBytes layout width height plane
  requireThat (frames > 1 → layout.frameStrideBytes plane ≥ planeBytes)
    ("wrapImageBuffer: plane " ++ toString plane.val ++ " frame stride " ++
      toString (layout.frameStrideBytes plane) ++ " is below one frame of that plane (" ++
      toString planeBytes ++ " bytes); supply the frame stride explicitly.")

/-- `kRGB8` is read as one contiguous run. -/
def isPacked (layout : ImageLayout) (width height frames : Int64) : Prop :=
  layout.planeOffsetBytes 0 = 0 ∧ layout.pitchBytes 0 = width * 3 ∧
    (frames = 1 ∨ layout.frameStrideBytes 0 = height * width * 3)

instance (layout : ImageLayout) (width height frames : Int64) :
    Decidable (isPacked layout width height frames) :=
  inferInstanceAs (Decidable (_ ∧ _ ∧ (_ ∨ _)))

def wrapImageBuffer (buffer : Option Buffer) (layout : ImageLayout)
    (width height frames : Int64) : Except String ImageData :=
  match buffer with
  | none => .error "wrapImageBuffer: buffer is null."
  | some buffer => do
      requireThat (buffer.isUint8 = true) "wrapImageBuffer: buffer shall be UINT8."
      requireThat (width > 0 ∧ height > 0 ∧ frames > 0)
        "wrapImageBuffer: dimensions shall be positive."
      requireThat (layout.format ≠ .kNV12BL)
        "wrapImageBuffer: kNV12BL addresses no buffer; wrap its texture planes with wrapImageTexture."
      requireThat (buffer.kernelAddressable = true)
        "wrapImageBuffer: a host buffer shall be page-locked and mapped; allocate it with cudaMallocHost or register it with cudaHostRegister and cudaHostRegisterMapped."
      requireThat (layout.format = .kNV12PL → namesColors layout)
        "wrapImageBuffer: kNV12PL requires an explicit colour standard and range."
      requireThat (layout.format ≠ .kNV12PL → isPacked layout width height frames)
        "wrapImageBuffer: kRGB8 shall be tightly packed (plane offset 0, pitch 3 * width, frame stride height * 3 * width); pitched RGB is not supported."
      (planes layout.format).forM (checkPlane layout width height frames)
      let lastByte := layoutAddressedBytes layout width height frames
      requireThat (lastByte ≤ buffer.memoryCapacity)
        ("wrapImageBuffer: layout addresses " ++ toString lastByte ++
          " bytes but the buffer holds " ++ toString buffer.memoryCapacity ++ ".")
      pure { buffer := some buffer, layout, width, height, frames }

/-! ## Resizing -/

/-- The tensor that takes the result. -/
structure Destination where
  onGpu : Bool
  isHalf : Bool
  ownMemory : Bool
  memoryCapacity : Int64

/-- `Tensor::reshape` to `[numFrames, outHeight, outWidth, 3]` of two bytes each. -/
def Destination.reshape (dst : Destination) (numFrames outHeight outWidth : Int64) : Bool :=
  dst.ownMemory && decide (1 * numFrames * outHeight * outWidth * 3 * 2 ≤ dst.memoryCapacity)

def intMax : Int64 := 2147483647

/-- What the 32-bit addressing of the source is checked by. -/
def srcBound (image : ImageData) : Int64 :=
  if image.layout.format = .kNV12BL then max image.width image.height
  else max (image.height * image.layout.pitchBytes 0) (image.layout.pitchBytes 1)

def isAddressable (image : ImageData) (outHeight outWidth : Int64) : Prop :=
  outHeight * outWidth * 3 ≤ intMax ∧ srcBound image ≤ intMax ∧ outWidth * 3 ≤ intMax

instance (image : ImageData) (outHeight outWidth : Int64) :
    Decidable (isAddressable image outHeight outWidth) :=
  inferInstanceAs (Decidable (_ ∧ _ ∧ _))

def framesStackVertically (image : ImageData) (numFrames outHeight outWidth : Int64) : Prop :=
  image.layout.format = .kRGB8 ∧
    image.layout.frameStrideBytes 0 = image.height * image.layout.pitchBytes 0 ∧
    numFrames * (outHeight * outWidth * 3) ≤ intMax

instance (image : ImageData) (numFrames outHeight outWidth : Int64) :
    Decidable (framesStackVertically image numFrames outHeight outWidth) :=
  inferInstanceAs (Decidable (_ ∧ _ ∧ _))

def batchSize (image : ImageData) (numFrames outHeight outWidth : Int64) : Int64 :=
  if framesStackVertically image numFrames outHeight outWidth then numFrames else 1

/-- The arguments of `batchedPreprocessImage` that its addresses depend on. -/
structure KernelArgs where
  format : ImageFormat
  plane : Fin 2 → Int64
  inputWidth : Int32
  stride : Fin 2 → Int32
  inputHeight : Int32
  inputBatch : Int32
  outWidth : Int32
  outStride : Int32
  outHeight : Int32

def launch (image : ImageData) (firstFrame batch outHeight outWidth t : Int64) : KernelArgs :=
  { format := image.layout.format
    plane := fun p =>
      image.layout.planeOffsetBytes p + (firstFrame + t) * image.layout.frameStrideBytes p
    inputWidth := image.width.toInt32
    stride := fun p => (image.layout.pitchBytes p).toInt32
    inputHeight := image.height.toInt32
    inputBatch := batch.toInt32
    outWidth := outWidth.toInt32
    outStride := (outWidth * 3).toInt32
    outHeight := outHeight.toInt32 }

/-- The launching loop, `fuel` of its rounds. -/
def launches (image : ImageData) (firstFrame numFrames batch outHeight outWidth : Int64) :
    Nat → Int64 → List KernelArgs
  | 0, _ => []
  | fuel + 1, t =>
    if t < numFrames then
      launch image firstFrame batch outHeight outWidth t ::
        launches image firstFrame numFrames batch outHeight outWidth fuel (t + batch)
    else []

def checkPitch (image : ImageData) (plane : Fin 2) : Except String Unit :=
  let validRowBytes := (planeExtent image.layout.format image.width image.height plane).validRowBytes
  requireThat (image.layout.pitchBytes plane ≥ validRowBytes)
    ("resizeAndNormalizeToRgb: plane " ++ toString plane.val ++ " pitch " ++
      toString (image.layout.pitchBytes plane) ++ " is below its valid row width " ++
      toString validRowBytes ++ ".")

/-- The part of the checks that a kNV12BL image is not subject to. -/
def checkReach (image : ImageData) (buffer : Buffer) (lastFrame : Int64) : Except String Unit := do
  (planes image.layout.format).forM (checkPitch image)
  let lastByte := layoutAddressedBytes image.layout image.width image.height lastFrame
  requireThat (lastByte ≤ buffer.memoryCapacity)
    ("resizeAndNormalizeToRgb: the layout reaches " ++ toString lastByte ++
      " bytes but the buffer holds " ++ toString buffer.memoryCapacity ++ ".")

/-- The checks before the frame range. -/
def checkSource (image : ImageData) : Except String Unit :=
  if image.layout.format = .kNV12BL then
    requireThat (image.textures 0 ≠ 0 ∧ image.textures 1 ≠ 0)
      "resizeAndNormalizeToRgb: a kNV12BL image carries no texture planes; wrap it with wrapImageTexture."
  else
    requireThat (image.buffer.isSome = true) "resizeAndNormalizeToRgb: image buffer is null."

def checkFrames (image : ImageData) (firstFrame numFrames : Int64) : Except String Unit :=
  requireThat (firstFrame ≥ 0 ∧ numFrames > 0 ∧ firstFrame + numFrames ≤ image.frames)
    ("resizeAndNormalizeToRgb: frames [" ++ toString firstFrame ++ ", " ++
      toString (firstFrame + numFrames) ++ ") lie outside the " ++ toString image.frames ++
      " the image holds.")

def checkBuffer (image : ImageData) (lastFrame : Int64) : Except String Unit :=
  if image.layout.format = .kNV12BL then pure ()
  else
    match image.buffer with
    | none => pure ()
    | some buffer => checkReach image buffer lastFrame

/-- The kernel launches; `stdNonzero` tells whether every component of `std` is. -/
def resizeAndNormalizeToRgb (image : ImageData) (firstFrame numFrames : Int64)
    (stdNonzero : Bool) (dst : Destination) (outHeight outWidth : Int64) :
    Except String (List KernelArgs) := do
  checkSource image
  checkFrames image firstFrame numFrames
  requireThat (image.height > 0 ∧ image.width > 0 ∧ outHeight > 0 ∧ outWidth > 0)
    "resizeAndNormalizeToRgb: frame dimensions shall be positive."
  checkBuffer image (firstFrame + numFrames)
  requireThat (stdNonzero = true)
    "resizeAndNormalizeToRgb: every std component shall be non-zero."
  requireThat (dst.onGpu = true) "resizeAndNormalizeToRgb: destination shall be on the GPU."
  requireThat (dst.isHalf = true) "resizeAndNormalizeToRgb: destination shall be HALF."
  requireThat (dst.reshape numFrames outHeight outWidth = true)
    ("resizeAndNormalizeToRgb: destination too small for " ++ toString numFrames ++
      " frames of " ++ toString outHeight ++ "x" ++ toString outWidth ++ " RGB.")
  requireThat (isAddressable image outHeight outWidth)
    ("resizeAndNormalizeToRgb: a frame of " ++ toString image.height ++ "x" ++
      toString image.width ++ " to " ++ toString outHeight ++ "x" ++ toString outWidth ++
      " exceeds the kernel's 32-bit addressing.")
  requireThat (image.layout.format ≠ .kRGB8 → namesColors image.layout)
    "resizeAndNormalizeToRgb: a YUV source shall name a colour standard and range."
  let batch := batchSize image numFrames outHeight outWidth
  pure (launches image firstFrame numFrames batch outHeight outWidth numFrames.toInt.toNat 0)

/-! ## The kernel's addresses -/

def limit (value low high : Int32) : Int32 :=
  if value < low then low else if value > high then high else value

/-- Rows and columns of a plane as the kernel has them. -/
def kernelExtent (size : Int32) (plane : Fin 2) : Int32 :=
  if plane = 0 then size else (size + 1) / 2

/-- Bytes of one sample. -/
def pixelBytes (format : ImageFormat) (plane : Fin 2) : Int64 :=
  if plane = 0 then if format = .kRGB8 then 3 else 1 else 2

/-- The row index that a tap of batch entry `ib` is loaded from. -/
def KernelArgs.sampleRow (args : KernelArgs) (plane : Fin 2) (ib row : Int32) : Int32 :=
  let srcHeight := kernelExtent args.inputHeight plane
  limit row 0 (srcHeight - 1) + ib * srcHeight

def KernelArgs.sampleColumn (args : KernelArgs) (plane : Fin 2) (column : Int32) : Int32 :=
  limit column 0 (kernelExtent args.inputWidth plane - 1)

/-- Where the sample loads of the kernel read. -/
def KernelArgs.sampleAddress (args : KernelArgs) (plane : Fin 2) (ib row column : Int32) : Int64 :=
  args.plane plane + (args.sampleRow plane ib row).toInt64 * (args.stride plane).toInt64 +
    (args.sampleColumn plane column).toInt64 * pixelBytes args.format plane

/-- Which element of the destination the kernel writes a pixel at. -/
def KernelArgs.outIndex (args : KernelArgs) (ib x y : Int32) : Int32 :=
  (ib * args.outHeight + y) * args.outStride + x * 3

end EdgeLLM.Ports.ImageBuffer
