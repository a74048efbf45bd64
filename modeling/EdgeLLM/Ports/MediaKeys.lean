import EdgeLLM.Ports.BlockHash
import EdgeLLM.Verified.Checked
import Mathlib.Data.Nat.Digits.Defs

/-!
# Media keys

`buildPerPositionMediaHash` gives every media placeholder of a prompt a key that
stands for it in the block hash: the hash of the buffer its run belongs to.  A run
is closed when the token changes, and the number of closed runs of a modality is
the index of the buffer.

`hashOpaqueIdentity` is an argument.  An image is one the host can read (packed RGB).
-/

namespace EdgeLLM.Ports.MediaKeys

open Verified
open BlockKey

/-- The bytes of a character string. -/
def text (s : String) : List Byte := s.toList.map fun c => BitVec.ofNat 8 c.toNat

/-- The decimal digits of a natural number, the highest first. -/
def digits (n : Nat) : List Byte :=
  if n = 0 then text "0" else (Nat.digits 10 n).reverse.map fun d => BitVec.ofNat 8 (48 + d)

def to_string (value : Int) : List Byte :=
  if value < 0 then text "-" ++ digits value.natAbs else digits value.natAbs

/-! ## Buffers -/

structure ImageData where
  /-- The bytes that the packed layout addresses, over all frames. -/
  pixels : List Byte
  width : Int
  height : Int
  frames : Int
  /-- The representation of the double. -/
  fps : BitVec 64
  doResize : Bool
  isVideo : Bool
deriving DecidableEq

structure AudioData where
  /-- The representations of the samples. -/
  pcm : Option (List (BitVec 32))
  melSpectrogramPath : List Byte

/-- The samples of a clip that holds some. -/
def AudioData.samples? (audio : AudioData) : Option (List (BitVec 32)) :=
  audio.pcm.filter (· ≠ [])

section Hash

variable (hashOpaqueIdentity : List Byte → Hash128)

/-- Pixels, geometry, modality and frame rate of an image. -/
def imageIdentity (image : ImageData) : List Byte :=
  fnvHash (hashOpaqueIdentity image.pixels) ++ (text "|" ++ to_string image.width ++ text "x" ++
    to_string image.height ++ text "x" ++ to_string image.frames ++
    (if image.isVideo then text "|video" else text "|image") ++
    (if image.doResize then text "|r|" else text "|n|")) ++ fnvU64 image.fps

def imageHash (image : ImageData) : Hash128 :=
  hashOpaqueIdentity (imageIdentity hashOpaqueIdentity image)

/-- The bytes a clip is keyed on: its samples, else the path of its spectrogram. -/
def audioIdentity (audio : AudioData) : List Byte :=
  match audio.samples? with
  | some samples => samples.flatMap fnvU32
  | none => audio.melSpectrogramPath

def audioHash (audio : AudioData) : Hash128 := hashOpaqueIdentity (audioIdentity audio)

/-- The digests of all images, one after the other. -/
def imageDigests (images : List ImageData) : List Byte :=
  (images.map (imageHash hashOpaqueIdentity)).flatMap fnvHash

/-! ## Keys by position -/

def isMediaToken (tokenId : BitVec 32) (mediaTokenIds : List (BitVec 32)) : Bool :=
  mediaTokenIds.contains tokenId

/-- How often an image placeholder follows something else. -/
def imageRuns (tokenIds : List (BitVec 32)) (imageTokenId : BitVec 32) : Nat :=
  (List.range tokenIds.length).countP fun i =>
    tokenIds[i]? == some imageTokenId && (i == 0 || tokenIds[i - 1]? != some imageTokenId)

/-- A video has a run for each temporal group; with more runs than buffers, all images together
are the key of every image position. -/
def combinesImages (tokenIds : List (BitVec 32)) (imageTokenId : BitVec 32)
    (images : List ImageData) (allowCombinedImageKey : Bool) : Bool :=
  allowCombinedImageKey && !images.isEmpty &&
    decide (images.length < imageRuns tokenIds imageTokenId)

/-- The placeholder that no buffer is left for, and how many there were. -/
inductive MediaCheck where
  | imageCount (position provided : Nat)
  | audioCount (position provided : Nat)

structure Scan where
  imageIdx : Nat := 0
  audioIdx : Nat := 0
  previousWasMedia : Bool := false
  previousMediaTokenId : BitVec 32 := -1

/-- What the loop reads besides the tokens. -/
structure KeyTable where
  mediaTokenIds : List (BitVec 32)
  imageHashes : List Hash128
  audioHashes : List Hash128
  combinedImageHash : Option Hash128

namespace KeyTable

variable (table : KeyTable)

def imageTokenId : BitVec 32 := table.mediaTokenIds.getD 0 (-1)

def audioTokenId : BitVec 32 := table.mediaTokenIds.getD 1 (-1)

/-- Close out the run of the previous modality. -/
def closeRun (scan : Scan) : Scan :=
  if scan.previousMediaTokenId = table.imageTokenId then { scan with imageIdx := scan.imageIdx + 1 }
  else if scan.previousMediaTokenId = table.audioTokenId then
    { scan with audioIdx := scan.audioIdx + 1 }
  else scan

/-- The indices when a token is reached: a run before it that it does not continue is closed. -/
def enter (scan : Scan) (token : BitVec 32) : Scan :=
  if isMediaToken token table.mediaTokenIds then
    if scan.previousWasMedia = true ∧ token ≠ scan.previousMediaTokenId then table.closeRun scan
    else scan
  else if scan.previousWasMedia = true then table.closeRun scan
  else scan

/-- The key of a token at the indices it is reached with. -/
def key (scan : Scan) (position : Nat) (token : BitVec 32) : Except MediaCheck Hash128 :=
  if isMediaToken token table.mediaTokenIds then
    if token = table.imageTokenId then
      match table.combinedImageHash with
      | some combined => .ok combined
      | none =>
        match table.imageHashes[scan.imageIdx]? with
        | some hash => .ok hash
        | none => .error (.imageCount position table.imageHashes.length)
    else if token = table.audioTokenId then
      match table.audioHashes[scan.audioIdx]? with
      | some hash => .ok hash
      | none => .error (.audioCount position table.audioHashes.length)
    else .ok {}
  else .ok {}

def leave (scan : Scan) (token : BitVec 32) : Scan :=
  if isMediaToken token table.mediaTokenIds then
    { scan with previousWasMedia := true, previousMediaTokenId := token }
  else { scan with previousWasMedia := false, previousMediaTokenId := -1 }

/-- The loop from a position on. -/
def keysFrom (scan : Scan) (position : Nat) : List (BitVec 32) → Except MediaCheck (List Hash128)
  | [] => .ok []
  | token :: rest => do
      let entered := table.enter scan token
      let hash ← table.key entered position token
      let hashes ← keysFrom (table.leave entered token) (position + 1) rest
      .ok (hash :: hashes)

end KeyTable

def keyTable (tokenIds mediaTokenIds : List (BitVec 32)) (imageBuffers : List ImageData)
    (audioBuffers : List AudioData) (allowCombinedImageKey : Bool) : KeyTable where
  mediaTokenIds := mediaTokenIds
  imageHashes := imageBuffers.map (imageHash hashOpaqueIdentity)
  audioHashes := audioBuffers.map (audioHash hashOpaqueIdentity)
  combinedImageHash :=
    if combinesImages tokenIds (mediaTokenIds.getD 0 (-1)) imageBuffers allowCombinedImageKey then
      some (hashOpaqueIdentity (imageDigests hashOpaqueIdentity imageBuffers))
    else none

def buildPerPositionMediaHash (tokenIds mediaTokenIds : List (BitVec 32))
    (imageBuffers : List ImageData) (audioBuffers : List AudioData) (allowCombinedImageKey : Bool) :
    Except MediaCheck (List Hash128) :=
  if mediaTokenIds = [] then .ok []
  else do
    let perPositionHash ← (keyTable hashOpaqueIdentity tokenIds mediaTokenIds imageBuffers
      audioBuffers allowCombinedImageKey).keysFrom {} 0 tokenIds
    -- no media at all is the empty vector
    .ok (if perPositionHash.any (· ≠ {}) then perPositionHash else [])

end Hash

end EdgeLLM.Ports.MediaKeys
