import EdgeLLM.Verified.SelfDelimiting
import Mathlib.Algebra.Order.Ring.Nat

/-!
# Block keys of the context cache

`hashBlock` gives a block of tokens its identity: it feeds the parent's hash, the
tokens or the media digests that stand for them, and the other inputs of the
block to a 128-bit FNV-1a.  A writer of the source is modelled by the bytes that it
feeds.

A list is a pointer that is not null together with its count; that a count is a
`size_t` is kept where the count is written.
-/

namespace EdgeLLM.Ports.BlockKey

open Verified

abbrev Byte := BitVec 8

/-- Two-word representation used for stable context-cache identities. -/
structure Hash128 where
  hi : BitVec 64 := 0
  lo : BitVec 64 := 0
  deriving DecidableEq

abbrev BlockHash := Hash128

structure FnvValue where
  hi : BitVec 64
  lo : BitVec 64

def kFNV_OFFSET : FnvValue := ⟨0x6C62272E07BB0142, 0x62B821756295C58D⟩

/-- The byte into the low word, then the product with 2^88 + 0x13B modulo 2^128. -/
def fnvByte (state : FnvValue) (value : Byte) : FnvValue :=
  let lo := state.lo ^^^ value.setWidth 64
  let lowLow := (lo.setWidth 32).setWidth 64 * 0x13B
  let lowHigh := (lo >>> 32) * 0x13B
  let productLow := lowLow + (lowHigh <<< 32)
  let carry := (lowHigh >>> 32) + (if productLow < lowLow then 1 else 0)
  ⟨state.hi * 0x13B + carry + (lo <<< 24), productLow⟩

def finishHash (state : FnvValue) : BlockHash := ⟨state.hi, state.lo⟩

/-! ## Writers -/

inductive Tag where
  | kParent
  | kTokens
  | kMedia
  | kMediaEntry
  | kMediaContentDigest
  | kMediaPlacementDigest
  | kMediaOffset
  | kMediaItemOrder
  | kMediaModality
  | kAdapter
  | kAdapterId
  | kAdapterGeneration
  | kPositionDigest
  | kCustomEmbeddingDigest
  | kIsolationDigest
  | kAbsent
  | kPresent
  | kOpaqueIdentity
  | kMediaToken

/-- The tags are numbered from one. -/
def Tag.byte (tag : Tag) : Byte := BitVec.ofNat 8 (tag.ctorIdx + 1)

def fnvTag (tag : Tag) : List Byte := [tag.byte]

/-- Fixed little-endian serialization: `count` bytes, the lowest first. -/
def littleEndian {w : Nat} (count : Nat) (value : BitVec w) : List Byte :=
  (List.range count).map fun index => (value >>> (8 * index)).setWidth 8

def fnvU32 (value : BitVec 32) : List Byte := littleEndian 4 value

/-- An `int32_t` has the bytes of its `uint32_t`. -/
def fnvI32 (value : BitVec 32) : List Byte := fnvU32 value

def fnvU64 (value : BitVec 64) : List Byte := littleEndian 8 value

/-- A `size_t`. -/
def fnvCount (count : Nat) : List Byte := fnvU64 (BitVec.ofNat 64 count)

def fnvHash (hash : Hash128) : List Byte := fnvU64 hash.hi ++ fnvU64 hash.lo

def fnvPresence (present : Bool) : List Byte := fnvTag (if present then .kPresent else .kAbsent)

/-- A presence marker and, if it says so, a value. -/
def fnvOptional {α : Type} (write : α → List Byte) : Option α → List Byte
  | none => fnvPresence false
  | some value => fnvPresence true ++ write value

def fnvOptionalHash (tag : Tag) (hash : Option Hash128) : List Byte :=
  fnvTag tag ++ fnvOptional fnvHash hash

/-! ## Blocks -/

structure AdapterKey where
  id : Hash128
  generation : BitVec 64

structure MediaSpanKey where
  contentDigest : Hash128
  placementDigest : Hash128
  offsetWithinBlock : BitVec 32
  itemOrder : BitVec 32
  modality : Byte

structure BlockKeyExtras where
  media : List MediaSpanKey := []
  adapter : Option AdapterKey := none
  positionDigest : Option Hash128 := none
  customEmbeddingDigest : Option Hash128 := none
  isolationDigest : Option Hash128 := none

/-- What stands at a position of a block: the digest of its media or its token id. -/
inductive Entry where
  | media (digest : Hash128)
  | token (id : BitVec 32)

/-- A zero hash means "use the token ID", and so does a null pointer. -/
def mediaDigest (perPositionMediaHash : Option (Nat → Hash128)) (index : Nat) : Option Hash128 :=
  match perPositionMediaHash with
  | none => none
  | some hashes => if hashes index ≠ {} then some (hashes index) else none

def entryAt (perPositionMediaHash : Option (Nat → Hash128)) (index : Nat) (token : BitVec 32) :
    Entry :=
  match mediaDigest perPositionMediaHash index with
  | some digest => .media digest
  | none => .token token

def entries (tokens : List (BitVec 32)) (perPositionMediaHash : Option (Nat → Hash128)) :
    List Entry :=
  tokens.mapIdx fun index token => entryAt perPositionMediaHash index token

def Entry.bytes : Entry → List Byte
  | .media digest => fnvTag .kMediaToken ++ fnvHash digest
  | .token id => fnvI32 id

def MediaSpanKey.bytes (media : MediaSpanKey) : List Byte :=
  fnvTag .kMediaEntry ++
    (fnvTag .kMediaContentDigest ++ fnvHash media.contentDigest) ++
    (fnvTag .kMediaPlacementDigest ++ fnvHash media.placementDigest) ++
    (fnvTag .kMediaOffset ++ fnvI32 media.offsetWithinBlock) ++
    (fnvTag .kMediaItemOrder ++ fnvI32 media.itemOrder) ++
    (fnvTag .kMediaModality ++ [media.modality])

def AdapterKey.bytes (adapter : AdapterKey) : List Byte :=
  (fnvTag .kAdapterId ++ fnvHash adapter.id) ++
    (fnvTag .kAdapterGeneration ++ fnvU64 adapter.generation)

def BlockKeyExtras.bytes (extras : BlockKeyExtras) : List Byte :=
  (fnvTag .kMedia ++ (fnvCount extras.media.length ++ extras.media.flatMap MediaSpanKey.bytes)) ++
    (fnvTag .kAdapter ++ fnvOptional AdapterKey.bytes extras.adapter) ++
    fnvOptionalHash .kPositionDigest extras.positionDigest ++
    fnvOptionalHash .kCustomEmbeddingDigest extras.customEmbeddingDigest ++
    fnvOptionalHash .kIsolationDigest extras.isolationDigest

/-- What `hashBlock` feeds to the hash. -/
def blockBytes (parent : BlockHash) (tokens : List (BitVec 32)) (extras : BlockKeyExtras)
    (perPositionMediaHash : Option (Nat → Hash128)) : List Byte :=
  (fnvTag .kParent ++ fnvHash parent) ++
    (fnvTag .kTokens ++ (fnvCount tokens.length ++
      (entries tokens perPositionMediaHash).flatMap Entry.bytes)) ++
    extras.bytes

def hashBlock (parent : BlockHash) (tokens : List (BitVec 32)) (extras : BlockKeyExtras)
    (perPositionMediaHash : Option (Nat → Hash128)) : BlockHash :=
  finishHash ((blockBytes parent tokens extras perPositionMediaHash).foldl fnvByte kFNV_OFFSET)

end EdgeLLM.Ports.BlockKey
