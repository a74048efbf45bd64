import EdgeLLM.Verified.Checked
import EdgeLLM.Verified.Probing
import EdgeLLM.Verified.Tables

/-!
# Identity scratch tables

`IdentitySetScratch` tells a ragged batch builder whether an identity came
before in the same step: an open-addressing table that `clear` empties by
counting a 32-bit generation up, so that entries of earlier steps stay in the
table and count as free.

`size_t` and the hash are 64-bit words that wrap.  A loop takes `fuel`; a loop
that has not ended when it runs out is `none`.
-/

namespace EdgeLLM.Ports.IdentityScratch

open Verified

structure IdentitySetScratch where
  mKeys : List UInt64 := []
  mGenerations : List UInt32 := []
  mGeneration : UInt32 := 0
  mMask : UInt64 := 0

/-! ## The operations -/

/-- The doubling loop of `reserve`. -/
def doubleTo (needed : UInt64) : Nat → UInt64 → Option UInt64
  | 0, _ => none
  | fuel + 1, tableSize =>
    if tableSize < needed then doubleTo needed fuel (tableSize * 2) else some tableSize

/-- `std::vector::resize`, to more entries. -/
def resize (keys : List UInt64) (size : Nat) : List UInt64 :=
  keys ++ List.replicate (size - keys.length) 0

def IdentitySetScratch.reserve (fuel : Nat) (s : IdentitySetScratch) (maxItems : UInt64) :
    Option IdentitySetScratch :=
  (doubleTo (maxItems * 2) fuel 1).map fun tableSize =>
    if s.mKeys.length ≥ tableSize.toNat then s
    else
      { mKeys := resize s.mKeys tableSize.toNat
        mGenerations := List.replicate tableSize.toNat 0
        mGeneration := 1
        mMask := tableSize - 1 }

def IdentitySetScratch.clear (s : IdentitySetScratch) : IdentitySetScratch :=
  if s.mGeneration + 1 = 0 then
    { s with
      mGenerations := s.mGenerations.map fun _ => 0
      mGeneration := 1 }
  else { s with mGeneration := s.mGeneration + 1 }

/-- The finalizer of SplitMix64. -/
def identityHash (value : UInt64) : UInt64 :=
  let hash := value + 0x9E3779B97F4A7C15
  let hash := (hash ^^^ (hash >>> 30)) * 0xBF58476D1CE4E5B9
  let hash := (hash ^^^ (hash >>> 27)) * 0x94D049BB133111EB
  hash ^^^ (hash >>> 31)

/-- Where the probe loop of `insert` ends. -/
inductive ProbeEnd where
  | present
  | vacant (index : UInt64)

def IdentitySetScratch.probe (s : IdentitySetScratch) (value : UInt64) :
    Nat → UInt64 → Option ProbeEnd
  | 0, _ => none
  | fuel + 1, index =>
    if s.mGenerations.getD index.toNat 0 = s.mGeneration then
      if s.mKeys.getD index.toNat 0 = value then some .present
      else s.probe value fuel ((index + 1) &&& s.mMask)
    else some (.vacant index)

def IdentitySetScratch.settle (s : IdentitySetScratch) (value : UInt64) :
    ProbeEnd → Bool × IdentitySetScratch
  | .present => (false, s)
  | .vacant index =>
    (true,
      { s with
        mKeys := s.mKeys.set index.toNat value
        mGenerations := s.mGenerations.set index.toNat s.mGeneration })

def IdentitySetScratch.insert (fuel : Nat) (s : IdentitySetScratch) (value : UInt64) :
    Except String (Option (Bool × IdentitySetScratch)) := do
  requireThat (s.mKeys ≠ []) "identity scratch table is not reserved"
  pure ((s.probe value fuel (identityHash value &&& s.mMask)).map (s.settle value))

inductive Call where
  | reserve (maxItems : UInt64)
  | clear
  | insert (value : UInt64)

/-- One call, with what an `insert` returns. -/
def IdentitySetScratch.call (fuel : Nat) (s : IdentitySetScratch) :
    Call → Except String (Option (List Bool × IdentitySetScratch))
  | .reserve maxItems => pure ((s.reserve fuel maxItems).map fun s' => ([], s'))
  | .clear => pure (some ([], s.clear))
  | .insert value => do
      let inserted ← s.insert fuel value
      pure (inserted.map fun r => ([r.1], r.2))

/-- What the `insert`s of a run return; `none` for a run that is stuck in a loop. -/
def IdentitySetScratch.run (fuel : Nat) :
    IdentitySetScratch → List Call → Except String (Option (List Bool))
  | _, [] => pure (some [])
  | s, c :: calls => do
      let step ← s.call fuel c
      match step with
      | none => pure none
      | some (answers, s') => do
          let rest ← IdentitySetScratch.run fuel s' calls
          pure (rest.map (answers ++ ·))

/-! ## The set it stands for -/

/-- The values inserted since the last `clear`, and how many a table is
reserved for.  A `reserve` for more loses the members, so that they are unknown
until the next `clear`. -/
structure ReservedSet where
  maxItems : Nat := 0
  members : Option (Finset UInt64) := some ∅

def ReservedSet.reserve (a : ReservedSet) (maxItems : Nat) : ReservedSet :=
  if maxItems ≤ a.maxItems then a
  else { maxItems := maxItems, members := if a.members = some ∅ then some ∅ else none }

def ReservedSet.clear (a : ReservedSet) : ReservedSet := { a with members := some ∅ }

def ReservedSet.after (a : ReservedSet) : Call → ReservedSet
  | .reserve maxItems => a.reserve maxItems.toNat
  | .clear => a.clear
  | .insert value => { a with members := a.members.map (insert value) }

def ReservedSet.answer (a : ReservedSet) : Call → List Bool
  | .insert value => [decide (value ∉ a.members.getD ∅)]
  | _ => []

/-- What a caller keeps to: no table for more than `limit` items, no `insert`
between a `reserve` for more and the next `clear`, and no more values than the
table is reserved for. -/
def ReservedSet.Allows (limit : Nat) (a : ReservedSet) : Call → Prop
  | .reserve maxItems => maxItems.toNat ≤ limit
  | .clear => True
  | .insert value => ∃ members ∈ a.members, (insert value members).card ≤ a.maxItems

instance (limit : Nat) (a : ReservedSet) (c : Call) : Decidable (a.Allows limit c) :=
  match c with
  | .reserve maxItems => inferInstanceAs (Decidable (maxItems.toNat ≤ limit))
  | .clear => inferInstanceAs (Decidable True)
  | .insert value => inferInstanceAs
      (Decidable (∃ members ∈ a.members, (insert value members).card ≤ a.maxItems))

def ReservedSet.Keeps (limit : Nat) : ReservedSet → List Call → Prop
  | _, [] => True
  | a, c :: calls => a.Allows limit c ∧ ReservedSet.Keeps limit (a.after c) calls

instance instDecidableKeeps (limit : Nat) :
    (a : ReservedSet) → (calls : List Call) → Decidable (a.Keeps limit calls)
  | _, [] => inferInstanceAs (Decidable True)
  | a, c :: calls =>
    haveI := instDecidableKeeps limit (a.after c) calls
    inferInstanceAs (Decidable (a.Allows limit c ∧ (a.after c).Keeps limit calls))

def ReservedSet.answers : ReservedSet → List Call → List Bool
  | _, [] => []
  | a, c :: calls => a.answer c ++ ReservedSet.answers (a.after c) calls

end EdgeLLM.Ports.IdentityScratch
