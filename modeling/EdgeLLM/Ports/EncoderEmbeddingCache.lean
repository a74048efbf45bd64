import EdgeLLM.Verified.Checked
import EdgeLLM.Verified.Tally
import Mathlib.Algebra.Order.BigOperators.Group.List
import Mathlib.Algebra.Order.Ring.Int
import Mathlib.Data.List.MinMax

/-!
# The encoder embedding cache

`EncoderEmbeddingCache` keeps what the encoders put out under the content hash of the
media item, within a budget of device memory: an item that does not fit evicts the
least recently used ones.

The clock, the iteration order of the map and the outcome of an allocation come from
outside.  The contents of the tensors are not modelled.
-/

namespace EdgeLLM.Ports.EncoderCache

open Verified

/-- A tensor; `typeSize` is the `getTypeSize` of its type. -/
structure Tensor where
  onGpu : Bool := true
  typeSize : Nat
  shape : List Int

namespace Tensor

def rows (t : Tensor) : Int := t.shape.getD 0 0

def width (t : Tensor) : Int := t.shape.getD 1 0

/-- Of a tensor that the cache has allocated. -/
def getMemoryCapacity (t : Tensor) : Int := t.shape.prod * t.typeSize

end Tensor

structure EncoderEmbeddingCacheEntry where
  embedding : Tensor
  features : List Tensor
  lastAccess : Nat

def EncoderEmbeddingCacheEntry.bytes (entry : EncoderEmbeddingCacheEntry) : Int :=
  entry.embedding.getMemoryCapacity + (entry.features.map Tensor.getMemoryCapacity).sum

/-- The arguments of `storeSlice` that describe the item. -/
structure Slice where
  hasData : Bool := true
  numTokens : Int
  hiddenSize : Int
  typeSize : Nat
  features : List Tensor := []
  tokenOffset : Int := 0

namespace Slice

def check (slice : Slice) : Except String Unit := do
  requireThat (slice.hasData = true ∧ 0 < slice.numTokens ∧ 0 < slice.hiddenSize ∧
    0 ≤ slice.tokenOffset) "Invalid encoder cache slice"
  slice.features.forM fun t => requireThat (t.onGpu = true ∧ t.shape.length = 2 ∧ 0 < t.width ∧
    slice.tokenOffset ≤ t.rows ∧ slice.numTokens ≤ t.rows - slice.tokenOffset)
    "Invalid encoder cache feature slice"

def entryBytes (slice : Slice) : Int :=
  slice.numTokens * slice.hiddenSize * slice.typeSize +
    (slice.features.map fun t => slice.numTokens * t.width * t.typeSize).sum

/-- The copy that is kept. -/
def entry (slice : Slice) (now : Nat) : EncoderEmbeddingCacheEntry where
  embedding := { typeSize := slice.typeSize, shape := [slice.numTokens, slice.hiddenSize] }
  features := slice.features.map fun t =>
    { typeSize := t.typeSize, shape := [slice.numTokens, t.width] }
  lastAccess := now

theorem bytes_entry (slice : Slice) (now : Nat) : (slice.entry now).bytes = slice.entryBytes := by
  simp [EncoderEmbeddingCacheEntry.bytes, entry, entryBytes, Tensor.getMemoryCapacity,
    Function.comp_def]

theorem entryBytes_nonneg {slice : Slice} {u : Unit} (h : slice.check = .ok u) :
    0 ≤ slice.entryBytes := by
  rw [check, check_bind_eq_ok, requireThat_eq_ok, forM_eq_ok] at h
  obtain ⟨⟨-, htokens, hhidden, -⟩, hfeatures⟩ := h
  have hproduct : ∀ (width : Int) (typeSize : Nat), 0 < width →
      0 ≤ slice.numTokens * width * typeSize := fun width typeSize hwidth =>
    Int.mul_nonneg (Int.le_of_lt (Int.mul_pos htokens hwidth)) (Int.natCast_nonneg typeSize)
  apply Int.add_nonneg (hproduct _ _ hhidden)
  apply List.sum_nonneg
  intro size hsize
  obtain ⟨t, ht, rfl⟩ := List.mem_map.1 hsize
  exact hproduct _ _ (requireThat_eq_ok.1 (hfeatures t ht)).2.2.1

end Slice

/-- `mEntries`. -/
abbrev Entries (K : Type) := Finmap fun _ : K => EncoderEmbeddingCacheEntry

structure EncoderEmbeddingCache (K : Type) where
  budgetBytes : Int
  usedBytes : Int := 0
  entries : Entries K := ∅

/-- The order in which the map is iterated. -/
structure Iteration (K : Type) [DecidableEq K] where
  list : Entries K → List (K × EncoderEmbeddingCacheEntry)
  mem_list : ∀ entries key entry, (key, entry) ∈ list entries ↔ entries.lookup key = some entry

variable {K : Type} [DecidableEq K]

theorem nonempty_iteration : Nonempty (Iteration K) :=
  ⟨fun entries => entries.entries.toList.map fun e => (e.1, e.2), fun entries key entry => by
    simp [Finmap.lookup_eq_some_iff, Sigma.exists]⟩

namespace EncoderEmbeddingCache

def lookupEntry (cache : EncoderEmbeddingCache K) (key : K) (now : Nat) :
    Option EncoderEmbeddingCacheEntry × EncoderEmbeddingCache K :=
  if cache.budgetBytes ≤ 0 then (none, cache)
  else match cache.entries.lookup key with
    | none => (none, cache)
    | some entry =>
      let touched := { entry with lastAccess := now }
      (some touched, { cache with entries := cache.entries.insert key touched })

def erase (cache : EncoderEmbeddingCache K) (key : K) : EncoderEmbeddingCache K :=
  match cache.entries.lookup key with
  | none => cache
  | some entry =>
    { cache with usedBytes := cache.usedBytes - entry.bytes, entries := cache.entries.erase key }

/-- The loop of `evictUntilFits`. -/
def evictLoop (order : Iteration K) (requiredBytes : Int) :
    Nat → EncoderEmbeddingCache K → EncoderEmbeddingCache K
  | 0, cache => cache
  | turns + 1, cache =>
    if cache.usedBytes + requiredBytes ≤ cache.budgetBytes then cache
    else match (order.list cache.entries).argmin fun e => e.2.lastAccess with
      | none => cache
      | some oldest => evictLoop order requiredBytes turns (cache.erase oldest.1)

def evictUntilFits (order : Iteration K) (cache : EncoderEmbeddingCache K) (requiredBytes : Int) :
    EncoderEmbeddingCache K :=
  evictLoop order requiredBytes cache.entries.keys.card cache

def storeSlice (order : Iteration K) (cache : EncoderEmbeddingCache K) (key : K) (slice : Slice)
    (now : Nat) (allocated : Bool) : Except String Unit × EncoderEmbeddingCache K :=
  if cache.budgetBytes ≤ 0 ∨ slice.numTokens = 0 then (.ok (), cache)
  else if (cache.entries.lookup key).isSome then (.ok (), (cache.lookupEntry key now).2)
  else match slice.check with
    | .error e => (.error e, cache)
    | .ok _ =>
      if cache.budgetBytes < slice.entryBytes then (.ok (), cache)
      else
        let fitting := cache.evictUntilFits order slice.entryBytes
        if allocated then (.ok (), { fitting with
          usedBytes := fitting.usedBytes + slice.entryBytes
          entries := fitting.entries.insert key (slice.entry now) })
        else (.error "Failed to allocate GPU tensor", fitting)

def clear (cache : EncoderEmbeddingCache K) : EncoderEmbeddingCache K :=
  { cache with usedBytes := 0, entries := ∅ }

/-- A call; `tryRestore` looks entries up and erases one that does not match. -/
inductive Call (K : Type) [DecidableEq K]
  | storeSlice (order : Iteration K) (key : K) (slice : Slice) (now : Nat) (allocated : Bool)
  | lookupEntry (key : K) (now : Nat)
  | erase (key : K)
  | clear

def perform (cache : EncoderEmbeddingCache K) : Call K → EncoderEmbeddingCache K
  | .storeSlice order key slice now allocated =>
    (cache.storeSlice order key slice now allocated).2
  | .lookupEntry key now => (cache.lookupEntry key now).2
  | .erase key => cache.erase key
  | .clear => cache.clear

/-- The calls on a new cache. -/
def run (budgetBytes : Int) (calls : List (Call K)) : EncoderEmbeddingCache K :=
  calls.foldl perform { budgetBytes := budgetBytes }

/-! ## Accounting -/

variable {cache left : EncoderEmbeddingCache K} {key : K}

/-- The bytes in use are those of the entries, within the budget. -/
structure Sound (cache : EncoderEmbeddingCache K) : Prop where
  used : cache.usedBytes = tally EncoderEmbeddingCacheEntry.bytes cache.entries
  within : cache.usedBytes ≤ max 0 cache.budgetBytes
  nonneg : ∀ key entry, cache.entries.lookup key = some entry → 0 ≤ entry.bytes

theorem Sound.lookupEntry (h : cache.Sound) (key : K) (now : Nat) :
    (cache.lookupEntry key now).2.Sound := by
  rw [EncoderEmbeddingCache.lookupEntry]
  split
  · exact h
  · split
    · exact h
    · rename_i entry hentry
      have hreplace := tally_replace (f := EncoderEmbeddingCacheEntry.bytes)
        (w := { entry with lastAccess := now }) hentry
      refine ⟨h.used.trans (add_left_cancel hreplace).symm, h.within, ?_⟩
      intro other found hfound
      rcases lookup_insert_eq_some.1 hfound with ⟨-, rfl⟩ | ⟨-, hother⟩
      · exact h.nonneg key entry hentry
      · exact h.nonneg other found hother

theorem erase_eq {entry : EncoderEmbeddingCacheEntry}
    (hentry : cache.entries.lookup key = some entry) : cache.erase key = { cache with
      usedBytes := cache.usedBytes - entry.bytes, entries := cache.entries.erase key } := by
  rw [EncoderEmbeddingCache.erase, hentry]

theorem Sound.erase (h : cache.Sound) (key : K) : (cache.erase key).Sound := by
  cases hlookup : cache.entries.lookup key with
  | none => rwa [EncoderEmbeddingCache.erase, hlookup]
  | some entry =>
    have hrest := tally_erase (f := EncoderEmbeddingCacheEntry.bytes) hlookup
    have hbytes := h.nonneg key entry hlookup
    have hused := h.used
    have hwithin := h.within
    rw [erase_eq hlookup]
    refine ⟨?_, ?_, ?_⟩
    · dsimp only
      omega
    · dsimp only
      omega
    · intro other found hfound
      exact h.nonneg other found (lookup_erase_eq_some.1 hfound).2

/-! ## Eviction -/

/-- `left` has the most recently used entries of `cache`, as many as leave the bytes. -/
structure Evicts (requiredBytes : Int) (cache left : EncoderEmbeddingCache K) : Prop where
  sound : left.Sound
  budget : left.budgetBytes = cache.budgetBytes
  kept : ∀ key entry, left.entries.lookup key = some entry → cache.entries.lookup key = some entry
  oldest : ∀ key gone other entry, cache.entries.lookup key = some gone →
    left.entries.lookup key = none → left.entries.lookup other = some entry →
      gone.lastAccess ≤ entry.lastAccess
  needed : left = cache ∨ ∃ key last, cache.entries.lookup key = some last ∧
    left.entries.lookup key = none ∧ left.budgetBytes < left.usedBytes + last.bytes + requiredBytes

theorem Sound.evicts_none (h : cache.Sound) (requiredBytes : Int) :
    Evicts requiredBytes cache cache where
  sound := h
  budget := rfl
  kept := fun _ _ h => h
  oldest := by
    intro key gone other entry hgone hnone
    rw [hgone] at hnone
    cases hnone
  needed := Or.inl rfl

theorem entries_eq_empty (h : ∀ key, cache.entries.lookup key = none) : cache.entries = ∅ := by
  apply Finmap.ext_lookup
  intro key
  rw [h, Finmap.lookup_empty]

/-- The loop stops when the item fits or nothing is left. -/
theorem evictLoop_spec (order : Iteration K) (requiredBytes : Int) (turns : Nat)
    (h : cache.Sound) (hturns : cache.entries.keys.card ≤ turns) :
    let left := evictLoop order requiredBytes turns cache
    Evicts requiredBytes cache left ∧
      (left.usedBytes + requiredBytes ≤ left.budgetBytes ∨ left.entries = ∅) := by
  induction turns generalizing cache with
  | zero =>
    have hempty : cache.entries = ∅ := entries_eq_empty fun key => by
      rw [Finmap.lookup_eq_none, ← Finmap.mem_keys, Finset.card_eq_zero.1 (Nat.le_zero.1 hturns)]
      exact Finset.notMem_empty key
    exact ⟨h.evicts_none requiredBytes, Or.inr hempty⟩
  | succ turns ih =>
    rw [evictLoop]
    split
    · rename_i hfits
      exact ⟨h.evicts_none requiredBytes, Or.inl hfits⟩
    · rename_i hfull
      split
      · rename_i hnone
        refine ⟨h.evicts_none requiredBytes, Or.inr (entries_eq_empty fun key => ?_)⟩
        rw [Option.eq_none_iff_forall_ne_some]
        intro entry hentry
        rw [← order.mem_list, List.argmin_eq_none.1 hnone] at hentry
        cases hentry
      · rename_i victim hmin
        have hvictim := (order.mem_list _ _ _).1 (List.argmin_mem hmin)
        have hcard : (cache.erase victim.1).entries.keys.card ≤ turns := by
          have hmem := Finmap.mem_keys.2 (Finmap.mem_of_lookup_eq_some hvictim)
          rw [erase_eq hvictim, Finmap.keys_erase, Finset.card_erase_of_mem hmem]
          omega
        obtain ⟨hrest, hfits⟩ := ih (h.erase victim.1) hcard
        rw [erase_eq hvictim] at hrest hfits ⊢
        refine ⟨⟨hrest.sound, hrest.budget, ?_, ?_, Or.inr ?_⟩, hfits⟩
        · exact fun key entry hkept => (lookup_erase_eq_some.1 (hrest.kept key entry hkept)).2
        · intro key gone other entry hgone hnone hkept
          by_cases hkey : key = victim.1
          · -- the victim is the oldest entry of all
            rw [hkey, hvictim] at hgone
            cases hgone
            have hother := (lookup_erase_eq_some.1 (hrest.kept other entry hkept)).2
            exact List.le_of_mem_argmin (f := fun e : K × EncoderEmbeddingCacheEntry =>
              e.2.lastAccess) ((order.mem_list _ _ _).2 hother) hmin
          · exact hrest.oldest key gone other entry (lookup_erase_eq_some.2 ⟨hkey, hgone⟩) hnone
              hkept
        · rcases hrest.needed with hlast | ⟨key, last, hlookup, hgone, hneeded⟩
          · refine ⟨victim.1, victim.2, hvictim, ?_, ?_⟩
            · rw [hlast, Finmap.lookup_erase]
            · rw [hlast]
              dsimp only
              omega
          · exact ⟨key, last, (lookup_erase_eq_some.1 hlookup).2, hgone, hneeded⟩

/-- Either nothing is evicted and `key` is touched at most, or the item goes in at the price of
the least recently used entries. -/
def Stored (key : K) (slice : Slice) (now : Nat) (allocated : Bool)
    (cache after : EncoderEmbeddingCache K) : Prop :=
  after = cache ∨ after = (cache.lookupEntry key now).2 ∨
    cache.entries.lookup key = none ∧ 0 ≤ slice.entryBytes ∧
      ∃ left, Evicts slice.entryBytes cache left ∧
        left.usedBytes + slice.entryBytes ≤ left.budgetBytes ∧
        after = if allocated then { left with
          usedBytes := left.usedBytes + slice.entryBytes
          entries := left.entries.insert key (slice.entry now) } else left

theorem Sound.stored (order : Iteration K) (h : cache.Sound) (key : K) (slice : Slice)
    (now : Nat) (allocated : Bool) :
    Stored key slice now allocated cache (cache.storeSlice order key slice now allocated).2 := by
  rw [EncoderEmbeddingCache.storeSlice]
  split
  · exact Or.inl rfl
  · split
    · exact Or.inr (Or.inl rfl)
    · rename_i hfresh
      split
      · exact Or.inl rfl
      · rename_i hcheck
        split
        · exact Or.inl rfl
        · rename_i hbudget
          obtain ⟨hevicts, hfits⟩ := evictLoop_spec order slice.entryBytes _ h le_rfl
          refine Or.inr (Or.inr ⟨Option.not_isSome_iff_eq_none.1 hfresh,
            Slice.entryBytes_nonneg hcheck, _, hevicts, ?_, ?_⟩)
          · rcases hfits with hfits | hempty
            · exact hfits
            · rw [hevicts.sound.used, hempty, hevicts.budget]
              exact (zero_add _).trans_le (not_lt.1 hbudget)
          · cases allocated <;> rfl

theorem Evicts.fresh {requiredBytes : Int} (h : Evicts requiredBytes cache left)
    (hfresh : cache.entries.lookup key = none) : left.entries.lookup key = none := by
  rw [Option.eq_none_iff_forall_ne_some]
  intro entry hentry
  rw [h.kept key entry hentry] at hfresh
  cases hfresh

theorem Sound.storeSlice (order : Iteration K) (h : cache.Sound) (key : K) (slice : Slice)
    (now : Nat) (allocated : Bool) : (cache.storeSlice order key slice now allocated).2.Sound := by
  rcases h.stored order key slice now allocated with
    hafter | hafter | ⟨hfresh, hnonneg, left, hevicts, hfits, hafter⟩
  · rwa [hafter]
  · rw [hafter]
    exact h.lookupEntry key now
  · rw [hafter]
    split
    swap
    · exact hevicts.sound
    refine ⟨?_, hfits.trans (le_max_right _ _), ?_⟩
    · dsimp only
      rw [tally_insert (hevicts.fresh hfresh), slice.bytes_entry, hevicts.sound.used]
      exact add_comm _ _
    · intro other entry hentry
      rcases lookup_insert_eq_some.1 hentry with ⟨-, rfl⟩ | ⟨-, hother⟩
      · rwa [slice.bytes_entry]
      · exact hevicts.sound.nonneg other entry hother

theorem Sound.perform (h : cache.Sound) (call : Call K) : (cache.perform call).Sound := by
  cases call with
  | storeSlice order key slice now allocated => exact h.storeSlice order key slice now allocated
  | lookupEntry key now => exact h.lookupEntry key now
  | erase key => exact h.erase key
  | clear => exact ⟨rfl, le_max_left _ _, fun _ _ hlookup => by cases hlookup⟩

theorem sound_run (budgetBytes : Int) (calls : List (Call K)) : (run budgetBytes calls).Sound := by
  rw [run]
  have hnew : ({ budgetBytes := budgetBytes } : EncoderEmbeddingCache K).Sound :=
    ⟨rfl, le_max_left _ _, fun _ _ hlookup => by cases hlookup⟩
  generalize ({ budgetBytes := budgetBytes } : EncoderEmbeddingCache K) = cache at hnew
  induction calls generalizing cache with
  | nil => exact hnew
  | cons call calls ih => exact ih _ (hnew.perform call)

/-- After any calls `usedBytes` is what the entries take, and within the budget. -/
theorem usedBytes_run (budgetBytes : Int) (calls : List (Call K)) :
    (run budgetBytes calls).Sound :=
  sound_run budgetBytes calls

/-- An item that can be kept is kept. -/
theorem lookup_storeSlice (order : Iteration K) (key : K) {slice : Slice} (now : Nat)
    (hbudget : 0 < cache.budgetBytes) (htokens : slice.numTokens ≠ 0)
    (hcheck : slice.check = .ok ()) (hfits : slice.entryBytes ≤ cache.budgetBytes) :
    ((cache.storeSlice order key slice now true).2.entries.lookup key).isSome = true := by
  rw [EncoderEmbeddingCache.storeSlice, if_neg (by omega)]
  split
  · rename_i hpresent
    obtain ⟨entry, hentry⟩ := Option.isSome_iff_exists.1 hpresent
    rw [EncoderEmbeddingCache.lookupEntry, if_neg (by omega), hentry]
    exact congrArg Option.isSome (Finmap.lookup_insert _)
  · rw [hcheck]
    dsimp only
    rw [if_neg (by omega), if_pos rfl, Finmap.lookup_insert]
    rfl

/-- After any calls, an item that can be kept is kept, and replaces the least recently used
entries only. -/
theorem storeSlice_lru (budgetBytes : Int) (calls : List (Call K)) (order : Iteration K)
    (key : K) (slice : Slice) (now : Nat) :
    let cache := run budgetBytes calls
    (0 < cache.budgetBytes → slice.numTokens ≠ 0 → slice.check = .ok () →
      slice.entryBytes ≤ cache.budgetBytes →
      ((cache.storeSlice order key slice now true).2.entries.lookup key).isSome = true) ∧
    ∀ allocated, Stored key slice now allocated cache
      (cache.storeSlice order key slice now allocated).2 :=
  ⟨lookup_storeSlice order key now, (sound_run budgetBytes calls).stored order key slice now⟩

end EncoderEmbeddingCache

end EdgeLLM.Ports.EncoderCache
