import EdgeLLM.Ports.IdentityScratch
import Mathlib.Data.Nat.Bitwise
import Mathlib.Data.Nat.Log

/-!
# An identity scratch table is a set

The cells of the current generation hold the values inserted since the last
`clear`, each where its probe comes first (`Represents`).  Every call keeps
this, through any number of wraps of the generation: a generation that wraps
zeroes all the entries, and otherwise no entry has a later generation than the
table.
-/

namespace EdgeLLM.Ports.IdentityScratch

open Verified

theorem doubleTo_spec {needed : UInt64} (hneeded : needed.toNat ≤ 2 ^ 63) :
    ∀ {fuel bits : Nat} {size : UInt64}, size.toNat = 2 ^ bits → bits ≤ 63 → 64 ≤ fuel + bits →
      ∃ size' bits', doubleTo needed fuel size = some size' ∧ size'.toNat = 2 ^ bits' ∧
        bits' ≤ 63 ∧ needed.toNat ≤ size'.toNat ∧
        ∀ enough, bits ≤ enough → needed.toNat ≤ 2 ^ enough → bits' ≤ enough := by
  intro fuel
  induction fuel with
  | zero =>
    intro bits size _ hbits hfuel
    omega
  | succ fuel ih =>
    intro bits size hsize hbits hfuel
    unfold doubleTo
    by_cases hlt : size < needed
    · rw [if_pos hlt]
      have hlt' := UInt64.lt_iff_toNat_lt.1 hlt
      have hpow : 2 ^ bits < 2 ^ 63 := by omega
      have hbits' : bits < 63 := (Nat.pow_lt_pow_iff_right (by decide)).1 hpow
      have hdouble : (size * 2).toNat = 2 ^ (bits + 1) := by
        rw [UInt64.toNat_mul, hsize, Nat.pow_succ]
        apply Nat.mod_eq_of_lt
        show 2 ^ bits * 2 < 2 ^ 64
        omega
      obtain ⟨size', bits', hrun, hpow', hsmall, hroom, hleast⟩ :=
        ih hdouble hbits' (by omega)
      refine ⟨size', bits', hrun, hpow', hsmall, hroom, ?_⟩
      intro enough hle henough
      apply hleast enough _ henough
      apply (Nat.pow_lt_pow_iff_right (by decide : 1 < 2)).1
      omega
    · rw [if_neg hlt]
      have hroom := Nat.not_lt.1 fun h => hlt (UInt64.lt_iff_toNat_lt.2 h)
      exact ⟨size, bits, rfl, hsize, hbits, hroom, fun _ hle _ => hle⟩

/-! ## Live cells -/

/-- The key of a cell of the current generation. -/
def IdentitySetScratch.slot (s : IdentitySetScratch) (i : Nat) : Option UInt64 :=
  if s.mGenerations.getD i 0 = s.mGeneration then some (s.mKeys.getD i 0) else none

def IdentitySetScratch.home (s : IdentitySetScratch) (value : UInt64) : Nat :=
  (identityHash value &&& s.mMask).toNat

/-- The table is `2 ^ bits` cells and the mask keeps indices in it. -/
structure IdentitySetScratch.Masked (s : IdentitySetScratch) (bits : Nat) : Prop where
  small : bits ≤ 63
  keys : s.mKeys.length = 2 ^ bits
  generations : s.mGenerations.length = 2 ^ bits
  mask : s.mMask.toNat = 2 ^ bits - 1

theorem IdentitySetScratch.Masked.and_mask {s : IdentitySetScratch} {bits : Nat}
    (h : s.Masked bits) (x : UInt64) : (x &&& s.mMask).toNat = x.toNat % 2 ^ bits := by
  rw [UInt64.toNat_and, h.mask, Nat.and_two_pow_sub_one_eq_mod]

variable {s : IdentitySetScratch} {bits fuel : Nat} {a : ReservedSet} {c : Call} {calls : List Call}

theorem IdentitySetScratch.Masked.next (h : s.Masked bits) (index : UInt64) :
    ((index + 1) &&& s.mMask).toNat = (index.toNat + 1) % 2 ^ bits := by
  rw [h.and_mask, UInt64.toNat_add]
  exact Nat.mod_mod_of_dvd _ (Nat.pow_dvd_pow 2 (by have := h.small; omega))

theorem IdentitySetScratch.Masked.home_lt (h : s.Masked bits) (value : UInt64) :
    s.home value < 2 ^ bits := by
  unfold IdentitySetScratch.home
  rw [h.and_mask]
  exact Nat.mod_lt _ (Nat.two_pow_pos bits)

/-- The probe loop ends where a search ends, in as many rounds as it passes cells. -/
theorem probe_stop {s : IdentitySetScratch} {bits start d : Nat} {value : UInt64}
    (hmasked : s.Masked bits) (hstop : ProbeStop (2 ^ bits) start s.slot value d) :
    ∀ {fuel e : Nat} {index : UInt64}, e ≤ d → d < e + fuel → index.toNat = (start + e) % 2 ^ bits →
      ∃ index', index'.toNat = (start + d) % 2 ^ bits ∧ s.probe value fuel index =
        some (if s.slot ((start + d) % 2 ^ bits) = none then .vacant index' else .present) := by
  intro fuel
  induction fuel with
  | zero =>
    intro e index he hfuel _
    omega
  | succ fuel ih =>
    intro e index he hfuel hindex
    unfold IdentitySetScratch.probe
    rcases Nat.lt_or_eq_of_le he with hlt | rfl
    · obtain ⟨other, hne, hother⟩ := hstop.passed e hlt
      rw [← hindex] at hother
      unfold IdentitySetScratch.slot at hother
      by_cases hlive : s.mGenerations.getD index.toNat 0 = s.mGeneration
      · rw [if_pos hlive] at hother
        rw [if_pos hlive, Option.some.inj hother, if_neg hne]
        apply ih hlt (by omega)
        rw [hmasked.next, hindex, Nat.mod_add_mod, Nat.add_assoc]
      · rw [if_neg hlive] at hother
        cases hother
    · refine ⟨index, hindex, ?_⟩
      have hend := hstop.stop
      rw [← hindex] at hend ⊢
      unfold IdentitySetScratch.slot at hend ⊢
      by_cases hlive : s.mGenerations.getD index.toNat 0 = s.mGeneration
      · rw [if_pos hlive] at hend ⊢
        rw [if_pos hlive]
        rcases hend with hend | hend
        · cases hend
        · rw [if_pos (Option.some.inj hend)]
          rfl
      · rw [if_neg hlive]
        rw [if_neg hlive]
        rfl

/-! ## The table and the set -/

structure Represents (s : IdentitySetScratch) (a : ReservedSet) : Prop where
  table : s.mKeys ≠ [] → ∃ bits, s.Masked bits
  lengths : s.mGenerations.length = s.mKeys.length
  room : a.maxItems * 2 ≤ s.mKeys.length
  seen : ∀ g ∈ s.mGenerations, g ≤ s.mGeneration
  probed : ∀ members ∈ a.members, Probed s.mKeys.length s.home s.slot
  stored : ∀ members ∈ a.members, ∀ value, Stored s.mKeys.length s.slot value ↔ value ∈ members

/-- A table without live cells is the empty set. -/
theorem Represents.of_free (htable : s.mKeys ≠ [] → ∃ bits, s.Masked bits)
    (hlengths : s.mGenerations.length = s.mKeys.length) (hroom : a.maxItems * 2 ≤ s.mKeys.length)
    (hseen : ∀ g ∈ s.mGenerations, g ≤ s.mGeneration)
    (hfree : ∀ i < s.mKeys.length, s.slot i = none)
    (hmembers : ∀ members ∈ a.members, members = ∅) : Represents s a := by
  constructor
  · exact htable
  · exact hlengths
  · exact hroom
  · exact hseen
  · intro members _
    exact probed_free hfree
  · intro members h value
    rw [hmembers members h]
    constructor
    · intro hstored
      exact absurd hstored (not_stored_free hfree)
    · intro hmem
      exact absurd hmem (Finset.notMem_empty value)

theorem represents_initial : Represents {} {} := by
  apply Represents.of_free
  · intro h
    exact absurd rfl h
  · rfl
  · exact Nat.le_refl 0
  · intro g hg
    cases hg
  · intro i hi
    cases hi
  · intro members hmembers
    exact (Option.some.inj hmembers).symm

/-- No cell is live when every entry has an earlier generation. -/
theorem slot_eq_none {i : Nat} (hi : i < s.mGenerations.length)
    (h : ∀ g ∈ s.mGenerations, g ≠ s.mGeneration) : s.slot i = none := by
  unfold IdentitySetScratch.slot
  rw [if_neg]
  rw [List.getD_eq_getElem _ _ hi]
  exact h _ (List.getElem_mem hi)

variable {members : Finset UInt64}

/-- A table that no `reserve` has made has no members. -/
theorem Represents.members_eq_empty (h : Represents s a)
    (hkeys : s.mKeys = []) (hmem : members ∈ a.members) : members = ∅ := by
  apply Finset.eq_empty_of_forall_notMem
  intro value hvalue
  obtain ⟨i, hi, _⟩ := (h.stored members hmem value).2 hvalue
  rw [hkeys] at hi
  cases hi

theorem Represents.clear (h : Represents s a) : Represents s.clear a.clear := by
  have hmembers : ∀ members ∈ a.clear.members, members = ∅ := by
    intro members hmem
    exact (Option.some.inj hmem).symm
  unfold IdentitySetScratch.clear
  by_cases hwrap : s.mGeneration + 1 = 0
  · rw [if_pos hwrap]
    have hzero : ∀ g ∈ s.mGenerations.map (fun _ => (0 : UInt32)), g = 0 := by
      intro g hg
      obtain ⟨_, _, rfl⟩ := List.mem_map.1 hg
      rfl
    have hlengths : (s.mGenerations.map fun _ => (0 : UInt32)).length = s.mKeys.length := by
      rw [List.length_map, h.lengths]
    apply Represents.of_free
    · intro hkeys
      obtain ⟨bits, hmasked⟩ := h.table hkeys
      exact ⟨bits, hmasked.small, hmasked.keys, hlengths.trans hmasked.keys, hmasked.mask⟩
    · exact hlengths
    · exact h.room
    · intro g hg
      rw [hzero g hg]
      exact UInt32.le_iff_toNat_le.2 (Nat.zero_le _)
    · intro i hi
      apply slot_eq_none
      · exact hi.trans_eq hlengths.symm
      · intro g hg
        rw [hzero g hg]
        show (0 : UInt32) ≠ 1
        decide
    · exact hmembers
  · rw [if_neg hwrap]
    have hlater : s.mGeneration < s.mGeneration + 1 := by
      rw [UInt32.lt_iff_toNat_lt, UInt32.toNat_add]
      have hlt := s.mGeneration.toNat_lt
      have hne : s.mGeneration.toNat + 1 ≠ 2 ^ 32 := by
        intro heq
        apply hwrap
        apply UInt32.toNat_inj.1
        rw [UInt32.toNat_add]
        show (s.mGeneration.toNat + 1) % 2 ^ 32 = 0
        rw [heq, Nat.mod_self]
      show s.mGeneration.toNat < (s.mGeneration.toNat + 1) % 2 ^ 32
      rw [Nat.mod_eq_of_lt (by omega)]
      exact Nat.lt_succ_self _
    apply Represents.of_free
    · intro hkeys
      obtain ⟨bits, hmasked⟩ := h.table hkeys
      exact ⟨bits, hmasked.small, hmasked.keys, hmasked.generations, hmasked.mask⟩
    · exact h.lengths
    · exact h.room
    · intro g hg
      exact UInt32.le_of_lt (UInt32.lt_of_le_of_lt (h.seen g hg) hlater)
    · intro i hi
      apply slot_eq_none
      · exact hi.trans_eq h.lengths.symm
      · intro g hg
        exact UInt32.ne_of_lt (UInt32.lt_of_le_of_lt (h.seen g hg) hlater)
    · exact hmembers

theorem ReservedSet.maxItems_reserve (a : ReservedSet) (maxItems : Nat) :
    (a.reserve maxItems).maxItems = max a.maxItems maxItems := by
  unfold ReservedSet.reserve
  by_cases hle : maxItems ≤ a.maxItems
  · rw [if_pos hle, Nat.max_eq_left hle]
  · rw [if_neg hle, Nat.max_eq_right (Nat.le_of_not_le hle)]

/-- A `reserve` keeps the members, or there are none that a caller counts on. -/
theorem ReservedSet.members_reserve {maxItems : Nat}
    (h : members ∈ (a.reserve maxItems).members) :
    members ∈ a.members ∧ (maxItems ≤ a.maxItems ∨ members = ∅) := by
  unfold ReservedSet.reserve at h
  by_cases hle : maxItems ≤ a.maxItems
  · rw [if_pos hle] at h
    exact ⟨h, Or.inl hle⟩
  · rw [if_neg hle] at h
    dsimp only at h
    by_cases hempty : a.members = some ∅
    · rw [if_pos hempty] at h
      rw [hempty]
      exact ⟨h, Or.inr (Option.some.inj h).symm⟩
    · rw [if_neg hempty] at h
      cases h

theorem length_resize {keys : List UInt64} {size : Nat} (h : keys.length ≤ size) :
    (resize keys size).length = size := by
  unfold resize
  rw [List.length_append, List.length_replicate, Nat.add_sub_cancel' h]

theorem Represents.reserve {maxItems : UInt64} (h : Represents s a) (hmax : maxItems.toNat ≤ 2 ^ 62)
    (hfuel : 64 ≤ fuel) :
    ∃ s', s.reserve fuel maxItems = some s' ∧ Represents s' (a.reserve maxItems.toNat) := by
  have hneeded : (maxItems * 2).toNat = maxItems.toNat * 2 := by
    rw [UInt64.toNat_mul]
    apply Nat.mod_eq_of_lt
    show maxItems.toNat * 2 < 2 ^ 64
    omega
  have hsmall : (maxItems * 2).toNat ≤ 2 ^ 63 := by
    rw [hneeded]
    omega
  obtain ⟨size, bits, hsize, hpow, hbits, hroom, hleast⟩ :=
    @doubleTo_spec _ hsmall fuel 0 1 rfl (Nat.zero_le _) hfuel
  rw [hneeded] at hroom
  unfold IdentitySetScratch.reserve
  rw [hsize]
  refine ⟨_, rfl, ?_⟩
  dsimp only
  by_cases hlarge : s.mKeys.length ≥ size.toNat
  · rw [if_pos hlarge]
    constructor
    · exact h.table
    · exact h.lengths
    · have := h.room
      rw [ReservedSet.maxItems_reserve]
      omega
    · exact h.seen
    · intro members hmem
      exact h.probed members (ReservedSet.members_reserve hmem).1
    · intro members hmem
      exact h.stored members (ReservedSet.members_reserve hmem).1
  · rw [if_neg hlarge]
    have hkeys : (resize s.mKeys size.toNat).length = size.toNat :=
      length_resize (Nat.le_of_not_le hlarge)
    have hgenerations : (List.replicate size.toNat (0 : UInt32)).length = size.toNat :=
      List.length_replicate
    have hzero : ∀ g ∈ List.replicate size.toNat (0 : UInt32), g = 0 := by
      intro g hg
      exact List.eq_of_mem_replicate hg
    apply Represents.of_free
    · intro _
      refine ⟨bits, hbits, hkeys.trans hpow, hgenerations.trans hpow, ?_⟩
      show (size - 1).toNat = 2 ^ bits - 1
      rw [UInt64.toNat_sub_of_le, hpow]
      · rfl
      · rw [UInt64.le_iff_toNat_le, hpow]
        exact Nat.two_pow_pos bits
    · exact hgenerations.trans hkeys.symm
    · have := h.room
      show _ ≤ (resize s.mKeys size.toNat).length
      rw [hkeys, ReservedSet.maxItems_reserve]
      omega
    · intro g hg
      rw [hzero g hg]
      exact UInt32.le_iff_toNat_le.2 (Nat.zero_le _)
    · intro i hi
      apply slot_eq_none
      · exact hi.trans_eq (hkeys.trans hgenerations.symm)
      · intro g hg
        rw [hzero g hg]
        show (0 : UInt32) ≠ 1
        decide
    · intro members hmem
      obtain ⟨hmem, hle | hempty⟩ := ReservedSet.members_reserve hmem
      · by_cases hnone : s.mKeys = []
        · exact h.members_eq_empty hnone hmem
        · -- a power of two that is enough for the items is no smaller than the least one
          obtain ⟨bits', hmasked⟩ := h.table hnone
          have henough := h.room
          rw [hmasked.keys] at henough
          have hle' := hleast bits' (Nat.zero_le _) (by omega)
          have hpow' := Nat.pow_le_pow_right (by decide : 0 < 2) hle'
          rw [hmasked.keys, hpow] at hlarge
          exact absurd hpow' hlarge
      · exact hempty

/-- The table with `value` in a cell. -/
def IdentitySetScratch.store (s : IdentitySetScratch) (value index : UInt64) : IdentitySetScratch :=
  (s.settle value (.vacant index)).2

theorem slot_store {value index : UInt64} (hkey : index.toNat < s.mKeys.length)
    (hgeneration : index.toNat < s.mGenerations.length) :
    (s.store value index).slot = place s.slot index.toNat value := by
  funext j
  unfold IdentitySetScratch.slot place
  show (if (s.mGenerations.set index.toNat s.mGeneration).getD j 0 = s.mGeneration then
    some ((s.mKeys.set index.toNat value).getD j 0) else none) = _
  rw [getD_set hkey, getD_set hgeneration]
  by_cases heq : j = index.toNat
  · rw [if_pos heq, if_pos heq, if_pos heq, if_pos rfl]
  · rw [if_neg heq, if_neg heq, if_neg heq]

theorem Represents.store {d : Nat} {value index : UInt64}
    (h : Represents s a) (hmem : members ∈ a.members) (hmasked : s.Masked bits)
    (hstop : ProbeStop s.mKeys.length (s.home value) s.slot value d)
    (hindex : index.toNat = (s.home value + d) % s.mKeys.length)
    (hfree : s.slot index.toNat = none) :
    Represents (s.store value index) { a with members := some (insert value members) } := by
  have hkey : index.toNat < s.mKeys.length := by
    rw [hindex]
    exact Nat.mod_lt _ (Nat.zero_lt_of_lt hstop.inside)
  have hgeneration : index.toNat < s.mGenerations.length := hkey.trans_eq h.lengths.symm
  have hkeys : (s.store value index).mKeys.length = s.mKeys.length := List.length_set
  have hgenerations : (s.store value index).mGenerations.length = s.mGenerations.length :=
    List.length_set
  constructor
  · intro _
    exact ⟨bits, hmasked.small, hkeys.trans hmasked.keys,
      hgenerations.trans hmasked.generations, hmasked.mask⟩
  · rw [hkeys, hgenerations, h.lengths]
  · rw [hkeys]
    exact h.room
  · intro g hg
    rcases List.mem_or_eq_of_mem_set hg with hold | hnew
    · exact h.seen g hold
    · rw [hnew]
      exact UInt32.le_refl _
  · intro members' _
    rw [hkeys, slot_store hkey hgeneration, hindex]
    rw [hindex] at hfree
    exact (h.probed members hmem).place hstop hfree
  · intro members' hmem' value'
    have heq : insert value members = members' := Option.some.inj hmem'
    rw [hkeys, slot_store hkey hgeneration, stored_place hkey hfree, ← heq, Finset.mem_insert,
      h.stored members hmem]

theorem Represents.insert {s : IdentitySetScratch} {a : ReservedSet}
    {value : UInt64} {fuel : Nat} (h : Represents s a) (hmem : members ∈ a.members)
    (hcard : (insert value members).card ≤ a.maxItems) (hfuel : 2 ^ 63 ≤ fuel) :
    ∃ s', s.insert fuel value = .ok (some (decide (value ∉ members), s')) ∧
      Represents s' { a with members := some (insert value members) } := by
  have hroom := h.room
  have hpos : 0 < (Insert.insert value members).card :=
    Finset.card_pos.2 ⟨value, Finset.mem_insert_self value members⟩
  have hkeys : s.mKeys ≠ [] := by
    intro hnil
    rw [hnil, List.length_nil] at hroom
    omega
  obtain ⟨bits, hmasked⟩ := h.table hkeys
  have hprobed := h.probed members hmem
  have hstored := h.stored members hmem
  have hend : Stored s.mKeys.length s.slot value ∨ ∃ j < s.mKeys.length, s.slot j = none := by
    by_cases hin : value ∈ members
    · exact Or.inl ((hstored value).2 hin)
    · apply Or.inr
      rw [Finset.card_insert_of_notMem hin] at hcard
      exact hprobed.exists_free (fun key => (hstored key).1) (by omega)
  have hhome : s.home value < s.mKeys.length := hmasked.keys ▸ hmasked.home_lt value
  obtain ⟨d, hstop⟩ := hprobed.exists_stop hhome hend
  have hcells := Nat.pow_le_pow_right (by decide : 0 < 2) hmasked.small
  have hinside := hstop.inside
  rw [hmasked.keys] at hinside
  have hstart : (identityHash value &&& s.mMask).toNat = (s.home value + 0) % 2 ^ bits := by
    rw [Nat.add_zero, Nat.mod_eq_of_lt (hmasked.home_lt value)]
    rfl
  obtain ⟨index, hindex, hrun⟩ :=
    @probe_stop _ _ _ _ _ hmasked (hmasked.keys ▸ hstop) fuel 0 _ (Nat.zero_le d) (by omega) hstart
  unfold IdentitySetScratch.insert
  rw [requireThat_of hkeys, hrun]
  rw [← hmasked.keys] at hindex
  rw [← hmasked.keys, ← hindex]
  by_cases hfree : s.slot index.toNat = none
  · have hnew : value ∉ members := by
      rw [← hstored value]
      exact hprobed.not_stored hstop (hindex ▸ hfree)
    rw [if_pos hfree, decide_eq_true hnew]
    exact ⟨_, rfl, h.store hmem hmasked hstop hindex hfree⟩
  · have hold : value ∈ members := by
      apply (hstored value).1
      apply hstop.stored
      rcases hstop.stop with hnone | hkey
      · rw [← hindex] at hnone
        exact absurd hnone hfree
      · exact hkey
    rw [if_neg hfree, decide_eq_false (not_not_intro hold), Finset.insert_eq_of_mem hold]
    refine ⟨s, rfl, ?_⟩
    have hsame : a.members = some members := hmem
    rw [← hsame]
    exact h

/-! ## Runs -/

theorem Represents.call (h : Represents s a) (hallows : a.Allows (2 ^ 62) c)
    (hfuel : 2 ^ 63 ≤ fuel) :
    ∃ s', s.call fuel c = .ok (some (a.answer c, s')) ∧ Represents s' (a.after c) := by
  cases c with
  | reserve maxItems =>
    obtain ⟨s', hrun, hrep⟩ := h.reserve hallows (Nat.le_trans (by decide) hfuel)
    refine ⟨s', ?_, hrep⟩
    show pure ((s.reserve fuel maxItems).map _) = _
    rw [hrun]
    rfl
  | clear => exact ⟨s.clear, rfl, h.clear⟩
  | insert value =>
    obtain ⟨members, hmem, hcard⟩ := hallows
    obtain ⟨s', hrun, hrep⟩ := h.insert hmem hcard hfuel
    have hsame : a.members = some members := hmem
    refine ⟨s', ?_, ?_⟩
    · unfold IdentitySetScratch.call ReservedSet.answer
      rw [hsame]
      dsimp only
      rw [hrun]
      rfl
    · unfold ReservedSet.after
      rw [hsame]
      exact hrep

theorem Represents.run (hfuel : 2 ^ 63 ≤ fuel) :
    ∀ {s : IdentitySetScratch} {a : ReservedSet}, Represents s a → a.Keeps (2 ^ 62) calls →
      s.run fuel calls = .ok (some (a.answers calls)) := by
  induction calls with
  | nil =>
    intro s a _ _
    rfl
  | cons c calls ih =>
    intro s a h hkeeps
    obtain ⟨s', hcall, hrep⟩ := h.call hkeeps.1 hfuel
    unfold IdentitySetScratch.run
    rw [hcall]
    show (IdentitySetScratch.run fuel s' calls >>= _) = _
    rw [ih hrep hkeeps.2]
    rfl

/-- Every `insert` of a run returns whether its value is new since the last
`clear`, and no loop takes more than `2 ^ 63` rounds. -/
theorem run_eq_answers (calls : List Call) (fuel : Nat) (hfuel : 2 ^ 63 ≤ fuel)
    (hkeeps : ReservedSet.Keeps (2 ^ 62) {} calls) :
    IdentitySetScratch.run fuel {} calls = .ok (some (ReservedSet.answers {} calls)) :=
  represents_initial.run hfuel hkeeps

theorem run_eq_answers_twice :
    IdentitySetScratch.run (2 ^ 63) {}
        [.reserve 2, .clear, .insert 5, .insert 5, .insert 7, .clear, .insert 7] =
      .ok (some (ReservedSet.answers {}
        [.reserve 2, .clear, .insert 5, .insert 5, .insert 7, .clear, .insert 7])) :=
  run_eq_answers _ _ (Nat.le_refl _) (by decide)

/-- A `reserve` for `2 ^ 63` items makes a table of one cell. -/
def oneCell (key : UInt64) : IdentitySetScratch :=
  { mKeys := [key], mGenerations := [2], mGeneration := 2, mMask := 0 }

theorem probe_oneCell (fuel : Nat) : (oneCell 0).probe 1 fuel 0 = none := by
  induction fuel with
  | zero => rfl
  | succ fuel ih => exact ih

theorem run_oneCell (fuel : Nat) : (oneCell 0).run fuel [.insert 1] = .ok none := by
  have hcall : (oneCell 0).call fuel (.insert 1) = .ok none := by
    show Except.ok (((((oneCell 0).probe 1 fuel 0).map _).map _) :
      Option (List Bool × IdentitySetScratch)) = _
    rw [probe_oneCell]
    rfl
  unfold IdentitySetScratch.run
  rw [hcall]
  rfl

theorem run_stuck {s' : IdentitySetScratch} {answers : List Bool}
    (hcall : s.call fuel c = .ok (some (answers, s'))) (hrest : s'.run fuel calls = .ok none) :
    s.run fuel (c :: calls) = .ok none := by
  unfold IdentitySetScratch.run
  rw [hcall]
  show (IdentitySetScratch.run fuel s' calls >>= _) = _
  rw [hrest]
  rfl

/-- The second value comes to the one cell again and again. -/
theorem run_overReserved :
    ReservedSet.Keeps (2 ^ 64) {} [.reserve 0x8000000000000000, .clear, .insert 0, .insert 1] ∧
      ¬∃ fuel, IdentitySetScratch.run fuel {}
          [.reserve 0x8000000000000000, .clear, .insert 0, .insert 1] =
        .ok (some (ReservedSet.answers {}
          [.reserve 0x8000000000000000, .clear, .insert 0, .insert 1])) := by
  constructor
  · decide
  · rintro ⟨fuel, hrun⟩
    cases fuel with
    | zero => cases hrun
    | succ fuel =>
      have hstuck : IdentitySetScratch.run (fuel + 1) {}
          [.reserve 0x8000000000000000, .clear, .insert 0, .insert 1] = .ok none := by
        apply run_stuck rfl
        apply run_stuck rfl
        exact run_stuck rfl (run_oneCell (fuel + 1))
      rw [hstuck] at hrun
      cases hrun

end EdgeLLM.Ports.IdentityScratch
