import Mathlib.Order.Interval.Finset.Nat

/-!
# Linear probing

A table of `size` cells, each free or with a key.  A key is looked for from its
home cell on, cell after cell and around the end, until the key or a free cell
comes.  `Probed` is what makes such a search right: from the home of a stored
key up to its cell no cell is free and none has that key.
-/

namespace EdgeLLM.Verified

section Probing

variable {κ : Type*} {size : Nat} {home : κ → Nat} {slot : Nat → Option κ}

/-- The first `d` cells from `start` on have other keys than `key`. -/
def Passed (size start : Nat) (slot : Nat → Option κ) (key : κ) (d : Nat) : Prop :=
  ∀ e < d, ∃ other, other ≠ key ∧ slot ((start + e) % size) = some other

/-- Every stored key is where the search for it comes first. -/
def Probed (size : Nat) (home : κ → Nat) (slot : Nat → Option κ) : Prop :=
  ∀ i < size, ∀ key, slot i = some key →
    ∃ d < size, (home key + d) % size = i ∧ Passed size (home key) slot key d

/-- Some cell has the key. -/
def Stored (size : Nat) (slot : Nat → Option κ) (key : κ) : Prop :=
  ∃ i < size, slot i = some key

/-- A search for the key ends after `d` cells. -/
structure ProbeStop (size start : Nat) (slot : Nat → Option κ) (key : κ) (d : Nat) : Prop where
  inside : d < size
  passed : Passed size start slot key d
  stop : slot ((start + d) % size) = none ∨ slot ((start + d) % size) = some key

theorem Passed.not_stop {start d e : Nat} {key : κ} (h : Passed size start slot key d)
    (he : e < d) : ¬(slot ((start + e) % size) = none ∨ slot ((start + e) % size) = some key) := by
  obtain ⟨other, hne, hother⟩ := h e he
  rw [hother]
  rintro (hnone | hsome)
  · cases hnone
  · exact hne (Option.some.inj hsome)

/-- A cell that would end the search bounds it. -/
theorem exists_stop_of_cell {start d : Nat} {key : κ} (hd : d < size)
    (hcell : slot ((start + d) % size) = none ∨ slot ((start + d) % size) = some key) :
    ∃ d, ProbeStop size start slot key d := by
  induction d using Nat.strong_induction_on with
  | h d ih =>
    by_cases hpassed : Passed size start slot key d
    · exact ⟨d, hd, hpassed, hcell⟩
    · unfold Passed at hpassed
      push Not at hpassed
      obtain ⟨e, he, hearlier⟩ := hpassed
      apply ih e he (he.trans hd)
      cases hslot : slot ((start + e) % size) with
      | none => exact Or.inl rfl
      | some other =>
        by_cases heq : other = key
        · exact Or.inr (congrArg some heq)
        · exact absurd hslot (hearlier other heq)

/-- From every cell the search comes to every other. -/
theorem exists_distance {start j : Nat} (hstart : start < size) (hj : j < size) :
    ∃ d < size, (start + d) % size = j := by
  rcases Nat.lt_or_ge j start with hlt | hge
  · refine ⟨j + size - start, by omega, ?_⟩
    have hsum : start + (j + size - start) = j + size := by omega
    rw [hsum, Nat.add_mod_right, Nat.mod_eq_of_lt hj]
  · refine ⟨j - start, by omega, ?_⟩
    have hsum : start + (j - start) = j := by omega
    rw [hsum, Nat.mod_eq_of_lt hj]

theorem Probed.exists_stop {key : κ} (h : Probed size home slot) (hhome : home key < size)
    (hend : Stored size slot key ∨ ∃ j < size, slot j = none) :
    ∃ d, ProbeStop size (home key) slot key d := by
  rcases hend with hstored | hfree
  · obtain ⟨i, hi, hslot⟩ := hstored
    obtain ⟨d, hd, hreach, hpassed⟩ := h i hi key hslot
    exact ⟨d, hd, hpassed, Or.inr (by rw [hreach, hslot])⟩
  · obtain ⟨j, hj, hslot⟩ := hfree
    obtain ⟨d, hd, hreach⟩ := exists_distance hhome hj
    exact exists_stop_of_cell hd (Or.inl (by rw [hreach, hslot]))

/-- A stored key is not behind a free cell. -/
theorem Probed.not_stored {key : κ} {d : Nat} (h : Probed size home slot)
    (hstop : ProbeStop size (home key) slot key d)
    (hfree : slot ((home key + d) % size) = none) : ¬Stored size slot key := by
  rintro ⟨i, hi, hslot⟩
  obtain ⟨d', _, hreach, hpassed⟩ := h i hi key hslot
  rw [← hreach] at hslot
  rcases Nat.lt_trichotomy d d' with hlt | rfl | hgt
  · exact hpassed.not_stop hlt (Or.inl hfree)
  · rw [hfree] at hslot
    cases hslot
  · exact hstop.passed.not_stop hgt (Or.inr hslot)

theorem ProbeStop.stored {start d : Nat} {key : κ} (h : ProbeStop size start slot key d)
    (hkey : slot ((start + d) % size) = some key) : Stored size slot key :=
  ⟨_, Nat.mod_lt _ (Nat.zero_lt_of_lt h.inside), hkey⟩

/-- The cells with `key` in cell `i`. -/
def place (slot : Nat → Option κ) (i : Nat) (key : κ) : Nat → Option κ :=
  fun j => if j = i then some key else slot j

theorem Passed.place {start d i : Nat} {key key' : κ} (h : Passed size start slot key d)
    (hfree : slot i = none) : Passed size start (place slot i key') key d := by
  intro e he
  obtain ⟨other, hne, hother⟩ := h e he
  refine ⟨other, hne, ?_⟩
  unfold Verified.place
  rw [if_neg, hother]
  intro heq
  rw [heq, hfree] at hother
  cases hother

theorem Probed.place {key : κ} {d : Nat} (h : Probed size home slot)
    (hstop : ProbeStop size (home key) slot key d) (hfree : slot ((home key + d) % size) = none) :
    Probed size home (place slot ((home key + d) % size) key) := by
  intro i hi key' hslot
  unfold Verified.place at hslot
  by_cases heq : i = (home key + d) % size
  · rw [if_pos heq] at hslot
    cases hslot
    exact ⟨d, hstop.inside, heq.symm, hstop.passed.place hfree⟩
  · rw [if_neg heq] at hslot
    obtain ⟨d', hd', hreach, hpassed⟩ := h i hi key' hslot
    exact ⟨d', hd', hreach, hpassed.place hfree⟩

theorem stored_place {key key' : κ} {i : Nat} (hi : i < size) (hfree : slot i = none) :
    Stored size (place slot i key) key' ↔ key' = key ∨ Stored size slot key' := by
  unfold Stored Verified.place
  constructor
  · rintro ⟨j, hj, hslot⟩
    by_cases heq : j = i
    · rw [if_pos heq] at hslot
      exact Or.inl (Option.some.inj hslot).symm
    · rw [if_neg heq] at hslot
      exact Or.inr ⟨j, hj, hslot⟩
  · rintro (rfl | ⟨j, hj, hslot⟩)
    · exact ⟨i, hi, if_pos rfl⟩
    · refine ⟨j, hj, ?_⟩
      rw [if_neg, hslot]
      intro heq
      rw [heq, hfree] at hslot
      cases hslot

/-- No key has two cells. -/
theorem Probed.cell_unique {i j : Nat} {key : κ} (h : Probed size home slot) (hi : i < size)
    (hj : j < size) (hslot : slot i = some key) (hslot' : slot j = some key) : i = j := by
  obtain ⟨d, _, hreach, hpassed⟩ := h i hi key hslot
  obtain ⟨d', _, hreach', hpassed'⟩ := h j hj key hslot'
  rw [← hreach] at hslot
  rw [← hreach'] at hslot'
  rcases Nat.lt_trichotomy d d' with hlt | rfl | hgt
  · exact absurd (Or.inr hslot) (hpassed'.not_stop hlt)
  · exact hreach.symm.trans hreach'
  · exact absurd (Or.inr hslot') (hpassed.not_stop hgt)

/-- With fewer keys than cells one cell is free. -/
theorem Probed.exists_free {keys : Finset κ} (h : Probed size home slot)
    (hkeys : ∀ key, Stored size slot key → key ∈ keys) (hcard : keys.card < size) :
    ∃ j < size, slot j = none := by
  by_contra hfull
  have hcell : ∀ i < size, ∃ key, slot i = some key := by
    intro i hi
    cases hslot : slot i with
    | none => exact absurd ⟨i, hi, hslot⟩ hfull
    | some key => exact ⟨key, rfl⟩
  obtain ⟨first, _⟩ := hcell 0 (Nat.zero_lt_of_lt hcard)
  have : Nonempty κ := ⟨first⟩
  choose! keyAt hkeyAt using hcell
  have hmaps : ∀ i ∈ Finset.range size, keyAt i ∈ keys := by
    intro i hi
    have hlt := Finset.mem_range.1 hi
    exact hkeys _ ⟨i, hlt, hkeyAt i hlt⟩
  have hinj : Set.InjOn keyAt (Finset.range size : Set Nat) := by
    intro i hi j hj heq
    have hlt := Finset.mem_range.1 (Finset.mem_coe.1 hi)
    have hlt' := Finset.mem_range.1 (Finset.mem_coe.1 hj)
    have hslot := hkeyAt j hlt'
    rw [← heq] at hslot
    exact h.cell_unique hlt hlt' (hkeyAt i hlt) hslot
  have hle := Finset.card_le_card_of_injOn keyAt hmaps hinj
  rw [Finset.card_range] at hle
  exact absurd hcard (Nat.not_lt.2 hle)

theorem probed_free (hfree : ∀ i < size, slot i = none) : Probed size home slot := by
  intro i hi key hslot
  rw [hfree i hi] at hslot
  cases hslot

theorem not_stored_free {key : κ} (hfree : ∀ i < size, slot i = none) : ¬Stored size slot key := by
  rintro ⟨i, hi, hslot⟩
  rw [hfree i hi] at hslot
  cases hslot

end Probing

end EdgeLLM.Verified
