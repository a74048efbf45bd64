import Mathlib.Data.List.Infix
import Mathlib.Data.Nat.Find

/-!
# Occurrences of a word, found from the left

`Found word text p i` says that a search which starts at `p`, and starts again
behind each occurrence it finds, finds the occurrence at `i`.  The facts below let
such a search be taken up in the middle of a text: what it finds behind a place is
what a search started there finds, as long as the place lies inside nothing found.
-/

namespace EdgeLLM.Verified.Occurrences

variable {α : Type}

/-- The word stands in the text at `i`. -/
def OccursAt (word text : List α) (i : Nat) : Prop := word <+: text.drop i

instance [DecidableEq α] (word text : List α) (i : Nat) : Decidable (OccursAt word text i) :=
  inferInstanceAs (Decidable (_ <+: _))

/-- The first occurrence at or behind `p`. -/
def NextAt (word text : List α) (p i : Nat) : Prop :=
  p ≤ i ∧ OccursAt word text i ∧ ∀ j, p ≤ j → j < i → ¬ OccursAt word text j

/-- The occurrences found from `p` on, each search starting behind the last find. -/
inductive Found (word text : List α) : Nat → Nat → Prop
  | next {p i : Nat} : NextAt word text p i → Found word text p i
  | later {p i j : Nat} :
      NextAt word text p i → Found word text (i + word.length) j → Found word text p j

variable {word text : List α}

variable {i p j r : Nat}

theorem OccursAt.le (hword : word ≠ []) (h : OccursAt word text i) :
    i + word.length ≤ text.length := by
  have hlength := List.IsPrefix.length_le h
  have hpos := List.length_pos_iff.2 hword
  rw [List.length_drop] at hlength
  omega

theorem NextAt.unique (hi : NextAt word text p i) (hj : NextAt word text p j) : i = j := by
  rcases Nat.lt_trichotomy i j with hlt | heq | hgt
  · exact absurd hi.2.1 (hj.2.2 i hi.1 hlt)
  · exact heq
  · exact absurd hj.2.1 (hi.2.2 j hj.1 hgt)

/-- Where there is an occurrence there is a first one. -/
theorem exists_nextAt (hpj : p ≤ j) (hj : OccursAt word text j) :
    ∃ i, NextAt word text p i ∧ i ≤ j := by
  classical
  have hex : ∃ i, p ≤ i ∧ OccursAt word text i := ⟨j, hpj, hj⟩
  refine ⟨Nat.find hex, ⟨(Nat.find_spec hex).1, (Nat.find_spec hex).2, ?_⟩, ?_⟩
  · intro k hpk hk hoccurs
    exact Nat.find_min hex hk ⟨hpk, hoccurs⟩
  · exact Nat.find_min' hex ⟨hpj, hj⟩

theorem Found.occursAt (h : Found word text p j) : OccursAt word text j := by
  induction h with
  | next hnext => exact hnext.2.1
  | later _ _ ih => exact ih

theorem Found.le (h : Found word text p j) : p ≤ j := by
  induction h with
  | next hnext => exact hnext.1
  | later hnext _ ih =>
    have hle := hnext.1
    omega

/-- One step of the search. -/
theorem NextAt.found_iff (h : NextAt word text p i) (j : Nat) :
    Found word text p j ↔ j = i ∨ Found word text (i + word.length) j := by
  constructor
  · intro hfound
    cases hfound with
    | next hnext => exact .inl (hnext.unique h)
    | later hnext hlater =>
      rw [hnext.unique h] at hlater
      exact .inr hlater
  · intro hfound
    rcases hfound with rfl | hlater
    · exact .next h
    · exact .later h hlater

/-- A search that finds anything finds a first occurrence. -/
theorem Found.exists_next (h : Found word text p j) : ∃ i, NextAt word text p i ∧ i ≤ j := by
  cases h with
  | next hnext => exact ⟨j, hnext, Nat.le_refl j⟩
  | later hnext hlater =>
    have hle := hlater.le
    exact ⟨_, hnext, by omega⟩

/-- A stretch without occurrences may be skipped. -/
theorem nextAt_skip (hpr : p ≤ r) (hnone : ∀ j, p ≤ j → j < r → ¬ OccursAt word text j) (i : Nat) :
    NextAt word text p i ↔ NextAt word text r i := by
  constructor
  · intro h
    have hri : r ≤ i := by
      apply Nat.le_of_not_lt
      intro hlt
      exact hnone i h.1 hlt h.2.1
    exact ⟨hri, h.2.1, fun j hrj => h.2.2 j (hpr.trans hrj)⟩
  · intro h
    refine ⟨hpr.trans h.1, h.2.1, ?_⟩
    intro j hpj hji
    by_cases hjr : j < r
    · exact hnone j hpj hjr
    · exact h.2.2 j (Nat.le_of_not_lt hjr) hji

theorem found_skip (hpr : p ≤ r) (hnone : ∀ j, p ≤ j → j < r → ¬ OccursAt word text j) (j : Nat) :
    Found word text p j ↔ Found word text r j := by
  have hskip := nextAt_skip hpr hnone
  constructor
  · intro h
    cases h with
    | next hnext => exact .next ((hskip _).1 hnext)
    | later hnext hlater => exact .later ((hskip _).1 hnext) hlater
  · intro h
    cases h with
    | next hnext => exact .next ((hskip _).2 hnext)
    | later hnext hlater => exact .later ((hskip _).2 hnext) hlater

/-- The search from `r` finds what the search from `p` finds from `r` on, when the
latter finds nothing before `r`. -/
theorem found_resume (hpr : p ≤ r) (hnone : ∀ j, Found word text p j → r ≤ j) (j : Nat) :
    Found word text p j ↔ Found word text r j := by
  apply found_skip hpr
  intro k hpk hkr hoccurs
  obtain ⟨i, hnext, hik⟩ := exists_nextAt hpk hoccurs
  have hri := hnone i (.next hnext)
  omega

/-- Behind a place that cuts nothing found, a new search finds the rest. -/
theorem found_behind (hword : word ≠ []) (hpr : p ≤ r)
    (hcut : ∀ j, Found word text p j → j + word.length ≤ r ∨ r ≤ j) (j : Nat) :
    Found word text r j ↔ Found word text p j ∧ r ≤ j := by
  induction hn : r - p using Nat.strong_induction_on generalizing p with
  | _ n ih =>
    have hpos := List.length_pos_iff.2 hword
    by_cases hbefore : ∃ i, NextAt word text p i ∧ i < r
    · obtain ⟨i, hnext, hir⟩ := hbefore
      have hle := hnext.1
      have hend := hcut i (.next hnext)
      have hrest := ih (r - (i + word.length)) (by omega) (p := i + word.length) (by omega)
        (fun j hj => hcut j (.later hnext hj)) rfl
      rw [hrest, hnext.found_iff]
      constructor
      · intro h
        exact ⟨.inr h.1, h.2⟩
      · intro h
        rcases h.1 with rfl | hlater
        · exact absurd h.2 (Nat.not_le.2 hir)
        · exact ⟨hlater, h.2⟩
    · have hnone : ∀ j, Found word text p j → r ≤ j := by
        intro j hj
        obtain ⟨i, hnext, hij⟩ := hj.exists_next
        apply Nat.le_of_not_lt
        intro hjr
        exact hbefore ⟨i, hnext, by omega⟩
      rw [← found_resume hpr hnone]
      constructor
      · intro h
        exact ⟨h, hnone j h⟩
      · intro h
        exact h.1

end EdgeLLM.Verified.Occurrences
