import Mathlib.Algebra.Order.Ring.Nat
import Mathlib.Data.List.Basic

/-!
# Runs of consecutive indices

A loop that walks an ascending sequence of indices and joins neighbours, so that
one operation serves a whole run `[begin, end)`.
-/

namespace EdgeLLM.Verified

/-- The runs of a sequence whose first run so far is `[first, last)`. -/
def coalesceFrom (first last : Nat) : List Nat → List (Nat × Nat)
  | [] => [(first, last)]
  | i :: rest =>
    if i = last then coalesceFrom first (last + 1) rest
    else (first, last) :: coalesceFrom i (i + 1) rest

/-- The maximal runs of an ascending sequence. -/
def coalesce : List Nat → List (Nat × Nat)
  | [] => []
  | i :: rest => coalesceFrom i (i + 1) rest

theorem mem_coalesceFrom {k : Nat} (indices : List Nat) : ∀ {first last : Nat}, first ≤ last →
      ((∃ run ∈ coalesceFrom first last indices, run.1 ≤ k ∧ k < run.2) ↔
        (first ≤ k ∧ k < last) ∨ k ∈ indices) := by
  induction indices with
  | nil =>
    intro first last _
    simp [coalesceFrom]
  | cons i rest ih =>
    intro first last hle
    rw [coalesceFrom, List.mem_cons]
    split
    · rename_i hi
      have hgrown : (first ≤ k ∧ k < last + 1) ↔ (first ≤ k ∧ k < last) ∨ k = i := by omega
      rw [ih (by omega), hgrown, or_assoc]
    · have hnew : (i ≤ k ∧ k < i + 1) ↔ k = i := by omega
      simp only [List.mem_cons, exists_eq_or_imp]
      rw [ih (by omega), hnew]

/-- The runs cover the indices and nothing else. -/
theorem mem_coalesce {k : Nat} (indices : List Nat) :
    (∃ run ∈ coalesce indices, run.1 ≤ k ∧ k < run.2) ↔ k ∈ indices := by
  cases indices with
  | nil => simp [coalesce]
  | cons i rest =>
    have hfirst : (i ≤ k ∧ k < i + 1) ↔ k = i := by omega
    rw [coalesce, mem_coalesceFrom rest (by omega), List.mem_cons, hfirst]

/-- The runs of an ascending sequence are not empty and lie one after the other. -/
theorem coalesceFrom_pairwise (indices : List Nat) :
    ∀ {first last : Nat}, first < last → (∀ i ∈ indices, last ≤ i) → indices.Pairwise (· < ·) →
        (coalesceFrom first last indices).Pairwise (fun a b => a.2 ≤ b.1) ∧
          ∀ run ∈ coalesceFrom first last indices, first ≤ run.1 ∧ run.1 < run.2 := by
  induction indices with
  | nil =>
    intro first last hlt _ _
    refine ⟨List.pairwise_singleton _ _, ?_⟩
    intro run hrun
    cases List.mem_singleton.1 hrun
    exact ⟨Nat.le_refl first, hlt⟩
  | cons i rest ih =>
    intro first last hlt habove hascending
    rw [List.pairwise_cons] at hascending
    have hlast := habove i List.mem_cons_self
    have hrest : ∀ k ∈ rest, i + 1 ≤ k := hascending.1
    unfold coalesceFrom
    by_cases hi : i = last
    · subst hi
      rw [if_pos rfl]
      exact ih (Nat.lt_succ_of_lt hlt) hrest hascending.2
    · rw [if_neg hi]
      obtain ⟨hpairwise, hruns⟩ := @ih i (i + 1) (Nat.lt_succ_self i) hrest hascending.2
      constructor
      · apply List.Pairwise.cons _ hpairwise
        intro run hrun
        have hfirst := (hruns run hrun).1
        dsimp only
        omega
      · intro run hrun
        rcases List.mem_cons.1 hrun with heq | hmem
        · subst heq
          exact ⟨Nat.le_refl first, hlt⟩
        · obtain ⟨hfirst, hrunLt⟩ := hruns run hmem
          exact ⟨by omega, hrunLt⟩

theorem coalesce_pairwise {indices : List Nat} (h : indices.Pairwise (· < ·)) :
    (coalesce indices).Pairwise fun a b => a.2 ≤ b.1 := by
  cases indices with
  | nil => exact List.Pairwise.nil
  | cons i rest =>
    rw [List.pairwise_cons] at h
    exact (coalesceFrom_pairwise rest (Nat.lt_succ_self i) h.1 h.2).1

theorem lt_of_mem_coalesce {indices : List Nat} (h : indices.Pairwise (· < ·)) {run : Nat × Nat}
    (hrun : run ∈ coalesce indices) : run.1 < run.2 := by
  cases indices with
  | nil => cases hrun
  | cons i rest =>
    rw [List.pairwise_cons] at h
    exact ((coalesceFrom_pairwise rest (Nat.lt_succ_self i) h.1 h.2).2 run hrun).2

end EdgeLLM.Verified
