import Mathlib.Data.Finset.Card
import Mathlib.Data.Finset.Union

/-!
# Filling a set up to a budget

A greedy selection goes through a list and adds what qualifies.  `fill` looks
at the budget before it adds an element, `pick` after it has added one; the
first never exceeds its budget, the second always takes one element where
there is one.
-/

namespace EdgeLLM.Verified

variable {α : Type*} [DecidableEq α]

/-- Add the elements with property `p` as long as the budget is not used up. -/
def fill (budget : Nat) (p : α → Bool) : Finset α → List α → Finset α
  | s, [] => s
  | s, a :: rest =>
    if budget ≤ s.card then s else fill budget p (if p a then insert a s else s) rest

/-- Add the elements with property `p` until the budget is used up. -/
def pick (budget : Nat) (p : α → Bool) : Finset α → List α → Finset α
  | s, [] => s
  | s, a :: rest =>
    if p a then
      if budget ≤ (insert a s).card then insert a s else pick budget p (insert a s) rest
    else pick budget p s rest

variable {budget : Nat} {p : α → Bool} {s : Finset α} {xs : List α} {a : α}

theorem subset_fill : s ⊆ fill budget p s xs := by
  induction xs generalizing s with
  | nil => exact Finset.Subset.refl s
  | cons b rest ih =>
    unfold fill
    by_cases hfull : budget ≤ s.card
    · rw [if_pos hfull]
    · rw [if_neg hfull]
      by_cases hb : p b = true
      · rw [if_pos hb]
        exact (Finset.subset_insert b s).trans ih
      · rw [if_neg hb]
        exact ih

/-- Only elements of the list with the property are added. -/
theorem mem_fill (h : a ∈ fill budget p s xs) : a ∈ s ∨ (a ∈ xs ∧ p a = true) := by
  induction xs generalizing s with
  | nil => exact .inl h
  | cons b rest ih =>
    unfold fill at h
    by_cases hfull : budget ≤ s.card
    · rw [if_pos hfull] at h
      exact .inl h
    · rw [if_neg hfull] at h
      by_cases hb : p b = true
      · rw [if_pos hb] at h
        rcases ih h with hmem | hrest
        · cases Finset.mem_insert.1 hmem with
          | inl heq => exact .inr ⟨heq ▸ List.mem_cons_self, heq ▸ hb⟩
          | inr hs => exact .inl hs
        · exact .inr ⟨List.mem_cons_of_mem b hrest.1, hrest.2⟩
      · rw [if_neg hb] at h
        rcases ih h with hs | hrest
        · exact .inl hs
        · exact .inr ⟨List.mem_cons_of_mem b hrest.1, hrest.2⟩

theorem card_fill_le (h : s.card ≤ budget) : (fill budget p s xs).card ≤ budget := by
  induction xs generalizing s with
  | nil => exact h
  | cons b rest ih =>
    unfold fill
    by_cases hfull : budget ≤ s.card
    · rw [if_pos hfull]
      exact h
    · rw [if_neg hfull]
      apply ih
      by_cases hb : p b = true
      · rw [if_pos hb]
        have hcard := Finset.card_insert_le b s
        omega
      · rw [if_neg hb]
        exact h

/-- A fill that stays below its budget has added everything. -/
theorem fill_full (h : (fill budget p s xs).card < budget) (ha : a ∈ xs) (hp : p a = true) :
    a ∈ fill budget p s xs := by
  induction xs generalizing s with
  | nil => cases ha
  | cons b rest ih =>
    unfold fill at h ⊢
    by_cases hfull : budget ≤ s.card
    · rw [if_pos hfull] at h
      omega
    · rw [if_neg hfull] at h ⊢
      rcases List.mem_cons.1 ha with heq | hrest
      · subst heq
        rw [if_pos hp]
        exact subset_fill (Finset.mem_insert_self a s)
      · exact ih h hrest

/-- Only elements of the list with the property are taken. -/
theorem mem_pick (h : a ∈ pick budget p s xs) : a ∈ s ∨ (a ∈ xs ∧ p a = true) := by
  induction xs generalizing s with
  | nil => exact .inl h
  | cons b rest ih =>
    have hinsert (hb : p b = true) (hmem : a ∈ insert b s) :
        a ∈ s ∨ (a ∈ b :: rest ∧ p a = true) := by
      rcases Finset.mem_insert.1 hmem with heq | hs
      · exact .inr ⟨heq ▸ List.mem_cons_self, heq ▸ hb⟩
      · exact .inl hs
    unfold pick at h
    by_cases hb : p b = true
    · rw [if_pos hb] at h
      by_cases hlast : budget ≤ (insert b s).card
      · rw [if_pos hlast] at h
        exact hinsert hb h
      · rw [if_neg hlast] at h
        rcases ih h with hmem | hrest
        · exact hinsert hb hmem
        · exact .inr ⟨List.mem_cons_of_mem b hrest.1, hrest.2⟩
    · rw [if_neg hb] at h
      rcases ih h with hs | hrest
      · exact .inl hs
      · exact .inr ⟨List.mem_cons_of_mem b hrest.1, hrest.2⟩

/-- The budget is exceeded by one element at most, where it is zero. -/
theorem card_pick_le (h : s.card < max 1 budget) : (pick budget p s xs).card ≤ max 1 budget := by
  induction xs generalizing s with
  | nil => exact Nat.le_of_lt h
  | cons b rest ih =>
    unfold pick
    by_cases hb : p b = true
    · rw [if_pos hb]
      have hcard := Finset.card_insert_le b s
      by_cases hlast : budget ≤ (insert b s).card
      · rw [if_pos hlast]
        omega
      · rw [if_neg hlast]
        exact ih (by omega)
    · rw [if_neg hb]
      exact ih h

/-- The first elements with the property, one of them in any case. -/
theorem pick_eq (hnodup : xs.Nodup) (hfresh : ∀ b ∈ xs, b ∉ s) :
    pick budget p s xs = s ∪ ((xs.filter p).take (max 1 (budget - s.card))).toFinset := by
  induction xs generalizing s with
  | nil => simp [pick]
  | cons b rest ih =>
    rw [List.nodup_cons] at hnodup
    have hrest : ∀ c ∈ rest, c ∉ s := fun c hc => hfresh c (List.mem_cons_of_mem b hc)
    unfold pick
    by_cases hb : p b = true
    · rw [if_pos hb, List.filter_cons_of_pos hb]
      have hcard : (insert b s).card = s.card + 1 :=
        Finset.card_insert_of_notMem (hfresh b List.mem_cons_self)
      rw [hcard]
      by_cases hlast : budget ≤ s.card + 1
      · have hone : max 1 (budget - s.card) = 1 := by omega
        rw [if_pos hlast, hone, List.take_succ_cons, List.take_zero, List.toFinset_cons,
          List.toFinset_nil, Finset.union_insert, Finset.union_empty]
      · have hnext : ∀ c ∈ rest, c ∉ insert b s := by
          intro c hc hmem
          rcases Finset.mem_insert.1 hmem with heq | hs
          · exact hnodup.1 (heq ▸ hc)
          · exact hrest c hc hs
        have hsucc : max 1 (budget - s.card) = max 1 (budget - (s.card + 1)) + 1 := by omega
        rw [if_neg hlast, ih hnodup.2 hnext, hcard, hsucc, List.take_succ_cons,
          List.toFinset_cons, Finset.union_insert, Finset.insert_union]
    · rw [if_neg hb, List.filter_cons_of_neg hb]
      exact ih hnodup.2 hrest

end EdgeLLM.Verified
