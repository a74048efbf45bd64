import Mathlib.Algebra.Order.Ring.Nat
import Mathlib.Data.List.Basic

/-!
# Merging adjacent pairs by priority

The reference algorithm of byte pair encoding over any symbols: while some adjacent
pair has a priority, merge the pair of the lowest one, the leftmost among equals.
-/

namespace EdgeLLM.Verified.PairMerging

variable {α R : Type}

/-- The pair at `i` has priority `p`. -/
def PairAt (priority : α → α → Option R) (xs : List α) (i : Nat) (p : R) : Prop :=
  ∃ l r, xs[i]? = some l ∧ xs[i + 1]? = some r ∧ priority l r = some p

/-- Merge the pair that starts at an index. -/
def mergeAt (join : α → α → α) : Nat → List α → List α
  | 0, l :: r :: rest => join l r :: rest
  | i + 1, x :: rest => x :: mergeAt join i rest
  | _, xs => xs

variable {priority : α → α → Option R} {join : α → α → α}

variable {p : R} {i : Nat} {xs : List α}

theorem pairAt_zero {l r : α} {rest : List α} :
    PairAt priority (l :: r :: rest) 0 p ↔ priority l r = some p := by
  constructor
  · intro h
    obtain ⟨l', r', hl, hr, hp⟩ := h
    rw [List.getElem?_cons_zero, Option.some.injEq] at hl
    rw [List.getElem?_cons_succ, List.getElem?_cons_zero, Option.some.injEq] at hr
    rw [hl, hr]
    exact hp
  · intro h
    exact ⟨l, r, rfl, rfl, h⟩

theorem not_pairAt_nil : ¬ PairAt priority ([] : List α) i p := by
  intro h
  obtain ⟨l, r, hl, _⟩ := h
  cases hl

theorem not_pairAt_singleton {x : α} : ¬ PairAt priority [x] i p := by
  intro h
  obtain ⟨l, r, _, hr, _⟩ := h
  cases hr

theorem PairAt.lt_length (h : PairAt priority xs i p) : i + 1 < xs.length := by
  obtain ⟨l, r, _, hr, _⟩ := h
  exact (List.getElem?_eq_some_iff.1 hr).1

variable [LinearOrder R]

/-- The lowest priority among the adjacent pairs, and where it stands first. -/
def lowestPair (priority : α → α → Option R) : List α → Option (R × Nat)
  | [] => none
  | [_] => none
  | l :: r :: rest =>
    match priority l r, lowestPair priority (r :: rest) with
    | some p, some (q, i) => if p ≤ q then some (p, 0) else some (q, i + 1)
    | some p, none => some (p, 0)
    | none, some (q, i) => some (q, i + 1)
    | none, none => none

/-- At most so many rounds of merging the lowest pair. -/
def mergePairs (priority : α → α → Option R) (join : α → α → α) : Nat → List α → List α
  | 0, xs => xs
  | rounds + 1, xs =>
    match lowestPair priority xs with
    | none => xs
    | some (_, i) => mergePairs priority join rounds (mergeAt join i xs)

/-- The pair at `i` has the lowest priority, and is the first with it. -/
def Lowest (priority : α → α → Option R) (xs : List α) (p : R) (i : Nat) : Prop :=
  PairAt priority xs i p ∧ ∀ j q, PairAt priority xs j q → p < q ∨ p = q ∧ i ≤ j

theorem Lowest.unique {q : R} {j : Nat} (hp : Lowest priority xs p i)
    (hq : Lowest priority xs q j) : p = q ∧ i = j := by
  have hij := hp.2 j q hq.1
  have hji := hq.2 i p hp.1
  rcases hij with hlt | ⟨heq, hle⟩
  · rcases hji with hgt | ⟨heq, _⟩
    · exact absurd hlt (lt_asymm hgt)
    · exact absurd hlt (heq ▸ lt_irrefl _)
  · rcases hji with hgt | ⟨_, hge⟩
    · exact absurd hgt (heq ▸ lt_irrefl _)
    · exact ⟨heq, Nat.le_antisymm hle hge⟩

/-- The search finds nothing, and there is no pair, or it finds the lowest pair. -/
theorem lowestPair_spec (xs : List α) :
    (lowestPair priority xs = none ∧ ∀ i p, ¬ PairAt priority xs i p) ∨
      ∃ p i, lowestPair priority xs = some (p, i) ∧ Lowest priority xs p i := by
  induction xs with
  | nil => exact .inl ⟨rfl, fun _ _ => not_pairAt_nil⟩
  | cons l rest ih =>
    cases rest with
    | nil => exact .inl ⟨rfl, fun _ _ => not_pairAt_singleton⟩
    | cons r rest =>
      rw [lowestPair]
      cases hhead : priority l r with
      | none =>
        have hzero : ∀ p, ¬ PairAt priority (l :: r :: rest) 0 p := by
          intro p hp
          rw [pairAt_zero, hhead] at hp
          cases hp
        rcases ih with ⟨hnone, hrest⟩ | ⟨q, i, hsome, hlowest⟩
        · rw [hnone]
          refine .inl ⟨rfl, ?_⟩
          intro i p
          cases i with
          | zero => exact hzero p
          | succ i => exact hrest i p
        · rw [hsome]
          refine .inr ⟨q, i + 1, rfl, hlowest.1, ?_⟩
          intro j p hp
          cases j with
          | zero => exact absurd hp (hzero p)
          | succ j =>
            rcases hlowest.2 j p hp with hlt | ⟨heq, hle⟩
            · exact .inl hlt
            · exact .inr ⟨heq, Nat.succ_le_succ hle⟩
      | some p =>
        have hzero : ∀ q, PairAt priority (l :: r :: rest) 0 q → p = q := by
          intro q hq
          rw [pairAt_zero, hhead, Option.some.injEq] at hq
          exact hq
        rcases ih with ⟨hnone, hrest⟩ | ⟨q, i, hsome, hlowest⟩
        · rw [hnone]
          refine .inr ⟨p, 0, rfl, pairAt_zero.2 hhead, ?_⟩
          intro j q hq
          cases j with
          | zero => exact .inr ⟨hzero q hq, Nat.le_refl 0⟩
          | succ j => exact absurd hq (hrest j q)
        · rw [hsome]
          by_cases hle : p ≤ q
          · simp only
            rw [if_pos hle]
            refine .inr ⟨p, 0, rfl, pairAt_zero.2 hhead, ?_⟩
            intro j q' hq'
            cases j with
            | zero => exact .inr ⟨hzero q' hq', Nat.le_refl 0⟩
            | succ j =>
              have hother : q ≤ q' := by
                rcases hlowest.2 j q' hq' with hlt | ⟨heq, _⟩
                · exact le_of_lt hlt
                · exact le_of_eq heq
              rcases lt_or_eq_of_le (le_trans hle hother) with hlt | heq
              · exact .inl hlt
              · exact .inr ⟨heq, Nat.zero_le _⟩
          · simp only
            rw [if_neg hle]
            refine .inr ⟨q, i + 1, rfl, hlowest.1, ?_⟩
            intro j q' hq'
            cases j with
            | zero =>
              rw [← hzero q' hq']
              exact .inl (not_le.1 hle)
            | succ j =>
              rcases hlowest.2 j q' hq' with hlt | ⟨heq, hle'⟩
              · exact .inl hlt
              · exact .inr ⟨heq, Nat.succ_le_succ hle'⟩

theorem lowestPair_eq_none_iff :
    lowestPair priority xs = none ↔ ∀ i p, ¬ PairAt priority xs i p := by
  constructor
  · intro h
    rcases @lowestPair_spec _ _ priority _ xs with ⟨_, hnone⟩ | ⟨p, i, hsome, _⟩
    · exact hnone
    · rw [h] at hsome
      cases hsome
  · intro h
    rcases @lowestPair_spec _ _ priority _ xs with ⟨hnone, _⟩ | ⟨p, i, _, hlowest⟩
    · exact hnone
    · exact absurd hlowest.1 (h i p)

theorem lowestPair_eq_some_iff : lowestPair priority xs = some (p, i) ↔ Lowest priority xs p i := by
  constructor
  · intro h
    rcases @lowestPair_spec _ _ priority _ xs with ⟨hnone, _⟩ | ⟨q, j, hsome, hlowest⟩
    · rw [h] at hnone
      cases hnone
    · rw [h, Option.some.injEq, Prod.mk.injEq] at hsome
      rw [hsome.1, hsome.2]
      exact hlowest
  · intro h
    rcases @lowestPair_spec _ _ priority _ xs with ⟨_, hnone⟩ | ⟨q, j, hsome, hlowest⟩
    · exact absurd h.1 (hnone i p)
    · obtain ⟨rfl, rfl⟩ := h.unique hlowest
      exact hsome

/-- More rounds change nothing once no pair is left. -/
theorem mergePairs_of_none (h : lowestPair priority xs = none) (rounds : Nat) :
    mergePairs priority join rounds xs = xs := by
  cases rounds with
  | zero => rfl
  | succ rounds =>
    rw [mergePairs, h]

theorem mergePairs_add (rounds more : Nat) (xs : List α) :
    mergePairs priority join (rounds + more) xs =
      mergePairs priority join more (mergePairs priority join rounds xs) := by
  induction rounds generalizing xs with
  | zero => rw [Nat.zero_add, mergePairs]
  | succ rounds ih =>
    rw [Nat.succ_add, mergePairs, mergePairs]
    cases hlow : lowestPair priority xs with
    | none => exact (mergePairs_of_none hlow more).symm
    | some found => exact ih _

/-- What every merge keeps, merging to the end keeps. -/
theorem mergePairs_invariant {P : List α → Prop} (hmerge : ∀ i xs, P xs → P (mergeAt join i xs)) :
    ∀ (rounds : Nat) (xs : List α), P xs → P (mergePairs priority join rounds xs) := by
  intro rounds
  induction rounds with
  | zero =>
    intro xs hxs
    exact hxs
  | succ rounds ih =>
    intro xs hxs
    rw [mergePairs]
    cases lowestPair priority xs with
    | none => exact hxs
    | some found => exact ih _ (hmerge _ _ hxs)

end EdgeLLM.Verified.PairMerging
