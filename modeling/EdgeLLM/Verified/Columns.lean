import Mathlib.Logic.Equiv.Basic
import Mathlib.Data.List.GetD

/-!
# Parallel columns

A table kept as one list for each of its columns.  Two rows are exchanged, and rows
are dropped, by the same operation on every column; the module says what such an
operation does to the row at an index.
-/

namespace EdgeLLM.Verified

variable {α β : Type}

/-- Two entries exchanged; a list without both keeps what it has. -/
def swapAt (a b : Nat) (xs : List α) : List α :=
  match xs[a]?, xs[b]? with
  | some x, some y => (xs.set a y).set b x
  | _, _ => xs

@[simp] theorem length_swapAt (a b : Nat) (xs : List α) : (swapAt a b xs).length = xs.length := by
  rw [swapAt]
  split
  · rw [List.length_set, List.length_set]
  · rfl

@[simp] theorem swapAt_nil (a b : Nat) : swapAt a b ([] : List α) = [] := rfl

variable {xs : List α} {ys : List β} {j : Nat}
variable (gone : List Bool)

theorem getElem?_swapAt {a b : Nat} (ha : a < xs.length) (hb : b < xs.length) (i : Nat) :
    (swapAt a b xs)[i]? = xs[Equiv.swap a b i]? := by
  rw [swapAt, List.getElem?_eq_getElem ha, List.getElem?_eq_getElem hb]
  dsimp only
  rw [Equiv.swap_apply_def, List.getElem?_set, List.getElem?_set, List.length_set]
  by_cases hib : b = i
  · subst hib
    rw [if_pos rfl, if_pos hb]
    split
    · rename_i hba
      subst hba
      rw [List.getElem?_eq_getElem hb]
    · rw [if_pos rfl, List.getElem?_eq_getElem ha]
  · rw [if_neg hib, if_neg (Ne.symm hib)]
    by_cases hia : a = i
    · subst hia
      rw [if_pos rfl, if_pos ha, if_pos rfl, List.getElem?_eq_getElem hb]
    · rw [if_neg hia, if_neg (Ne.symm hia)]

/-! ## Dropping rows -/

/-- The entries that are not marked as gone. -/
def keepBy : List Bool → List α → List α
  | gone :: rest, x :: xs => if gone then keepBy rest xs else x :: keepBy rest xs
  | _, _ => []

attribute [local simp] keepBy

@[simp] theorem keepBy_nil : keepBy gone ([] : List α) = [] := by
  cases gone <;> rfl

theorem keepBy_map (f : α → β) (gone : List Bool) (xs : List α) :
    keepBy gone (xs.map f) = (keepBy gone xs).map f := by
  induction gone generalizing xs with
  | nil => rfl
  | cons g rest ih =>
    cases xs with
    | nil => rfl
    | cons x xs =>
      rw [List.map_cons, keepBy, keepBy, ih]
      split <;> rfl

/-- Dropping by a test on the entries themselves. -/
theorem keepBy_map_self (p : α → Bool) (xs : List α) :
    keepBy (xs.map p) xs = xs.filter fun x => !p x := by
  induction xs with
  | nil => rfl
  | cons x xs ih =>
    rw [List.map_cons, keepBy, ih, List.filter_cons]
    cases p x <;> rfl

theorem keepBy_sublist (xs : List α) : (keepBy gone xs).Sublist xs := by
  induction gone generalizing xs with
  | nil => exact List.nil_sublist xs
  | cons g rest ih =>
    cases xs with
    | nil => exact List.Sublist.refl []
    | cons x xs =>
      rw [keepBy]
      split
      · exact (ih xs).cons x
      · exact (ih xs).cons_cons x

theorem length_keepBy (h : xs.length = ys.length) :
    (keepBy gone xs).length = (keepBy gone ys).length := by
  induction gone generalizing xs ys with
  | nil => rfl
  | cons g rest ih =>
    cases xs with
    | nil =>
      cases ys with
      | nil => rfl
      | cons y ys => cases h
    | cons x xs =>
      cases ys with
      | nil => cases h
      | cons y ys =>
        have htail := ih (Nat.succ.inj h)
        rw [keepBy, keepBy]
        split
        · exact htail
        · rw [List.length_cons, List.length_cons, htail]

/-- Nothing is kept beyond the marks. -/
theorem length_keepBy_le (xs : List α) (h : gone.length ≤ ys.length) :
    (keepBy gone xs).length ≤ (keepBy gone ys).length := by
  induction gone generalizing xs ys with
  | nil => exact Nat.zero_le _
  | cons g rest ih =>
    cases xs with
    | nil => exact Nat.zero_le _
    | cons x xs =>
      cases ys with
      | nil => cases h
      | cons y ys =>
        have htail := ih xs (Nat.le_of_succ_le_succ h)
        rw [keepBy, keepBy]
        split
        · exact htail
        · exact Nat.succ_le_succ htail

/-- The indices that stay. -/
def keptIndices (gone : List Bool) : List Nat :=
  keepBy gone (List.range gone.length)

theorem lt_of_mem_keptIndices {gone : List Bool} {i : Nat} (h : i ∈ keptIndices gone) :
    i < gone.length :=
  List.mem_range.1 ((keepBy_sublist gone _).subset h)

/-- The entry at `j` is the old entry at the index that is kept as number `j`. -/
theorem getElem?_keepBy (hj : j < (keptIndices gone).length) :
    ∀ xs : List α, (keepBy gone xs)[j]? = xs[(keptIndices gone)[j]]? := by
  -- the induction counts the indices from where the rest of the list starts
  have hfrom : ∀ (gone : List Bool) (start j i : Nat),
      (keepBy gone (List.range' start gone.length))[j]? = some i →
        start ≤ i ∧ ∀ xs : List α, (keepBy gone xs)[j]? = xs[i - start]? := by
    intro gone
    induction gone with
    | nil =>
      intro start j i h
      cases h
    | cons g rest ih =>
      intro start j i h
      rw [List.length_cons, List.range'_succ, keepBy] at h
      have hcons : ∀ (x : α) (xs : List α), start + 1 ≤ i →
          xs[i - (start + 1)]? = (x :: xs)[i - start]? := by
        intro x xs hle
        rw [show i - start = (i - (start + 1)) + 1 by omega, List.getElem?_cons_succ]
      cases g with
      | true =>
        obtain ⟨hle, hxs⟩ := ih (start + 1) j i h
        refine ⟨by omega, ?_⟩
        intro xs
        cases xs with
        | nil => rfl
        | cons x xs =>
          rw [keepBy, if_pos rfl, hxs, hcons x xs hle]
      | false =>
        cases j with
        | zero =>
          rw [if_neg Bool.false_ne_true, List.getElem?_cons_zero, Option.some.injEq] at h
          rw [← h, Nat.sub_self]
          refine ⟨Nat.le_refl _, ?_⟩
          intro xs
          cases xs <;> rfl
        | succ j =>
          rw [if_neg Bool.false_ne_true, List.getElem?_cons_succ] at h
          obtain ⟨hle, hxs⟩ := ih (start + 1) j i h
          refine ⟨by omega, ?_⟩
          intro xs
          cases xs with
          | nil => rfl
          | cons x xs =>
            rw [keepBy, if_neg Bool.false_ne_true, List.getElem?_cons_succ, hxs, hcons x xs hle]
  have hkept : (keepBy gone (List.range' 0 gone.length))[j]? = some (keptIndices gone)[j] := by
    rw [← List.range_eq_range']
    exact List.getElem?_eq_getElem hj
  intro xs
  exact (hfrom gone 0 j _ hkept).2 xs

/-- The kept indices under a function, counted from zero. -/
theorem map_range_keptIndices (f : Nat → β) :
    ((List.range (keptIndices gone).length).map fun j => f ((keptIndices gone).getD j 0)) =
      keepBy gone ((List.range gone.length).map f) := by
  rw [keepBy_map]
  apply List.ext_getElem
  · rw [List.length_map, List.length_range, List.length_map, keptIndices]
  · intro j hj _
    rw [List.length_map, List.length_range] at hj
    rw [List.getElem_map, List.getElem_map, List.getElem_range, List.getD_eq_getElem _ _ hj]
    rfl

/-! ## Reindexing -/

theorem map_getD_range (xs : List α) (d : α) :
    (List.range xs.length).map (fun i => xs.getD i d) = xs := by
  apply List.ext_getElem
  · rw [List.length_map, List.length_range]
  · intro i _ hi
    rw [List.getElem_map, List.getElem_range, List.getD_eq_getElem _ _ hi]

/-- The operation takes every list of `n` entries to one of `m`, whose entry `j` is the
old entry `source j`. -/
structure Reindexes (op : (α : Type) → List α → List α) (n m : Nat) (source : Nat → Nat) :
    Prop where
  empty : ∀ α : Type, op α [] = []
  length : ∀ (α : Type) (xs : List α), xs.length = n → (op α xs).length = m
  source_lt : ∀ j, j < m → source j < n
  getElem? : ∀ (α : Type) (xs : List α), xs.length = n → ∀ j, j < m →
    (op α xs)[j]? = xs[source j]?

theorem Reindexes.getD {op : (α : Type) → List α → List α} {n m : Nat} {source : Nat → Nat}
    (h : Reindexes op n m source) (hlength : xs.length = n) (hj : j < m) (d : α) :
    (op α xs).getD j d = xs.getD (source j) d := by
  rw [List.getD_eq_getElem?_getD, List.getD_eq_getElem?_getD, h.getElem? α xs hlength j hj]

theorem reindexes_swapAt {a b n : Nat} (ha : a < n) (hb : b < n) :
    Reindexes (fun _ => swapAt a b) n n (Equiv.swap a b) where
  empty := fun _ => rfl
  length := fun _ xs hlength => (length_swapAt a b xs).trans hlength
  source_lt := by
    intro j hj
    rw [Equiv.swap_apply_def]
    split
    · exact hb
    · split
      · exact ha
      · exact hj
  getElem? := fun _ xs hlength j _ =>
    getElem?_swapAt (by rw [hlength]; exact ha) (by rw [hlength]; exact hb) j

theorem reindexes_keepBy : Reindexes (fun _ => keepBy gone) gone.length (keptIndices gone).length
      (fun j => (keptIndices gone).getD j 0) where
  empty := fun _ => keepBy_nil gone
  length := fun _ _ hlength => length_keepBy gone (hlength.trans List.length_range.symm)
  source_lt := by
    intro j hj
    rw [List.getD_eq_getElem _ _ hj]
    exact lt_of_mem_keptIndices (List.getElem_mem hj)
  getElem? := by
    intro α xs _ j hj
    rw [List.getD_eq_getElem _ _ hj]
    exact getElem?_keepBy gone hj xs

end EdgeLLM.Verified
