import Mathlib.Algebra.BigOperators.Group.List.Basic
import Mathlib.Algebra.Order.Ring.Nat
import Mathlib.Data.List.GetD
import Mathlib.Data.List.Sort

/-!
# Tables

Lists that a counting loop fills or reads: one entry for each index below a
bound, blocks of entries one after the other, and the indices a loop selects.
-/

namespace EdgeLLM.Verified

section Entries

variable {α : Type*} {f : Nat → α} {i n : Nat}

theorem map_range_succ : (List.range (i + 1)).map f = (List.range i).map f ++ [f i] := by
  rw [List.range_succ, List.map_append]
  rfl

theorem flatMap_range_succ {g : Nat → List α} :
    (List.range (i + 1)).flatMap g = (List.range i).flatMap g ++ g i := by
  rw [List.range_succ, List.flatMap_append, List.flatMap_singleton]

theorem getD_map_range {d : α} (hi : i < n) : ((List.range n).map f).getD i d = f i := by
  rw [List.getD_eq_getElem?_getD, List.getElem?_map, List.getElem?_range hi]
  rfl

theorem map_range_getD (xs : List α) (d : α) :
    ((List.range xs.length).map fun i => xs.getD i d) = xs := by
  apply List.ext_getElem
  · rw [List.length_map, List.length_range]
  · intro i _ hi
    rw [List.getElem_map, List.getElem_range, List.getD_eq_getElem _ _ hi]

theorem getD_set {xs : List α} {d v : α} {a : Nat} (hi : i < xs.length) :
    (xs.set i v).getD a d = if a = i then v else xs.getD a d := by
  rw [List.getD_eq_getElem?_getD, List.getD_eq_getElem?_getD, List.getElem?_set, if_pos hi]
  by_cases ha : a = i
  · rw [if_pos ha, if_pos ha.symm]
    rfl
  · rw [if_neg ha, if_neg (Ne.symm ha)]

/-- One entry of a table replaced. -/
theorem set_map_range {v : α} {g : Nat → α} (hv : g i = v) (hg : ∀ j < n, j ≠ i → g j = f j) :
    ((List.range n).map f).set i v = (List.range n).map g := by
  apply List.ext_getElem
  · rw [List.length_set, List.length_map, List.length_map]
  · intro j hj hj'
    rw [List.length_map, List.length_range] at hj'
    rw [List.getElem_set, List.getElem_map, List.getElem_map, List.getElem_range]
    by_cases heq : i = j
    · rw [if_pos heq, ← heq, hv]
    · rw [if_neg heq, hg j hj' (Ne.symm heq)]

/-- The running maximum of a table. -/
theorem le_foldl_max {f : Nat → Nat} (hi : i < n) :
    f i ≤ (List.range n).foldl (fun most i => max most (f i)) 0 := by
  induction n with
  | zero => cases hi
  | succ n ih =>
    rw [List.range_succ, List.foldl_append]
    show f i ≤ max _ (f n)
    rcases Nat.lt_succ_iff_lt_or_eq.1 hi with hlt | heq
    · exact (ih hlt).trans (Nat.le_max_left _ _)
    · rw [heq]
      exact Nat.le_max_right _ _

theorem foldl_max_le {f : Nat → Nat} {bound : Nat} (h : ∀ i < n, f i ≤ bound) :
    (List.range n).foldl (fun most i => max most (f i)) 0 ≤ bound := by
  induction n with
  | zero => exact Nat.zero_le bound
  | succ n ih =>
    rw [List.range_succ, List.foldl_append]
    show max _ (f n) ≤ bound
    exact Nat.max_le.2 ⟨ih fun i hi => h i (Nat.lt_succ_of_lt hi), h n (Nat.lt_succ_self n)⟩

end Entries

section Indices

variable {n pos : Nat} {indices : List Nat}

/-- Ascending indices below a bound. -/
theorem sublist_range (h : indices.Pairwise (· < ·)) (hlt : ∀ i ∈ indices, i < n) :
    indices.Sublist (List.range n) := by
  apply List.sublist_of_subperm_of_sortedLE
  · apply List.subperm_of_subset
    · exact h.imp Nat.ne_of_lt
    · intro i hi
      exact List.mem_range.2 (hlt i hi)
  · exact (h.imp Nat.le_of_lt).sortedLE
  · exact (List.pairwise_lt_range.imp Nat.le_of_lt).sortedLE

theorem eq_filter_range (h : indices.Pairwise (· < ·)) (hlt : ∀ i ∈ indices, i < n) :
    indices = (List.range n).filter fun i => indices.contains i := by
  have hasymm : ∀ a b : Nat, a ∈ indices →
      b ∈ (List.range n).filter (fun i => indices.contains i) → a < b → b < a → a = b := by
    intro a b _ _ hab hba
    omega
  apply List.Perm.eq_of_pairwise hasymm h (List.pairwise_lt_range.filter _)
  rw [List.perm_ext_iff_of_nodup (h.imp Nat.ne_of_lt) (List.nodup_range.filter _)]
  intro i
  rw [List.mem_filter, List.mem_range, List.contains_iff_mem]
  exact ⟨fun hi => ⟨hlt i hi, hi⟩, fun hi => hi.2⟩

/-- What a selecting loop has passed, where it stands and what is left. -/
theorem filter_range_split (selected : Nat → Bool) (hpos : pos < n) :
    ∃ later : List Nat, (∀ i ∈ later, pos < i) ∧ (List.range n).filter selected =
        (List.range pos).filter selected ++ ([pos].filter selected ++ later) := by
  refine ⟨((List.range' (pos + 1) (n - pos - 1)).filter selected), ?_, ?_⟩
  · intro i hi
    have hmem := List.mem_of_mem_filter hi
    rw [List.mem_range'_1] at hmem
    omega
  · have hn : n = pos + 1 + (n - pos - 1) := by omega
    have hrange : List.range n = List.range pos ++ ([pos] ++ List.range' (pos + 1) (n - pos - 1)) := by
      conv_lhs => rw [hn, List.range_add, List.range_succ]
      rw [List.append_assoc, List.range'_eq_map_range]
    rw [hrange, List.filter_append, List.filter_append]

end Indices

/-- Where block `i` starts. -/
def blockStart (count : Nat → Nat) (i : Nat) : Nat := ((List.range i).map count).sum

theorem blockStart_succ (count : Nat → Nat) (i : Nat) :
    blockStart count (i + 1) = blockStart count i + count i := by
  unfold blockStart
  rw [map_range_succ, List.sum_append, List.sum_singleton]

/-- Blocks of consecutive numbers. -/
theorem flatMap_range_blocks (count : Nat → Nat) (blocks : Nat) :
    ((List.range blocks).flatMap fun i =>
        (List.range (count i)).map fun n => blockStart count i + n) =
      List.range (blockStart count blocks) := by
  induction blocks with
  | zero => rfl
  | succ blocks ih => rw [flatMap_range_succ, ih, blockStart_succ, List.range_add]

end EdgeLLM.Verified
