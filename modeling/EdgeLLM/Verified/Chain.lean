import Mathlib.Data.List.Basic
import Mathlib.Data.List.TakeDrop

/-!
# Chained values

A chain starts at a root and takes one link after another; each link sees the
value before it.  `collect` is the loop that keeps the value after every link.
-/

namespace EdgeLLM.Verified.Chain

variable {α : Type*}

/-- The value of the chain after `count` links. -/
def value (link : Nat → α → α) (root : α) : Nat → α
  | 0 => root
  | count + 1 => link count (value link root count)

/-- The values after the first, the second, up to the last of `count` links. -/
def links (link : Nat → α → α) (root : α) (count : Nat) : List α :=
  (List.range count).map fun index => value link root (index + 1)

/-- One pass of the loop: the value goes on and is kept. -/
def extend (link : Nat → α → α) (state : α × List α) (index : Nat) : α × List α :=
  (link index state.1, state.2 ++ [link index state.1])

def collect (link : Nat → α → α) (root : α) (count : Nat) : List α :=
  ((List.range count).foldl (extend link) (root, [])).2

variable {link link' : Nat → α → α} {root : α} {count : Nat}

theorem foldl_extend (link : Nat → α → α) (root : α) (count : Nat) :
    (List.range count).foldl (extend link) (root, []) =
      (value link root count, links link root count) := by
  induction count with
  | zero => rfl
  | succ count ih =>
    rw [List.range_succ, List.foldl_append, ih]
    simp [extend, links, value, List.range_succ]

theorem collect_eq (link : Nat → α → α) (root : α) (count : Nat) :
    collect link root count = links link root count := by
  rw [collect, foldl_extend]

@[simp] theorem length_links : (links link root count).length = count := by
  simp [links]

theorem getElem?_links {index : Nat} (h : index < count) :
    (links link root count)[index]? = some (value link root (index + 1)) := by
  simp [links, List.getElem?_range h]

theorem links_take {n : Nat} (h : n ≤ count) :
    (links link root count).take n = links link root n := by
  rw [links, ← List.map_take, List.take_range, Nat.min_eq_left h, links]

theorem value_congr (h : ∀ index < count, ∀ a, link index a = link' index a) :
    value link root count = value link' root count := by
  induction count with
  | zero => rfl
  | succ count ih =>
    rw [value, value, ih fun index hindex => h index (Nat.lt_succ_of_lt hindex)]
    exact h count (Nat.lt_succ_self count) _

theorem links_congr (h : ∀ index < count, ∀ a, link index a = link' index a) :
    links link root count = links link' root count := by
  apply List.map_congr_left
  intro index hindex
  apply value_congr
  intro i hi a
  rw [List.mem_range] at hindex
  exact h i (by omega) a

/-- The last value kept, or the root of a chain without links. -/
theorem getLastD_links (link : Nat → α → α) (root : α) (count : Nat) :
    (links link root count).getLast?.getD root = value link root count := by
  cases count with
  | zero => rfl
  | succ count => simp [links, List.range_succ]

end EdgeLLM.Verified.Chain
