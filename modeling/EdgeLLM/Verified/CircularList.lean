import Mathlib.Data.List.Nodup
import Mathlib.Data.Nat.ModEq

/-!
# Circular free lists

A fixed buffer of cells, a head and a count.  The live part is the *window*:
the `count` cells starting at `head`, read modulo the buffer length.  `push`
and `pop` are a FIFO queue on the window; everything that a client of the ring
needs is stated on the window, so the modular arithmetic stays in this file.
-/

namespace EdgeLLM.Verified

/-- A circular buffer: backing cells, first live position, live count. -/
structure CircularList (α : Type*) where
  cells : List α
  head : Nat
  count : Nat

namespace CircularList

variable {α : Type*}

/-- The ring whose window is all of `xs`. -/
def full (xs : List α) : CircularList α := ⟨xs, 0, xs.length⟩

/-- The cell `k` places after the head. -/
def peek (r : CircularList α) (k : Nat) : Option α := r.cells[(r.head + k) % r.cells.length]?

/-- The live cells in queue order. -/
def window (r : CircularList α) : List α := (List.range r.count).filterMap r.peek

/-- Drop the first live cell. -/
def pop (r : CircularList α) : CircularList α :=
  { r with head := (r.head + 1) % r.cells.length, count := r.count - 1 }

/-- Write `x` behind the last live cell. -/
def push (r : CircularList α) (x : α) : CircularList α :=
  { r with
    cells := r.cells.set ((r.head + r.count) % r.cells.length) x
    count := r.count + 1 }

/-- The head is a position of the buffer and the window fits into it. -/
structure WF (r : CircularList α) : Prop where
  head_lt : 0 < r.cells.length → r.head < r.cells.length
  count_le : r.count ≤ r.cells.length

theorem full_wf (xs : List α) : (full xs).WF where
  head_lt := id
  count_le := Nat.le_refl _

@[simp] theorem pop_cells (r : CircularList α) : r.pop.cells = r.cells := rfl

@[simp] theorem pop_count (r : CircularList α) : r.pop.count = r.count - 1 := rfl

@[simp] theorem push_count (r : CircularList α) (x : α) : (r.push x).count = r.count + 1 := rfl

@[simp] theorem push_length (r : CircularList α) (x : α) :
    (r.push x).cells.length = r.cells.length := by
  simp [push]

variable {r : CircularList α} {k n : Nat}

theorem WF.pop (h : r.WF) : r.pop.WF where
  head_lt hpos := Nat.mod_lt _ hpos
  count_le := by
    have := h.count_le
    simp only [pop_count, pop_cells]
    omega

theorem WF.push (h : r.WF) (hroom : r.count < r.cells.length) (x : α) : (r.push x).WF where
  head_lt _ := by
    rw [push_length]
    exact h.head_lt (Nat.zero_lt_of_lt hroom)
  count_le := by
    rw [push_count, push_length]
    exact hroom

/-- Inside the window every position holds a cell. -/
theorem WF.peek_isSome (h : r.WF) (hk : k < r.count) : ∃ x, r.peek k = some x := by
  have hpos : 0 < r.cells.length := Nat.lt_of_lt_of_le (by omega) h.count_le
  exact ⟨_, List.getElem?_eq_getElem (Nat.mod_lt _ hpos)⟩

theorem WF.window_length (h : r.WF) : r.window.length = r.count := by
  unfold window
  have hall : ∀ n, n ≤ r.count → ((List.range n).filterMap r.peek).length = n := by
    intro n hn
    induction n with
    | zero => rfl
    | succ n ih =>
      obtain ⟨x, hx⟩ := h.peek_isSome (k := n) (by omega)
      simp [List.range_succ, List.filterMap_append, hx, ih (by omega)]
  exact hall _ (Nat.le_refl _)

theorem full_window (xs : List α) : (full xs).window = xs := by
  unfold window
  have hall : ∀ n, n ≤ xs.length → (List.range n).filterMap (full xs).peek = xs.take n := by
    intro n hn
    induction n with
    | zero => simp
    | succ n ih =>
      have hlt : n < xs.length := by omega
      have hpeek : (full xs).peek n = some xs[n] := by
        simp [peek, full, Nat.mod_eq_of_lt hlt]
      rw [List.range_succ, List.filterMap_append, ih (by omega), List.take_add_one]
      simp [hpeek, hlt]
  exact (hall xs.length (Nat.le_refl _)).trans List.take_length

/-- Positions after a pop are the positions of the old ring moved by one. -/
theorem peek_pop (r : CircularList α) (k : Nat) : r.pop.peek k = r.peek (k + 1) := by
  simp only [peek, pop, Nat.mod_add_mod]
  congr 2
  omega

/-- `pop` removes the first element of the window. -/
theorem WF.window_pop (h : r.WF) (hpos : 0 < r.count) :
    ∃ x, r.peek 0 = some x ∧ r.window = x :: r.pop.window := by
  obtain ⟨x, hx⟩ := h.peek_isSome hpos
  refine ⟨x, hx, ?_⟩
  obtain ⟨n, hn⟩ : ∃ n, r.count = n + 1 := ⟨r.count - 1, by omega⟩
  have hpeek : r.pop.peek = r.peek ∘ Nat.succ := by
    funext k
    exact peek_pop r k
  simp only [window, pop_count, hn, Nat.add_sub_cancel, List.range_succ_eq_map,
    List.filterMap_cons, hx, List.filterMap_map, hpeek]

/-- Two distinct offsets below the buffer length address distinct cells. -/
private theorem offset_mod_ne {h i c : Nat} (hi : i < n) (hn : n < c) : (h + i) % c ≠
    (h + n) % c := by
  intro he
  have hmod : i ≡ n [MOD c] := Nat.ModEq.add_left_cancel' h he
  have heq := hmod.eq_of_lt_of_lt (Nat.lt_trans hi hn) hn
  omega

/-- `push` appends to the window as long as there is room. -/
theorem window_push (hroom : r.count < r.cells.length) (x : α) :
    (r.push x).window = r.window ++ [x] := by
  have hpos : 0 < r.cells.length := Nat.zero_lt_of_lt hroom
  have hlast : (r.push x).peek r.count = some x := by
    simp [peek, push, Nat.mod_lt _ hpos]
  have hold : ∀ k ∈ List.range r.count, (r.push x).peek k = r.peek k := by
    intro k hk
    have hne := offset_mod_ne (h := r.head) (List.mem_range.1 hk) hroom
    simp [peek, push, List.getElem?_set_ne (Ne.symm hne)]
  unfold window
  rw [push_count, List.range_succ, List.filterMap_append, List.filterMap_congr hold]
  simp [hlast]

/-- Reading ahead of the head is reading the window. -/
theorem WF.peek_eq_window (h : r.WF) (hk : k < r.count) : r.peek k = r.window[k]? := by
  induction k generalizing r with
  | zero =>
    obtain ⟨x, hx, hw⟩ := h.window_pop hk
    rw [hx, hw]
    rfl
  | succ k ih =>
    obtain ⟨x, hx, hw⟩ := h.window_pop (by omega)
    rw [hw, List.getElem?_cons_succ, ← peek_pop]
    exact ih h.pop (by simp only [pop_count]; omega)

/-- Reading `n` cells ahead reads the first `n` of the window. -/
theorem WF.filterMap_peek (h : r.WF) (hn : n ≤ r.count) :
    (List.range n).filterMap r.peek = r.window.take n := by
  induction n with
  | zero => simp
  | succ n ih =>
    rw [List.range_succ, List.filterMap_append, ih (by omega), List.take_add_one,
      ← h.peek_eq_window (by omega)]
    cases hp : r.peek n <;> simp [hp]

end CircularList

end EdgeLLM.Verified
