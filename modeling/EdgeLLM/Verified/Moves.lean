import EdgeLLM.Verified.Placement
import EdgeLLM.Verified.Writes
import Mathlib.Data.List.Flatten

/-!
# Moves inside one buffer

A pass that compacts a buffer in place copies cell after cell.  It is the copy
out of the old buffer as long as no move overwrites a cell that a later move
still reads; moves to ascending cells, none of them upwards, are of that kind.
-/

namespace EdgeLLM.Verified

/-! ## Buffers -/

/-- A buffer of `size` cells. -/
structure Buffer (α : Type*) where
  size : Nat
  cell : Nat → α

namespace Buffer

variable {α : Type*}

def contents (b : Buffer α) : List α := (List.range b.size).map b.cell

/-- `assign(count, value)`. -/
def assign (count : Nat) (value : α) : Buffer α := ⟨count, fun _ => value⟩

/-- Perform the writes in order. -/
def store (writes : List (Nat × α)) (b : Buffer α) : Buffer α :=
  { b with cell := writeAll writes b.cell }

theorem store_store (writes more : List (Nat × α)) (b : Buffer α) :
    (b.store writes).store more = b.store (writes ++ more) := by
  unfold store
  rw [writeAll_append]

theorem contents_congr {b b' : Buffer α} (hsize : b.size = b'.size)
    (hcell : ∀ a < b.size, b.cell a = b'.cell a) : b.contents = b'.contents := by
  unfold contents
  rw [← hsize]
  apply List.map_congr_left
  intro a ha
  exact hcell a (List.mem_range.1 ha)

end Buffer

section Moves

variable {κ α : Type*} [DecidableEq κ]

/-- Copy cell `m.2` to cell `m.1`, one move after the other. -/
def moveAll (moves : List (κ × κ)) (buf : κ → α) : κ → α :=
  moves.foldl (fun buf m => Function.update buf m.1 (buf m.2)) buf

/-- No move overwrites a cell that a later one reads. -/
def Unclobbered (moves : List (κ × κ)) : Prop :=
  moves.Pairwise fun earlier later => earlier.1 ≠ later.2

/-- In place is as good as out of place. -/
theorem moveAll_eq_writeAll {moves : List (κ × κ)} {buf : κ → α} (h : Unclobbered moves) :
    moveAll moves buf = writeAll (moves.map fun m => (m.1, buf m.2)) buf := by
  unfold Unclobbered at h
  induction moves generalizing buf with
  | nil => rfl
  | cons m moves ih =>
    rw [List.pairwise_cons] at h
    have hread : ∀ later ∈ moves, Function.update buf m.1 (buf m.2) later.2 = buf later.2 :=
      fun later hlater => Function.update_of_ne (h.1 later hlater).symm _ _
    show moveAll moves (Function.update buf m.1 (buf m.2)) = _
    rw [ih h.2, List.map_cons, writeAll_cons]
    congr 1
    apply List.map_congr_left
    intro later hlater
    rw [hread later hlater]

end Moves

/-- Moves downwards to ascending cells. -/
theorem unclobbered_of_forward {moves : List (Nat × Nat)}
    (hascending : moves.Pairwise fun earlier later => earlier.1 < later.1)
    (hdown : ∀ m ∈ moves, m.1 ≤ m.2) : Unclobbered moves := by
  induction moves with
  | nil => exact List.Pairwise.nil
  | cons m moves ih =>
    rw [List.pairwise_cons] at hascending
    refine List.Pairwise.cons ?_ (ih hascending.2 fun m' hm' => hdown m' (List.mem_cons_of_mem m hm'))
    intro later hlater
    have hlt := hascending.1 later hlater
    have hle := hdown later (List.mem_cons_of_mem m hlater)
    omega

/-! ## Rows of a new pitch -/

/-- Cell `keep i j` of row `i` goes to cell `j` of that row, and the rows from
the old pitch to the new one. -/
def rowMoves (rows oldPitch newPitch : Nat) (count : Nat → Nat) (keep : Nat → Nat → Nat) :
    List (Nat × Nat) :=
  (List.range rows).flatMap fun i =>
    (List.range (count i)).map fun j => (i * newPitch + j, i * oldPitch + keep i j)

section RowMoves

variable {rows oldPitch newPitch : Nat} {count : Nat → Nat} {keep : Nat → Nat → Nat}

theorem mem_rowMoves {m : Nat × Nat} : m ∈ rowMoves rows oldPitch newPitch count keep ↔
    ∃ i < rows, ∃ j < count i, m = (i * newPitch + j, i * oldPitch + keep i j) := by
  unfold rowMoves
  constructor
  · intro hm
    obtain ⟨i, hi, hm⟩ := List.mem_flatMap.1 hm
    obtain ⟨j, hj, rfl⟩ := List.mem_map.1 hm
    exact ⟨i, List.mem_range.1 hi, j, List.mem_range.1 hj, rfl⟩
  · rintro ⟨i, hi, j, hj, rfl⟩
    exact List.mem_flatMap.2
      ⟨i, List.mem_range.2 hi, List.mem_map.2 ⟨j, List.mem_range.2 hj, rfl⟩⟩

/-- The destinations ascend as long as every row fits the new pitch. -/
theorem rowMoves_ascending (hcount : ∀ i < rows, count i ≤ newPitch) :
    (rowMoves rows oldPitch newPitch count keep).Pairwise
      fun earlier later => earlier.1 < later.1 := by
  unfold rowMoves
  rw [List.pairwise_flatMap]
  constructor
  · intro i _
    rw [List.pairwise_map]
    apply List.pairwise_lt_range.imp
    intro j j' hj
    exact Nat.add_lt_add_left hj _
  · apply List.Pairwise.imp_of_mem _ List.pairwise_lt_range
    intro i i' hi _ hlt m hm m' hm'
    obtain ⟨j, hj, rfl⟩ := List.mem_map.1 hm
    obtain ⟨j', -, rfl⟩ := List.mem_map.1 hm'
    have hfits := hcount i (List.mem_range.1 hi)
    have hrow : (i + 1) * newPitch ≤ i' * newPitch := Nat.mul_le_mul_right newPitch hlt
    rw [List.mem_range] at hj
    rw [Nat.succ_mul] at hrow
    dsimp only
    omega

/-- Rows brought to a smaller pitch, each cell no further than it was. -/
theorem rowMoves_forward (hcount : ∀ i < rows, count i ≤ newPitch) (hpitch : newPitch ≤ oldPitch)
    (hkeep : ∀ i < rows, ∀ j < count i, j ≤ keep i j) :
    Unclobbered (rowMoves rows oldPitch newPitch count keep) := by
  apply unclobbered_of_forward (rowMoves_ascending hcount)
  intro m hm
  obtain ⟨i, hi, j, hj, rfl⟩ := mem_rowMoves.1 hm
  exact Nat.add_le_add (Nat.mul_le_mul_left i hpitch) (hkeep i hi j hj)

/-- What the moves leave in the rows of the new pitch. -/
theorem moveAll_rowMoves {α : Type*} {buf : Nat → α} (hcount : ∀ i < rows, count i ≤ newPitch)
    (hpitch : newPitch ≤ oldPitch) (hkeep : ∀ i < rows, ∀ j < count i, j ≤ keep i j) {i j : Nat}
    (hi : i < rows) (hj : j < count i) :
    moveAll (rowMoves rows oldPitch newPitch count keep) buf (i * newPitch + j) =
      buf (i * oldPitch + keep i j) := by
  have hnodup : ((rowMoves rows oldPitch newPitch count keep).map fun m => m.1).Nodup := by
    rw [List.Nodup, List.pairwise_map]
    exact (rowMoves_ascending hcount).imp Nat.ne_of_lt
  have hmove : (i * newPitch + j, i * oldPitch + keep i j) ∈
      rowMoves rows oldPitch newPitch count keep := mem_rowMoves.2 ⟨i, hi, j, hj, rfl⟩
  rw [moveAll_eq_writeAll (rowMoves_forward hcount hpitch hkeep)]
  apply writeAll_of_nodup (w := (i * newPitch + j, buf (i * oldPitch + keep i j)))
  · rw [List.map_map]
    exact hnodup
  · exact List.mem_map.2 ⟨_, hmove, rfl⟩

end RowMoves

section RowWrites

variable {α : Type*}

/-- The writes of a row: `f j` to cell `start + j`. -/
def rowWrites (start count : Nat) (f : Nat → α) : List (Nat × α) :=
  (List.range count).map fun j => (start + j, f j)

variable {rows pitch : Nat} {first count : Nat → Nat} {f : Nat → Nat → α} {buf : Nat → α}
  {i j : Nat}

/-- Rows of one pitch, a part of each written. -/
theorem writeAll_rows (hfits : ∀ k < rows, first k + count k ≤ pitch) (hj : j < pitch) :
    writeAll ((List.range rows).flatMap fun k =>
        rowWrites (k * pitch + first k) (count k) (f k)) buf (i * pitch + j) =
      if i < rows ∧ first i ≤ j ∧ j < first i + count i then f i (j - first i)
      else buf (i * pitch + j) := by
  -- A write to the cell is one of row `i`.
  have hrow : ∀ w ∈ (List.range rows).flatMap (fun k =>
      rowWrites (k * pitch + first k) (count k) (f k)), w.1 = i * pitch + j →
      i < rows ∧ first i ≤ j ∧ j < first i + count i ∧ w.2 = f i (j - first i) := by
    intro w hw hcell
    obtain ⟨k, hk, hw⟩ := List.mem_flatMap.1 hw
    obtain ⟨l, hl, rfl⟩ := List.mem_map.1 hw
    rw [List.mem_range] at hk hl
    have hl' : first k + l < pitch := Nat.lt_of_lt_of_le (Nat.add_lt_add_left hl _) (hfits k hk)
    dsimp only at hcell
    rw [Nat.add_assoc] at hcell
    have hki : k = i := by
      have hdiv := congrArg (· / pitch) hcell
      simpa only [index_div hl', index_div hj] using hdiv
    subst hki
    have hlj : first k + l = j := Nat.add_left_cancel hcell
    subst hlj
    exact ⟨hk, Nat.le_add_right _ _, Nat.add_lt_add_left hl _, by rw [Nat.add_sub_cancel_left]⟩
  by_cases hinside : i < rows ∧ first i ≤ j ∧ j < first i + count i
  · rw [if_pos hinside]
    apply writeAll_of_mem
    · refine ⟨(i * pitch + first i + (j - first i), f i (j - first i)), ?_, ?_⟩
      · apply List.mem_flatMap.2 ⟨i, List.mem_range.2 hinside.1, _⟩
        apply List.mem_map.2 ⟨j - first i, _, rfl⟩
        rw [List.mem_range]
        omega
      · dsimp only
        omega
    · intro w hw hcell
      exact (hrow w hw hcell).2.2.2
  · rw [if_neg hinside]
    apply writeAll_of_notMem
    intro w hw hcell
    obtain ⟨hi, hfirst, hlast, -⟩ := hrow w hw hcell
    exact hinside ⟨hi, hfirst, hlast⟩

/-- Rows written from their starts. -/
theorem writeAll_rows_start (hfits : ∀ k < rows, count k ≤ pitch) (hj : j < pitch) :
    writeAll ((List.range rows).flatMap fun k => rowWrites (k * pitch) (count k) (f k)) buf
        (i * pitch + j) = if i < rows ∧ j < count i then f i j else buf (i * pitch + j) := by
  have h := @writeAll_rows _ rows pitch (fun _ => 0) count f buf i j
    (fun k hk => by rw [Nat.zero_add]; exact hfits k hk) hj
  simpa only [Nat.add_zero, Nat.zero_add, Nat.zero_le, true_and, Nat.sub_zero] using h

theorem writeAll_rowWrites {start count : Nat} {f : Nat → α} {buf : Nat → α} {a : Nat} :
    writeAll (rowWrites start count f) buf a =
      if start ≤ a ∧ a < start + count then f (a - start) else buf a := by
  unfold rowWrites
  by_cases hinside : start ≤ a ∧ a < start + count
  · rw [if_pos hinside]
    apply writeAll_of_mem
    · refine ⟨(start + (a - start), f (a - start)), ?_, Nat.add_sub_cancel' hinside.1⟩
      apply List.mem_map.2 ⟨a - start, _, rfl⟩
      rw [List.mem_range]
      omega
    · intro w hw hcell
      obtain ⟨j, -, rfl⟩ := List.mem_map.1 hw
      dsimp only at hcell ⊢
      rw [← hcell, Nat.add_sub_cancel_left]
  · rw [if_neg hinside]
    apply writeAll_of_notMem
    intro w hw hcell
    obtain ⟨j, hj, rfl⟩ := List.mem_map.1 hw
    rw [List.mem_range] at hj
    dsimp only at hcell
    omega

/-! ## Rows gathered one after the other -/

/-- Row `i` of the new pitch takes `count i` cells of row `i` of the old one; all of
them are read before any is written. -/
def gatherRow (oldPitch newPitch : Nat) (count : Nat → Nat) (keep : Nat → Nat → Nat)
    (buf : Nat → α) (i : Nat) : Nat → α :=
  writeAll (rowWrites (i * newPitch) (count i) fun j => buf (i * oldPitch + keep i j)) buf

variable {oldPitch newPitch rows i j : Nat} {count : Nat → Nat} {keep : Nat → Nat → Nat}
  {buf : Nat → α}

/-- A row that stays in its place with all its cells. -/
theorem gatherRow_self (hplace : i * newPitch = i * oldPitch)
    (hkeep : ∀ j < count i, keep i j = j) : gatherRow oldPitch newPitch count keep buf i = buf := by
  funext a
  unfold gatherRow
  rw [writeAll_rowWrites]
  by_cases hinside : i * newPitch ≤ a ∧ a < i * newPitch + count i
  · rw [if_pos hinside, hkeep _ (by omega), ← hplace, Nat.add_sub_cancel' hinside.1]
  · rw [if_neg hinside]

/-- The rows gathered so far hold what they keep, and the rows to come are as they
were. -/
structure Gathered (oldPitch newPitch : Nat) (count : Nat → Nat) (keep : Nat → Nat → Nat)
    (old new : Nat → α) (rows : Nat) : Prop where
  done : ∀ i < rows, ∀ j < count i, new (i * newPitch + j) = old (i * oldPitch + keep i j)
  rest : ∀ a, rows * oldPitch ≤ a → new a = old a

theorem Gathered.step {old new : Nat → α} (h : Gathered oldPitch newPitch count keep old new rows)
    (hcount : ∀ i ≤ rows, count i ≤ newPitch) (hpitch : newPitch ≤ oldPitch) :
    Gathered oldPitch newPitch count keep old
      (gatherRow oldPitch newPitch count keep new rows) (rows + 1) where
  done := by
    intro i hi j hj
    unfold gatherRow
    rw [writeAll_rowWrites]
    rcases Nat.lt_succ_iff_lt_or_eq.1 hi with hlt | heq
    · have hfits := hcount i (Nat.le_of_lt hlt)
      have hrow : (i + 1) * newPitch ≤ rows * newPitch := Nat.mul_le_mul_right newPitch hlt
      rw [Nat.succ_mul] at hrow
      rw [if_neg (by omega), h.done i hlt j hj]
    · subst heq
      rw [if_pos (by omega), Nat.add_sub_cancel_left, h.rest _ (Nat.le_add_right _ _)]
  rest := by
    intro a ha
    unfold gatherRow
    rw [writeAll_rowWrites]
    have hfits := hcount rows (Nat.le_refl rows)
    have hplace : rows * newPitch ≤ rows * oldPitch := Nat.mul_le_mul_left rows hpitch
    rw [Nat.succ_mul] at ha
    rw [if_neg (by omega), h.rest a (by omega)]

/-- Rows brought to a smaller pitch one after the other hold what they keep. -/
theorem gatherRows_get (hcount : ∀ i < rows, count i ≤ newPitch) (hpitch : newPitch ≤ oldPitch) :
    Gathered oldPitch newPitch count keep buf
      ((List.range rows).foldl (gatherRow oldPitch newPitch count keep) buf) rows := by
  induction rows with
  | zero =>
    refine ⟨?_, fun a _ => rfl⟩
    intro i hi
    cases hi
  | succ rows ih =>
    rw [List.range_succ, List.foldl_append]
    exact (ih fun i hi => hcount i (Nat.lt_succ_of_lt hi)).step
      (fun i hi => hcount i (Nat.lt_succ_of_le hi)) hpitch

end RowWrites

end EdgeLLM.Verified
