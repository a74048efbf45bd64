import Mathlib.Data.BitVec

/-!
# Placements of a matrix in the fields of words

A weight layout puts each entry of a matrix into one field of one word.  A
`Placement` is such a layout with its inverse: a bijection between the entries
and the fields, so what was placed can be read back and nothing is left over.
-/

namespace EdgeLLM.Verified

/-! ## Rows and columns of an index -/

section Index

variable {R C r c i : Nat}

theorem index_lt (hr : r < R) (hc : c < C) : r * C + c < R * C := by
  have hstep : (r + 1) * C ≤ R * C := Nat.mul_le_mul_right C hr
  rw [Nat.succ_mul] at hstep
  omega

theorem index_div (hc : c < C) : (r * C + c) / C = r := by
  rw [Nat.mul_comm, Nat.mul_add_div (by omega), Nat.div_eq_of_lt hc, Nat.add_zero]

theorem index_mod (hc : c < C) : (r * C + c) % C = c := by
  rw [Nat.mul_comm, Nat.mul_add_mod, Nat.mod_eq_of_lt hc]

theorem index_eq (i C : Nat) : i / C * C + i % C = i := by
  rw [Nat.mul_comm]
  exact Nat.div_add_mod i C

theorem row_lt_of_lt (hi : i < R * C) : i / C < R :=
  Nat.div_lt_of_lt_mul (by rwa [Nat.mul_comm])

theorem col_lt_of_lt (hi : i < R * C) : i % C < C :=
  Nat.mod_lt i (Nat.pos_of_mul_pos_left (Nat.zero_lt_of_lt hi))

/-- Two factors that are no larger and have the same product are the same. -/
theorem eq_of_mul_eq_mul {a A b B : Nat} (ha : a ≤ A) (hb : b ≤ B) (hA : 0 < A) (hB : 0 < B)
    (h : a * b = A * B) : a = A ∧ b = B := by
  constructor
  · refine Nat.le_antisymm ha (Nat.le_of_mul_le_mul_right ?_ hB)
    calc A * B = a * b := h.symm
      _ ≤ a * B := Nat.mul_le_mul_left a hb
  · refine Nat.le_antisymm hb (Nat.le_of_mul_le_mul_left ?_ hA)
    calc A * B = a * b := h.symm
      _ ≤ A * b := Nat.mul_le_mul_right b ha

end Index

/-- Field `i` of a word of fields of `d` bits. -/
def field {w : Nat} (d : Nat) (word : BitVec w) (i : Nat) : BitVec d :=
  word.extractLsb' (d * i) d

theorem getLsbD_field {w d i b : Nat} (word : BitVec w) :
    (field d word i).getLsbD b = (decide (b < d) && word.getLsbD (d * i + b)) := by
  rw [field, BitVec.getLsbD_extractLsb']

/-! ## Placements -/

/-- A bijection between the entries of a matrix and the fields of some words. -/
structure Placement where
  rows : Nat
  cols : Nat
  words : Nat
  fields : Nat
  /-- The word and the field of an entry. -/
  place : Nat → Nat → Nat × Nat
  /-- The entry of a field of a word. -/
  entry : Nat → Nat → Nat × Nat
  place_lt : ∀ {n k}, n < rows → k < cols → (place n k).1 < words ∧ (place n k).2 < fields
  entry_lt : ∀ {i j}, i < words → j < fields → (entry i j).1 < rows ∧ (entry i j).2 < cols
  entry_place : ∀ {n k}, n < rows → k < cols → entry (place n k).1 (place n k).2 = (n, k)
  place_entry : ∀ {i j}, i < words → j < fields → place (entry i j).1 (entry i j).2 = (i, j)

namespace Placement

variable (L : Placement)

/-- The entries of the matrix. -/
def entries : Set (Nat × Nat) := {x | x.1 < L.rows ∧ x.2 < L.cols}

/-- The fields of the words. -/
def slots : Set (Nat × Nat) := {x | x.1 < L.words ∧ x.2 < L.fields}

/-- Every field belongs to one entry. -/
theorem bijOn : Set.BijOn (fun x => L.place x.1 x.2) L.entries L.slots := by
  refine ⟨?_, ?_, ?_⟩
  · intro x hx
    exact L.place_lt hx.1 hx.2
  · intro x hx y hy hxy
    have hback := congrArg (fun s => L.entry s.1 s.2) hxy
    dsimp only at hback
    rwa [L.entry_place hx.1 hx.2, L.entry_place hy.1 hy.2] at hback
  · intro s hs
    exact ⟨L.entry s.1 s.2, L.entry_lt hs.1 hs.2, L.place_entry hs.1 hs.2⟩

/-- The entries that are read back. -/
def read {w : Nat} (d : Nat) (word : Nat → BitVec w) (n k : Nat) : BitVec d :=
  field d (word (L.place n k).1) (L.place n k).2

/-- The words hold the matrix. -/
def Holds {w d : Nat} (word : Nat → BitVec w) (code : Nat → Nat → BitVec d) : Prop :=
  ∀ n < L.rows, ∀ k < L.cols, L.read d word n k = code n k

variable {L} {w d : Nat} {word word' : Nat → BitVec w} {code : Nat → Nat → BitVec d}

/-- Field by field. -/
theorem holds_iff : L.Holds word code ↔ ∀ i < L.words, ∀ j < L.fields,
    field d (word i) j = code (L.entry i j).1 (L.entry i j).2 := by
  constructor
  · intro h i hi j hj
    have hentry := L.entry_lt hi hj
    have hread := h _ hentry.1 _ hentry.2
    rwa [read, L.place_entry hi hj] at hread
  · intro h n hn k hk
    have hplace := L.place_lt hn hk
    rw [read, h _ hplace.1 _ hplace.2, L.entry_place hn hk]

/-- Only the words of the placement matter. -/
theorem Holds.congr (h : L.Holds word code) (hword : ∀ i < L.words, word' i = word i) :
    L.Holds word' code := by
  intro n hn k hk
  rw [read, hword _ (L.place_lt hn hk).1]
  exact h n hn k hk

end Placement

section Lossless

variable {w d : Nat} {word : Nat → BitVec w} {code : Nat → Nat → BitVec d}

/-- Words made of the entries of a matrix: every field is the place of one entry
and holds it. -/
structure Lossless (rows cols words fields : Nat) (place : Nat → Nat → Nat × Nat)
    (word : Nat → BitVec w) (code : Nat → Nat → BitVec d) : Prop where
  width : w = d * fields
  bijOn : Set.BijOn (fun x => place x.1 x.2) {x : Nat × Nat | x.1 < rows ∧ x.2 < cols}
    {s : Nat × Nat | s.1 < words ∧ s.2 < fields}
  holds : ∀ n < rows, ∀ k < cols, field d (word (place n k).1) (place n k).2 = code n k

/-- Words that hold a matrix where a placement says. -/
theorem Placement.Holds.lossless {L : Placement} (h : L.Holds word code) (hw : w = d * L.fields) :
    Lossless L.rows L.cols L.words L.fields L.place word code where
  width := hw
  bijOn := L.bijOn
  holds := h

/-- A matrix without entries. -/
theorem lossless_empty {rows cols words fields : Nat} {place : Nat → Nat → Nat × Nat}
    (hw : w = d * fields) (hentries : rows = 0 ∨ cols = 0) (hwords : words = 0) :
    Lossless rows cols words fields place word code where
  width := hw
  bijOn := by
    refine ⟨?_, ?_, ?_⟩
    · intro x hx
      obtain ⟨hrow, hcol⟩ : x.1 < rows ∧ x.2 < cols := hx
      omega
    · intro x hx
      obtain ⟨hrow, hcol⟩ : x.1 < rows ∧ x.2 < cols := hx
      omega
    · intro s hs
      obtain ⟨hword, _⟩ : s.1 < words ∧ s.2 < fields := hs
      omega
  holds := by
    intro n hn k hk
    omega

end Lossless

/-- A matrix continued by a filler. -/
def extended {α : Type*} (N K : Nat) (code : Nat → Nat → α) (filler : α) (n k : Nat) : α :=
  if n < N ∧ k < K then code n k else filler

end EdgeLLM.Verified
