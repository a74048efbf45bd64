import Mathlib.Algebra.BigOperators.Group.List.Basic
import Mathlib.Tactic.Ring

/-!
# Row-major tensors

A tensor is a shape and a value at every multi-index of it.  Its elements lie
in memory in row-major order: the last axis is contiguous.  Reshaping keeps
that order and relabels it, permuting the axes relabels the indices.

A chain of the two is followed backwards, one index at a time: `get_reshape`
asks for the index of the old shape that has the same offset, `get_permute`
holds by evaluation.
-/

namespace EdgeLLM.Verified

/-! ## Indices and offsets -/

/-- The row-major offset of an index. -/
def offset : List Nat → List Nat → Nat
  | _ :: shape, i :: idx => i * shape.prod + offset shape idx
  | _, _ => 0

/-- The index at an offset. -/
def unoffset : List Nat → Nat → List Nat
  | [], _ => []
  | _ :: shape, k => k / shape.prod :: unoffset shape (k % shape.prod)

/-- The index lies within the shape. -/
def InShape (shape idx : List Nat) : Prop := List.Forall₂ (fun d i => i < d) shape idx

section Offsets

variable {d i n : Nat} {shape idx : List Nat}

@[simp] theorem offset_nil : offset [] idx = 0 := rfl

@[simp] theorem offset_cons :
    offset (d :: shape) (i :: idx) = i * shape.prod + offset shape idx := rfl

@[simp] theorem inShape_nil : InShape [] [] := List.Forall₂.nil

@[simp] theorem inShape_cons : InShape (d :: shape) (i :: idx) ↔ i < d ∧ InShape shape idx :=
  List.forall₂_cons

theorem offset_lt (h : InShape shape idx) : offset shape idx < shape.prod := by
  induction h with
  | nil => exact Nat.one_pos
  | @cons d i shape idx hi _ ih =>
    have hstep : (i + 1) * shape.prod ≤ d * shape.prod := Nat.mul_le_mul_right _ hi
    rw [Nat.add_mul] at hstep
    rw [offset_cons, List.prod_cons]
    omega

/-- An index within the shape is recovered from its offset. -/
theorem unoffset_offset (h : InShape shape idx) : unoffset shape (offset shape idx) = idx := by
  induction h with
  | nil => rfl
  | @cons d i shape idx hi hrest ih =>
    have hlt := offset_lt hrest
    rw [offset_cons, unoffset, Nat.mul_comm, Nat.mul_add_mod, Nat.mod_eq_of_lt hlt, ih,
      Nat.mul_add_div (by omega), Nat.div_eq_of_lt hlt, Nat.add_zero]

/-- Distinct indices have distinct offsets. -/
theorem offset_injective {idx' : List Nat} (h : InShape shape idx) (h' : InShape shape idx')
    (heq : offset shape idx = offset shape idx') : idx = idx' := by
  rw [← unoffset_offset h, heq, unoffset_offset h']

theorem offset_unoffset {k : Nat} (h : k < shape.prod) : offset shape (unoffset shape k) = k := by
  induction shape generalizing k with
  | nil =>
    rw [List.prod_nil] at h
    rw [offset_nil]
    omega
  | cons d shape ih =>
    rw [List.prod_cons] at h
    have hpos : 0 < shape.prod := Nat.pos_of_mul_pos_left (Nat.zero_lt_of_lt h)
    rw [unoffset, offset_cons, ih (Nat.mod_lt k hpos), Nat.mul_comm]
    exact Nat.div_add_mod k _

end Offsets

/-! ## Tensors -/

/-- A shape and a value at every index. -/
structure Tensor (α : Type*) where
  shape : List Nat
  get : List Nat → α

namespace Tensor

variable {α β γ : Type*}

/-- The elements in row-major order. -/
def flat (t : Tensor α) (k : Nat) : α := t.get (unoffset t.shape k)

/-- The number of elements. -/
def numel (t : Tensor α) : Nat := t.shape.prod

/-- The length of an axis. -/
def dim (t : Tensor α) (axis : Nat) : Nat := t.shape.getD axis 1

/-- The same elements under another shape. -/
def reshape (t : Tensor α) (shape : List Nat) : Tensor α where
  shape := shape
  get idx := t.flat (offset shape idx)

/-- Axis `i` of the result is axis `axes[i]` of the argument. -/
def permute (t : Tensor α) (axes : List Nat) : Tensor α where
  shape := axes.map fun a => t.dim a
  get idx := t.get ((List.range axes.length).map fun a => idx.getD (axes.idxOf a) 0)

/-- The same value everywhere. -/
def full (shape : List Nat) (a : α) : Tensor α := ⟨shape, fun _ => a⟩

/-- Elementwise. -/
def map (f : α → β) (t : Tensor α) : Tensor β := ⟨t.shape, fun idx => f (t.get idx)⟩

/-- Elementwise, of two tensors of one shape. -/
def zipWith (f : α → β → γ) (t : Tensor α) (u : Tensor β) : Tensor γ :=
  ⟨t.shape, fun idx => f (t.get idx) (u.get idx)⟩

/-- The rows at the given positions, in their order. -/
def selectRows (t : Tensor α) (rows : List Nat) : Tensor α where
  shape := rows.length :: t.shape.tail
  get idx := t.get (rows.getD (idx.headD 0) 0 :: idx.tail)

/-- Assign `source` to the positions `start`, `start + step`, … of an axis. -/
def assign (axis start step : Nat) (source t : Tensor α) : Tensor α where
  shape := t.shape
  get idx :=
    let i := idx.getD axis 0
    if start ≤ i ∧ (i - start) % step = 0 then source.get (idx.set axis ((i - start) / step))
    else t.get idx

/-- One assignment for each of `ks`, in order. -/
def assignAll (axis step : Nat) (ks : List Nat) (start : Nat → Nat) (source : Nat → Tensor α)
    (t : Tensor α) : Tensor α :=
  ks.foldl (fun t k => assign axis (start k) step (source k) t) t

section Get

variable {t : Tensor α} {shape idx : List Nat}

@[simp] theorem get_full (a : α) : (full shape a).get idx = a := rfl

@[simp] theorem get_map (f : α → β) : (t.map f).get idx = f (t.get idx) := rfl

@[simp] theorem get_zipWith (f : α → β → γ) (u : Tensor β) :
    (zipWith f t u).get idx = f (t.get idx) (u.get idx) := rfl

@[simp] theorem shape_map (f : α → β) : (t.map f).shape = t.shape := rfl

@[simp] theorem shape_zipWith (f : α → β → γ) (u : Tensor β) :
    (zipWith f t u).shape = t.shape := rfl

@[simp] theorem shape_assign {axis start step : Nat} {source : Tensor α} :
    (assign axis start step source t).shape = t.shape := rfl

/-- The element at an index, read from memory. -/
theorem flat_offset (h : InShape t.shape idx) : t.flat (offset t.shape idx) = t.get idx := by
  rw [flat, unoffset_offset h]

/-- The element of a matrix, read from memory. -/
theorem flat_matrix {R C i j : Nat} (ht : t.shape = [R, C]) (hi : i < R) (hj : j < C) :
    t.flat (i * C + j) = t.get [i, j] := by
  have hoff : i * C + j = offset t.shape [i, j] := by
    rw [ht]
    simp only [offset_cons, offset_nil, List.prod_cons, List.prod_nil, Nat.mul_one, Nat.add_zero]
  rw [hoff, flat_offset]
  rw [ht]
  simp only [inShape_cons, inShape_nil, and_true]
  exact ⟨hi, hj⟩

/-- A reshaped tensor holds the element whose old index has the same offset. -/
theorem get_reshape (idx' : List Nat) (h : InShape t.shape idx')
    (hoff : offset shape idx = offset t.shape idx') : (t.reshape shape).get idx = t.get idx' := by
  change t.flat (offset shape idx) = t.get idx'
  rw [hoff, flat_offset h]

/-- Reading a reshaped tensor from memory. -/
theorem flat_reshape {k : Nat} (h : k < shape.prod) : (t.reshape shape).flat k = t.flat k := by
  change t.flat (offset shape (unoffset shape k)) = t.flat k
  rw [offset_unoffset h]

end Get

section Assign

variable {axis step i : Nat} {idx ks : List Nat} {start : Nat → Nat} {source : Nat → Tensor α}
variable {t : Tensor α}

@[simp] theorem shape_assignAll : (assignAll axis step ks start source t).shape = t.shape := by
  unfold assignAll
  induction ks generalizing t with
  | nil => rfl
  | cons k ks ih => exact ih.trans shape_assign

/-- An assignment fills the positions that leave its start as remainder. -/
theorem get_assign {k : Nat} {u : Tensor α} (hk : k < step) (hi : idx.getD axis 0 = i) :
    (assign axis k step u t).get idx =
      if i % step = k then u.get (idx.set axis (i / step)) else t.get idx := by
  change (if k ≤ idx.getD axis 0 ∧ (idx.getD axis 0 - k) % step = 0 then _ else _) = _
  rw [hi]
  by_cases hmod : i % step = k
  · have hle : k ≤ i := hmod ▸ Nat.mod_le i step
    have hsub : i - k = step * (i / step) := by
      have := Nat.div_add_mod i step
      omega
    rw [if_pos hmod, hsub, if_pos ⟨hle, Nat.mul_mod_right _ _⟩,
      Nat.mul_div_cancel_left _ (by omega)]
  · have hnot : ¬(k ≤ i ∧ (i - k) % step = 0) := by
      rintro ⟨hle, hzero⟩
      obtain ⟨q, hq⟩ := Nat.dvd_of_mod_eq_zero hzero
      apply hmod
      rw [show i = k + step * q by omega, Nat.add_mul_mod_self_left, Nat.mod_eq_of_lt hk]
    rw [if_neg hmod, if_neg hnot]

/-- When the starts are distinct remainders, each position of the axis holds
what its own assignment gave it. -/
theorem get_assignAll {k : Nat} (hstart : ∀ j ∈ ks, start j < step)
    (hinj : ∀ j ∈ ks, start j = start k → j = k) (hk : k ∈ ks)
    (hi : idx.getD axis 0 = i) (hmod : i % step = start k) :
    (assignAll axis step ks start source t).get idx = (source k).get (idx.set axis (i / step)) := by
  -- `P`: the position is filled already, or its assignment is still to come
  have hrun : ∀ (js : List Nat) (u : Tensor α), (∀ j ∈ js, j ∈ ks) →
      (k ∈ js ∨ u.get idx = (source k).get (idx.set axis (i / step))) →
      (assignAll axis step js start source u).get idx =
        (source k).get (idx.set axis (i / step)) := by
    intro js
    induction js with
    | nil =>
      intro u _ hfilled
      exact hfilled.resolve_left List.not_mem_nil
    | cons j js ih =>
      intro u hsub hfilled
      apply ih (assign axis (start j) step (source j) u)
        (fun l hl => hsub l (List.mem_cons_of_mem j hl))
      have hj := hsub j List.mem_cons_self
      by_cases hjk : j = k
      · right
        rw [hjk, get_assign (hstart k hk) hi, if_pos hmod]
      · refine hfilled.imp (fun hmem => ?_) (fun hu => ?_)
        · exact (List.mem_cons.1 hmem).resolve_left (fun h => hjk h.symm)
        · have hne : i % step ≠ start j := by
            intro h
            exact hjk (hinj j hj (h.symm.trans hmod))
          rw [get_assign (hstart j hj) hi, if_neg hne, hu]
  exact hrun ks t (fun _ h => h) (Or.inl hk)

end Assign

end Tensor

end EdgeLLM.Verified
