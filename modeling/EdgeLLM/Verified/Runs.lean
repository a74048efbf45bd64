import Mathlib.Algebra.Order.Ring.Nat
import Mathlib.Data.List.Basic
import Mathlib.Data.List.Induction
import Mathlib.Data.List.TakeDrop

/-!
# Runs of a predicate, and suppliers consumed in order

A run is a maximal stretch of a list on which a predicate holds.  `closed` counts
the runs that have ended, so at an element of a run it is the number of that run.

Suppliers of given sizes are consumed in order: `supplier` tells which one gives
the `k`-th item.
-/

namespace EdgeLLM.Verified.Runs

variable {α : Type*}

/-- The runs of `p` that have ended within the list. -/
def closed (p : α → Bool) : List α → Nat
  | [] => 0
  | [_] => 0
  | a :: b :: rest => (if p a && !p b then 1 else 0) + closed p (b :: rest)

/-- The last element of the list is in a run. -/
def open? (p : α → Bool) (l : List α) : Bool := l.getLast?.any p

variable {p : α → Bool}

theorem closed_append (p : α → Bool) (l : List α) (x : α) :
    closed p (l ++ [x]) = closed p l + if open? p l && !p x then 1 else 0 := by
  induction l with
  | nil => rfl
  | cons a l ih =>
    cases l with
    | nil => simp [closed, open?]
    | cons b rest =>
      have hlast : open? p (a :: b :: rest) = open? p (b :: rest) := rfl
      rw [List.cons_append] at ih
      rw [List.cons_append, List.cons_append, closed, closed, ih, hlast, Nat.add_assoc]

@[simp] theorem open?_append (p : α → Bool) (l : List α) (x : α) : open? p (l ++ [x]) = p x := by
  simp [open?]

variable {r i j k : Nat} {sizes : List Nat}

/-- The runs that have begun: those that have ended and an open one. -/
theorem exists_of_lt_begun (l : List α) (hr : r < closed p l + if open? p l then 1 else 0) :
    ∃ i x, l[i]? = some x ∧ p x = true ∧ closed p (l.take (i + 1)) = r := by
  induction l using List.reverseRecOn with
  | nil => simp [closed, open?] at hr
  | append_singleton l x ih =>
    have hlift {i : Nat} {y : α} (hi : l[i]? = some y) :
        (l ++ [x])[i]? = some y ∧ (l ++ [x]).take (i + 1) = l.take (i + 1) := by
      obtain ⟨hlt, -⟩ := List.getElem?_eq_some_iff.1 hi
      exact ⟨by rw [List.getElem?_append_left hlt, hi], List.take_append_of_le_length hlt⟩
    by_cases hold : r < closed p l + if open? p l then 1 else 0
    · obtain ⟨i, y, hi, hy, hclosed⟩ := ih hold
      obtain ⟨hget, htake⟩ := hlift hi
      exact ⟨i, y, hget, hy, htake ▸ hclosed⟩
    · -- `x` begins the run
      rw [closed_append, open?_append] at hr
      cases hopen : open? p l with
      | true => cases hx : p x <;> simp [hopen, hx] at hr hold <;> omega
      | false =>
        cases hx : p x with
        | false => simp [hopen, hx] at hr hold; omega
        | true =>
          have hclosed : closed p (l ++ [x]) = r := by
            rw [closed_append]
            simp [hopen, hx] at hr hold ⊢
            omega
          refine ⟨l.length, x, by simp, hx, ?_⟩
          rwa [List.take_of_length_le (by simp)]

/-- At an element of a run every run up to it has begun. -/
theorem exists_of_le_closed {l : List α} {x : α} (hi : l[i]? = some x) (hx : p x = true)
    (hr : r ≤ closed p (l.take (i + 1))) :
    ∃ j y, j ≤ i ∧ l[j]? = some y ∧ p y = true ∧ closed p (l.take (j + 1)) = r := by
  have hopen : open? p (l.take (i + 1)) = true := by
    rw [List.take_add_one, hi]
    simpa using hx
  obtain ⟨j, y, hj, hy, hclosed⟩ := exists_of_lt_begun (l.take (i + 1)) (by
    rw [hopen]
    exact Nat.lt_succ_of_le hr)
  have hlt : j < i + 1 := by
    obtain ⟨hlt, -⟩ := List.getElem?_eq_some_iff.1 hj
    exact Nat.lt_of_lt_of_le hlt (List.length_take_le _ _)
  refine ⟨j, y, Nat.le_of_lt_succ hlt, ?_, hy, ?_⟩
  · rwa [List.getElem?_take_of_lt hlt] at hj
  · rwa [List.take_take, Nat.min_eq_left (by omega)] at hclosed

theorem closed_take_mono (p : α → Bool) (l : List α) (h : i ≤ j) :
    closed p (l.take i) ≤ closed p (l.take j) := by
  induction j, h using Nat.le_induction with
  | base => exact Nat.le_refl _
  | succ j _ ih =>
    apply Nat.le_trans ih
    rw [List.take_add_one]
    cases l[j]? with
    | none => simp
    | some x =>
      rw [Option.toList_some, closed_append]
      exact Nat.le_add_right _ _

/-- Which of the suppliers of these sizes gives the `k`-th item. -/
def supplier : List Nat → Nat → Option Nat
  | [], _ => none
  | size :: rest, k => if k < size then some 0 else (supplier rest (k - size)).map (· + 1)

theorem supplier_congr {sizes' : List Nat} (h : supplier sizes k = some j)
    (htake : sizes.take (j + 1) = sizes'.take (j + 1)) : supplier sizes' k = some j := by
  induction sizes generalizing sizes' k j with
  | nil => contradiction
  | cons size rest ih =>
    cases sizes' with
    | nil => simp at htake
    | cons size' rest' =>
      rw [List.take_succ_cons, List.take_succ_cons, List.cons.injEq] at htake
      obtain ⟨rfl, htake⟩ := htake
      rw [supplier] at h ⊢
      by_cases hk : k < size
      · rw [if_pos hk] at h ⊢
        exact h
      · rw [if_neg hk] at h ⊢
        obtain ⟨m, hm, rfl⟩ := Option.map_eq_some_iff.1 h
        rw [ih hm htake, Option.map_some]

/-- The supplier that is found gives something. -/
theorem supplier_pos (h : supplier sizes k = some j) :
    ∃ size, sizes[j]? = some size ∧ 0 < size := by
  induction sizes generalizing k j with
  | nil => contradiction
  | cons size rest ih =>
    rw [supplier] at h
    by_cases hk : k < size
    · rw [if_pos hk] at h
      cases h
      exact ⟨size, rfl, Nat.lt_of_le_of_lt (Nat.zero_le k) hk⟩
    · rw [if_neg hk] at h
      obtain ⟨m, hm, rfl⟩ := Option.map_eq_some_iff.1 h
      exact ih hm

/-- Together the suppliers give as many items as their sizes add up to. -/
theorem supplier_isSome (h : k < sizes.sum) : ∃ j, supplier sizes k = some j := by
  induction sizes generalizing k with
  | nil => simp at h
  | cons size rest ih =>
    rw [supplier]
    by_cases hk : k < size
    · exact ⟨0, if_pos hk⟩
    · rw [List.sum_cons] at h
      obtain ⟨j, hj⟩ := ih (k := k - size) (by omega)
      exact ⟨j + 1, by rw [if_neg hk, hj, Option.map_some]⟩
/-! ## Elements fed by suppliers

The elements of a predicate consume what the suppliers give, one item each. -/

section Feeding

variable {β : Type*} {size : β → Nat} {bs bs' : List β} {l : List α} {i : Nat}

/-- Which supplier feeds the `i`-th element of the list. -/
def feeder (p : α → Bool) (size : β → Nat) (bs : List β) (l : List α) (i : Nat) : Option Nat :=
  supplier (bs.map size) ((l.take i).countP p)

def fedBy (p : α → Bool) (size : β → Nat) (bs : List β) (l : List α) (i : Nat) : Option β :=
  (feeder p size bs l i).bind fun j => bs[j]?

/-- The number of the run the `i`-th element is in. -/
def runAt (p : α → Bool) (l : List α) (i : Nat) : Nat := closed p (l.take (i + 1))

/-- No element is fed by a supplier behind that of its run. -/
def InOrder (p : α → Bool) (size : β → Nat) (bs : List β) (l : List α) : Prop :=
  ∀ i x j, l[i]? = some x → p x = true → feeder p size bs l i = some j → j ≤ runAt p l i

/-- Exactly the elements of `p` are fed. -/
theorem feeder_isSome {x : α} (hi : l[i]? = some x) (hx : p x = true)
    (hfits : l.countP p = (bs.map size).sum) : ∃ j, feeder p size bs l i = some j := by
  apply supplier_isSome
  rw [← hfits]
  obtain ⟨hlt, hget⟩ := List.getElem?_eq_some_iff.1 hi
  have hsplit := congrArg (List.countP p) (List.take_append_drop i l)
  rw [List.countP_append, List.drop_eq_getElem_cons hlt, hget, List.countP_cons_of_pos hx] at hsplit
  omega

theorem fedBy_eq {j : Nat} (h : feeder p size bs l i = some j) : fedBy p size bs l i = bs[j]? := by
  rw [fedBy, h, Option.bind_some]

/-- If no element is fed from behind its run and the suppliers of all runs so far are the same, the
element is fed by the same supplier. -/
theorem fedBy_congr (horder : InOrder p size bs l) (hfits : l.countP p = (bs.map size).sum) {x : α}
    (hi : l[i]? = some x) (hx : p x = true)
    (hsame : ∀ k y, k ≤ i → l[k]? = some y → p y = true → bs[runAt p l k]? = bs'[runAt p l k]?) :
    fedBy p size bs l i = fedBy p size bs' l i := by
  obtain ⟨j, hj⟩ := feeder_isSome hi hx hfits
  have hle := horder i x j hi hx hj
  have hbuffer {r : Nat} (hr : r ≤ runAt p l i) : bs[r]? = bs'[r]? := by
    obtain ⟨k, y, hk, hget, hy, hrun⟩ := exists_of_le_closed hi hx hr
    have h := hsame k y hk hget hy
    rwa [runAt, hrun] at h
  have htake : (bs.map size).take (j + 1) = (bs'.map size).take (j + 1) := by
    apply List.ext_getElem?
    intro r
    by_cases hr : r < j + 1
    · rw [List.getElem?_take_of_lt hr, List.getElem?_take_of_lt hr, List.getElem?_map,
        List.getElem?_map, hbuffer (by omega)]
    · rw [List.getElem?_eq_none (by simp; omega), List.getElem?_eq_none (by simp; omega)]
  rw [fedBy_eq hj, fedBy_eq (supplier_congr hj htake), hbuffer hle]

theorem map_size_set {j : Nat} {other b : β} (hb : bs[j]? = some b) (hsize : size other = size b) :
    (bs.set j other).map size = bs.map size := by
  obtain ⟨hlt, hget⟩ := List.getElem?_eq_some_iff.1 hb
  have hlt' : j < (bs.map size).length := by simpa using hlt
  have hmap : size other = (bs.map size)[j] := by rw [hsize, List.getElem_map, hget]
  rw [List.map_set, hmap, List.set_getElem_self]

theorem runAt_mono (p : α → Bool) (l : List α) {k : Nat} (h : k ≤ i) : runAt p l k ≤ runAt p l i :=
  closed_take_mono p l (Nat.succ_le_succ h)

/-- Another supplier of the same size in the place of the one that feeds an element feeds it. -/
theorem fedBy_set {j : Nat} {other b : β} (hj : feeder p size bs l i = some j)
    (hb : bs[j]? = some b) (hsize : size other = size b) (hother : other ≠ b) :
    fedBy p size bs l i ≠ fedBy p size (bs.set j other) l i := by
  have hj' : feeder p size (bs.set j other) l i = some j := by
    rw [feeder, map_size_set hb hsize]
    exact hj
  obtain ⟨hlt, -⟩ := List.getElem?_eq_some_iff.1 hb
  rw [fedBy_eq hj, fedBy_eq hj', hb, List.getElem?_set_self hlt]
  exact fun h => hother (Option.some.inj h).symm

end Feeding

end EdgeLLM.Verified.Runs
