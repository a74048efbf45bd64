import Mathlib.Algebra.Order.Ring.Nat
import Mathlib.Data.Finmap

/-!
# Tallies over maps and slot lists

Ownership accounting adds up what every holder owns.  The holders of a system
live in a finite map (records by id) or in a list of slots (handles by
position); a transition changes one holder.  The lemmas here move the sum
across such a change: insert, erase and replace for a map, `set` for a list.
-/

namespace EdgeLLM.Verified

/-- Sum of a measure over the values of a finite map. -/
def tally {κ : Type*} {β : Type*} {M : Type*} [AddCommMonoid M] (f : β → M)
    (m : Finmap fun _ : κ => β) : M :=
  (m.entries.map fun e => f e.2).sum

section Map

variable {κ : Type*} [DecidableEq κ] {β : Type*} {M : Type*} [AddCommMonoid M]
variable {f : β → M} {m : Finmap fun _ : κ => β} {k : κ} {v w : β}

/-- Putting back the value just erased. -/
theorem insert_erase_self (h : m.lookup k = some v) : (m.erase k).insert k v = m := by
  apply Finmap.ext_lookup
  intro x
  by_cases hx : x = k
  · subst hx
    rw [Finmap.lookup_insert, h]
  · rw [Finmap.lookup_insert_of_ne _ hx, Finmap.lookup_erase_ne hx]

/-- Erasing a key just inserted at a free position. -/
theorem erase_insert_self (h : m.lookup k = none) : (m.insert k v).erase k = m := by
  apply Finmap.ext_lookup
  intro x
  by_cases hx : x = k
  · subst hx
    rw [Finmap.lookup_erase, h]
  · rw [Finmap.lookup_erase_ne hx, Finmap.lookup_insert_of_ne _ hx]

theorem lookup_erase_eq_some {x : κ} :
    (m.erase k).lookup x = some v ↔ x ≠ k ∧ m.lookup x = some v := by
  by_cases hx : x = k
  · subst hx
    simp [Finmap.lookup_erase]
  · simp [hx, Finmap.lookup_erase_ne hx]

theorem lookup_insert_eq_some {x : κ} :
    (m.insert k w).lookup x = some v ↔ x = k ∧ w = v ∨ x ≠ k ∧ m.lookup x = some v := by
  by_cases hx : x = k
  · subst hx
    simp [Finmap.lookup_insert]
  · simp [hx, Finmap.lookup_insert_of_ne m hx]

theorem tally_insert (h : m.lookup k = none) : tally f (m.insert k v) = f v + tally f m := by
  rw [tally, tally, Finmap.entries_insert_of_notMem (Finmap.lookup_eq_none.1 h), Multiset.map_cons,
    Multiset.sum_cons]

theorem tally_erase (h : m.lookup k = some v) : f v + tally f (m.erase k) = tally f m := by
  have hfresh : (m.erase k).lookup k = none := Finmap.lookup_erase k m
  rw [← tally_insert (v := v) hfresh, insert_erase_self h]

theorem tally_replace (h : m.lookup k = some v) :
    f v + tally f (m.insert k w) = f w + tally f m := by
  have hsplit : m.insert k w = (m.erase k).insert k w := by
    apply Finmap.ext_lookup
    intro x
    by_cases hx : x = k
    · subst hx
      rw [Finmap.lookup_insert, Finmap.lookup_insert]
    · rw [Finmap.lookup_insert_of_ne _ hx, Finmap.lookup_insert_of_ne _ hx,
        Finmap.lookup_erase_ne hx]
  rw [hsplit, tally_insert (Finmap.lookup_erase k m), ← tally_erase (f := f) h]
  exact add_left_comm _ _ _

/-- A measure into multisets: the tally holds what some value holds. -/
theorem mem_tally {γ : Type*} {g : β → Multiset γ} {x : γ} :
    x ∈ tally g m ↔ ∃ k v, m.lookup k = some v ∧ x ∈ g v := by
  have hsum : ∀ es : Multiset (Sigma fun _ : κ => β),
      x ∈ (es.map fun e => g e.2).sum ↔ ∃ e ∈ es, x ∈ g e.2 := by
    intro es
    induction es using Multiset.induction with
    | empty => simp
    | cons e es ih => simp [ih]
  rw [tally, hsum]
  constructor
  · rintro ⟨⟨k, v⟩, hmem, hx⟩
    exact ⟨k, v, Finmap.lookup_eq_some_iff.2 hmem, hx⟩
  · rintro ⟨k, v, hlook, hx⟩
    exact ⟨⟨k, v⟩, Finmap.lookup_eq_some_iff.1 hlook, hx⟩

omit [DecidableEq κ] in
/-- Occurrences of `x` in a tally of multisets, holder by holder. -/
theorem count_tally {γ : Type*} [DecidableEq γ] {g : β → Multiset γ} {x : γ} :
    (tally g m).count x = tally (fun v => (g v).count x) m := by
  have hsum := map_multiset_sum (Multiset.countAddMonoidHom x) (m.entries.map fun e => g e.2)
  rw [Multiset.map_map] at hsum
  exact hsum

end Map

section Slots

variable {β : Type*} {M : Type*} [AddCommMonoid M] {f : β → M} {xs : List β} {i : Nat} {v w : β}

/-- Replacing one slot of a list changes the sum by that slot. -/
theorem sum_map_set (h : xs[i]? = some v) :
    f v + ((xs.set i w).map f).sum = f w + (xs.map f).sum := by
  induction xs generalizing i with
  | nil => simp at h
  | cons x xs ih =>
    cases i with
    | zero =>
      simp only [List.getElem?_cons_zero, Option.some.injEq] at h
      subst h
      simp only [List.set_cons_zero, List.map_cons, List.sum_cons]
      exact add_left_comm _ _ _
    | succ i =>
      simp only [List.getElem?_cons_succ] at h
      simp only [List.set_cons_succ, List.map_cons, List.sum_cons]
      rw [add_left_comm, ih h, add_left_comm]

variable {γ : Type*} {j : Nat} {z : β}

theorem mem_sum_map {g : β → Multiset γ} {x : γ} : x ∈ (xs.map g).sum ↔ ∃ y ∈ xs, x ∈ g y := by
  induction xs with
  | nil => simp
  | cons y ys ih => simp [ih]

/-- Moving what slot `i` holds into slot `j` is dropping what slot `j` held. -/
theorem sum_map_move (hne : i ≠ j) (hi : xs[i]? = some v) (hj : xs[j]? = some w) (hz : f z = 0) :
    (((xs.set j v).set i z).map f).sum = ((xs.set j z).map f).sum := by
  have hsource : (xs.set j z)[i]? = some v := by rw [List.getElem?_set_ne (Ne.symm hne), hi]
  have htarget : ((xs.set j z).set i z)[j]? = some z := by
    rw [List.getElem?_set_ne hne, List.getElem?_set_self (List.getElem?_eq_some_iff.1 hj).1]
  have hdrop := sum_map_set (f := f) (w := z) hsource
  have hput := sum_map_set (f := f) (w := v) htarget
  rw [List.set_comm _ _ (Ne.symm hne), List.set_set, List.set_comm _ _ hne] at hput
  rw [hz, zero_add] at hput hdrop
  rw [hput, List.set_comm _ _ hne, hdrop]

theorem count_sum_map [DecidableEq γ] {g : β → Multiset γ} {x : γ} :
    (xs.map g).sum.count x = (xs.map fun y => (g y).count x).sum := by
  induction xs with
  | nil => rfl
  | cons y ys ih => rw [List.map_cons, List.sum_cons, Multiset.count_add, ih, List.map_cons,
      List.sum_cons]

/-- Emptying a slot leaves less in the list. -/
theorem sum_map_drop {g : β → Multiset γ} (hi : xs[i]? = some v) (hz : g z = 0) :
    ((xs.set i z).map g).sum ≤ (xs.map g).sum := by
  have hset := sum_map_set (f := g) (w := z) hi
  rw [hz, zero_add] at hset
  rw [← hset]
  exact Multiset.le_add_left _ _

/-- A slot holds part of the list. -/
theorem le_sum_map {g : β → Multiset γ} (hi : xs[i]? = some v) : g v ≤ (xs.map g).sum := by
  obtain ⟨hlt, hget⟩ := List.getElem?_eq_some_iff.1 hi
  rw [← List.take_append_drop i xs, List.drop_eq_getElem_cons hlt, hget, List.map_append,
    List.map_cons, List.sum_append, List.sum_cons]
  exact (Multiset.le_add_right _ _).trans (Multiset.le_add_left _ _)

/-- What slot `i` holds is in no other slot, when nothing is held twice. -/
theorem slot_exclusive [DecidableEq γ] {g : β → Multiset γ} {x : γ} (hnodup : (xs.map g).sum.Nodup)
    (hi : xs[i]? = some v) (hj : xs[j]? = some w) (hne : i ≠ j) (hv : x ∈ g v) : x ∉ g w := by
  intro hw
  induction xs generalizing i j with
  | nil => simp at hi
  | cons y ys ih =>
    rw [List.map_cons, List.sum_cons, Multiset.nodup_add] at hnodup
    obtain ⟨-, hys, hdisjoint⟩ := hnodup
    have hrest : ∀ {k : Nat} {u : β}, ys[k]? = some u → x ∈ g u → x ∈ (ys.map g).sum :=
      fun hk hu => mem_sum_map.2 ⟨_, List.mem_of_getElem? hk, hu⟩
    cases i with
    | zero =>
      cases j with
      | zero => exact hne rfl
      | succ j =>
        simp only [List.getElem?_cons_zero, Option.some.injEq] at hi
        subst hi
        exact Multiset.disjoint_left.1 hdisjoint hv (hrest hj hw)
    | succ i =>
      cases j with
      | zero =>
        simp only [List.getElem?_cons_zero, Option.some.injEq] at hj
        subst hj
        exact Multiset.disjoint_left.1 hdisjoint hw (hrest hi hv)
      | succ j => exact ih hys hi hj (fun h => hne (congrArg Nat.succ h))

end Slots

end EdgeLLM.Verified
