import Mathlib.Algebra.Order.Group.Multiset

/-!
# Compaction of a slot list

A batch is compacted by a mapping that gives every old slot its new position
or none.  The survivors are moved into a fresh list, one write per survivor;
the others are dropped.  When the positions handed out are exactly the ones of
the fresh list, the result holds the survivors and nothing else.
-/

namespace EdgeLLM.Verified

variable {α : Type*}

/-- Write each element at its destination in `out`; elements without one are
dropped. -/
def scatter : List (Option Nat × α) → List α → List α
  | [], out => out
  | (some k, a) :: rest, out => scatter rest (out.set k a)
  | (none, _) :: rest, out => scatter rest out

/-- The elements that have a destination, in their old order. -/
def survivors (moves : List (Option Nat × α)) : List α :=
  moves.filterMap fun m => m.1.map fun _ => m.2

/-- The elements that have none. -/
def dropped (moves : List (Option Nat × α)) : List α :=
  moves.filterMap fun m => if m.1 = none then some m.2 else none

/-- The destinations handed out. -/
def destinations (moves : List (Option Nat × α)) : List Nat := moves.filterMap Prod.fst

/-- The destinations are the positions of a list of length `n`, each once. -/
def Compacts (moves : List (Option Nat × α)) (n : Nat) : Prop :=
  (destinations moves).Perm (List.range n)

section Simp

variable {k : Nat} {a : α} {moves : List (Option Nat × α)}

@[simp] theorem survivors_some : survivors ((some k, a) :: moves) = a :: survivors moves := rfl

@[simp] theorem survivors_none : survivors ((none, a) :: moves) = survivors moves := rfl

@[simp] theorem dropped_some : dropped ((some k, a) :: moves) = dropped moves := rfl

@[simp] theorem dropped_none : dropped ((none, a) :: moves) = a :: dropped moves := rfl

@[simp] theorem destinations_some :
    destinations ((some k, a) :: moves) = k :: destinations moves := rfl

end Simp

/-- Every element is kept or dropped. -/
theorem survivors_dropped_perm (moves : List (Option Nat × α)) :
    (survivors moves ++ dropped moves).Perm (moves.map Prod.snd) := by
  induction moves with
  | nil => exact List.Perm.refl _
  | cons move moves ih =>
    obtain ⟨_ | k, a⟩ := move
    · simp only [survivors_none, dropped_none, List.map_cons]
      exact List.perm_middle.trans (ih.cons a)
    · simp only [survivors_some, dropped_some, List.map_cons, List.cons_append]
      exact ih.cons a

/-- Reading a list at consecutive positions gives that stretch of it. -/
theorem filterMap_range'_getElem? (xs : List α) (start n : Nat) :
    (List.range' start n).filterMap (fun k => xs[k]?) = (xs.drop start).take n := by
  induction n generalizing start with
  | zero => simp
  | succ n ih =>
    rw [List.range'_succ, List.filterMap_cons, ih]
    cases hget : xs[start]? with
    | none =>
      have hlen : xs.length ≤ start := List.getElem?_eq_none_iff.1 hget
      rw [List.drop_eq_nil_of_le hlen, List.drop_eq_nil_of_le (by omega)]
      simp
    | some a =>
      obtain ⟨hlt, ha⟩ := List.getElem?_eq_some_iff.1 hget
      rw [List.drop_eq_getElem_cons hlt, List.take_succ_cons, ha]

/-- Reading a list at every position gives the list. -/
theorem filterMap_range_getElem? (xs : List α) :
    (List.range xs.length).filterMap (fun k => xs[k]?) = xs := by
  rw [List.range_eq_range', filterMap_range'_getElem?, List.drop_zero, List.take_length]

variable {out : List α} {moves : List (Option Nat × α)} {dests : List (Option Nat)}

/-- A write replaces one element. -/
theorem set_add_singleton {k : Nat} {old a : α} (h : out[k]? = some old) :
    (↑(out.set k a) + {old} : Multiset α) = ↑out + {a} := by
  induction out generalizing k with
  | nil => simp at h
  | cons x out ih =>
    cases k with
    | zero =>
      simp only [List.getElem?_cons_zero, Option.some.injEq] at h
      subst h
      rw [List.set_cons_zero, ← Multiset.cons_coe, ← Multiset.cons_coe, add_comm,
        Multiset.singleton_add, add_comm, Multiset.singleton_add, Multiset.cons_swap]
    | succ k =>
      simp only [List.getElem?_cons_succ] at h
      rw [List.set_cons_succ, ← Multiset.cons_coe, ← Multiset.cons_coe, Multiset.cons_add,
        ih h, Multiset.cons_add]

/-- What scattering writes is the survivors, and what it overwrites is what
stood at their destinations. -/
theorem scatter_add (hnodup : (destinations moves).Nodup)
    (hbound : ∀ k ∈ destinations moves, k < out.length) :
    (↑(scatter moves out) + ↑((destinations moves).filterMap fun k => out[k]?) : Multiset α) =
      ↑out + ↑(survivors moves) := by
  induction moves generalizing out with
  | nil => rfl
  | cons move moves ih =>
    obtain ⟨_ | k, a⟩ := move
    · exact ih hnodup hbound
    · rw [destinations_some, List.nodup_cons] at hnodup
      have hk : k < out.length := hbound k (List.mem_cons_self ..)
      have hold : out[k]? = some out[k] := List.getElem?_eq_getElem hk
      have hbound' : ∀ j ∈ destinations moves, j < (out.set k a).length := by
        intro j hj
        rw [List.length_set]
        exact hbound j (List.mem_cons_of_mem _ hj)
      have hrest : (destinations moves).filterMap (fun j => (out.set k a)[j]?) =
          (destinations moves).filterMap fun j => out[j]? := by
        apply List.filterMap_congr
        intro j hj
        apply List.getElem?_set_ne
        intro hkj
        exact hnodup.1 (hkj ▸ hj)
      have hstep := ih hnodup.2 hbound'
      have hset := set_add_singleton (a := a) hold
      rw [hrest] at hstep
      rw [scatter, destinations_some, survivors_some, List.filterMap_cons_some hold,
        ← Multiset.cons_coe, ← Multiset.cons_coe, ← Multiset.singleton_add,
        ← Multiset.singleton_add, add_left_comm, hstep, ← add_assoc, ← add_assoc,
        add_comm _ (↑(out.set k a) : Multiset α), hset]

/-- The compacted list holds the survivors and nothing else. -/
theorem scatter_perm (h : Compacts moves out.length) :
    (scatter moves out).Perm (survivors moves) := by
  have hnodup : (destinations moves).Nodup := h.nodup_iff.2 List.nodup_range
  have hbound : ∀ k ∈ destinations moves, k < out.length :=
    fun k hk => List.mem_range.1 (h.mem_iff.1 hk)
  have hover : ((destinations moves).filterMap fun k => out[k]?).Perm out := by
    have hperm := h.filterMap fun k => out[k]?
    rwa [filterMap_range_getElem?] at hperm
  have hadd := scatter_add hnodup hbound
  rw [Multiset.coe_eq_coe.2 hover, add_comm] at hadd
  exact Multiset.coe_eq_coe.1 (add_left_cancel hadd)

/-- The moves of a list of slots, given the destination of each. -/
theorem destinations_zip {slots : List α} (hlen : dests.length = slots.length) :
    destinations (dests.zip slots) = dests.filterMap id := by
  have hfst : (dests.zip slots).map Prod.fst = dests :=
    List.map_fst_zip (Nat.le_of_eq hlen)
  rw [destinations]
  nth_rewrite 2 [← hfst]
  rw [List.filterMap_map]
  rfl

/-- Compacting a list of slots keeps every slot that is not dropped. -/
theorem scatter_zip_perm {slots : List α} (hlen : dests.length = slots.length)
    (hdests : (dests.filterMap id).Perm (List.range out.length)) :
    (scatter (dests.zip slots) out ++ dropped (dests.zip slots)).Perm slots := by
  have hcompacts : Compacts (dests.zip slots) out.length := by
    rw [Compacts, destinations_zip hlen]
    exact hdests
  have hsnd : (dests.zip slots).map Prod.snd = slots :=
    List.map_snd_zip (Nat.le_of_eq hlen.symm)
  have hall := survivors_dropped_perm (dests.zip slots)
  rw [hsnd] at hall
  exact ((scatter_perm hcompacts).append_right _).trans hall

end EdgeLLM.Verified
