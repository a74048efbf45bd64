import Mathlib.Data.List.Nodup
import Mathlib.Data.List.Perm.Basic

/-!
# Buffers filled by a sequence of writes

A buffer is a function from addresses to contents.  The threads of a launch,
or the iterations of a loop, each write at most one address; where all writes
to an address agree their order does not matter.
-/

namespace EdgeLLM.Verified

variable {κ α : Type*} [DecidableEq κ]

/-- Perform the writes in order. -/
def writeAll (writes : List (κ × α)) (buf : κ → α) : κ → α :=
  writes.foldl (fun buf w => Function.update buf w.1 w.2) buf

variable {writes : List (κ × α)} {buf : κ → α} {k : κ} {a : α}

@[simp] theorem writeAll_cons {w : κ × α} :
    writeAll (w :: writes) buf = writeAll writes (Function.update buf w.1 w.2) := rfl

theorem writeAll_append {more : List (κ × α)} :
    writeAll (writes ++ more) buf = writeAll more (writeAll writes buf) := by
  unfold writeAll
  rw [List.foldl_append]

/-- An address nobody writes keeps its contents. -/
theorem writeAll_of_notMem (h : ∀ w ∈ writes, w.1 ≠ k) : writeAll writes buf k = buf k := by
  induction writes generalizing buf with
  | nil => rfl
  | cons w writes ih =>
    rw [writeAll_cons, ih fun w' hw' => h w' (List.mem_cons_of_mem w hw')]
    exact Function.update_of_ne (fun he => h w List.mem_cons_self he.symm) _ _

/-- An address on which all writes agree holds what they wrote. -/
theorem writeAll_of_mem (hmem : ∃ w ∈ writes, w.1 = k)
    (hsame : ∀ w ∈ writes, w.1 = k → w.2 = a) : writeAll writes buf k = a := by
  induction writes generalizing buf with
  | nil =>
    obtain ⟨w, hw, -⟩ := hmem
    cases hw
  | cons w writes ih =>
    rw [writeAll_cons]
    have hrest : ∀ w' ∈ writes, w'.1 = k → w'.2 = a :=
      fun w' hw' => hsame w' (List.mem_cons_of_mem w hw')
    by_cases hlater : ∃ w' ∈ writes, w'.1 = k
    · exact ih hlater hrest
    · have hlast : w.1 = k := by
        obtain ⟨w', hw', hk⟩ := hmem
        rcases List.mem_cons.1 hw' with rfl | hw'
        · exact hk
        · exact absurd ⟨w', hw', hk⟩ hlater
      rw [writeAll_of_notMem fun w' hw' he => hlater ⟨w', hw', he⟩, ← hlast, Function.update_self]
      exact hsame w List.mem_cons_self hlast

/-- Where no address is written twice, each holds what was written to it. -/
theorem writeAll_of_nodup (h : (writes.map Prod.fst).Nodup) {w : κ × α} (hw : w ∈ writes) :
    writeAll writes buf w.1 = w.2 := by
  apply writeAll_of_mem ⟨w, hw, rfl⟩
  intro w' hw' hkey
  rw [List.inj_on_of_nodup_map h hw' hw hkey]

/-- As many addresses as a buffer has, among them each of the buffer's, are the
addresses of the buffer, one each. -/
theorem perm_range_of_cover {addresses : List Nat} {m : Nat} (hcover : ∀ a < m, a ∈ addresses)
    (hlength : addresses.length = m) : addresses.Perm (List.range m) := by
  have hsub : (List.range m).Subperm addresses :=
    List.subperm_of_subset List.nodup_range fun a ha => hcover a (List.mem_range.1 ha)
  apply List.Perm.symm
  apply hsub.perm_of_length_le
  exact Nat.le_of_eq (hlength.trans List.length_range.symm)

/-- The threads past the last element of a guarded launch do nothing. -/
theorem filterMap_guard {β : Type*} {m count : Nat} (f : Nat → β) (hcount : count ≤ m) :
    ((List.range m).filterMap fun x => if count ≤ x then none else some (f x)) =
      (List.range count).map f := by
  obtain ⟨rest, rfl⟩ := Nat.le.dest hcount
  have hinside : ∀ x ∈ List.range count, (if count ≤ x then none else some (f x)) = some (f x) := by
    intro x hx
    exact if_neg (Nat.not_le.2 (List.mem_range.1 hx))
  have hpast : ∀ x ∈ (List.range rest).map (count + ·),
      (if count ≤ x then none else some (f x)) = none := by
    intro x hx
    obtain ⟨y, -, rfl⟩ := List.mem_map.1 hx
    exact if_pos (Nat.le_add_right count y)
  rw [List.range_add, List.filterMap_append, List.filterMap_congr hinside,
    List.filterMap_congr hpast, List.filterMap_eq_map', List.filterMap_none, List.append_nil]

/-- Launches that succeed one after the other perform all their writes. -/
theorem foldlM_writeAll {β : Type*} {launch : β → Option (List (κ × α))}
    {writesOf : β → List (κ × α)} {bs : List β} (h : ∀ b ∈ bs, launch b = some (writesOf b)) :
    bs.foldlM (fun buf b => (launch b).map fun ws => writeAll ws buf) buf =
      some (writeAll (bs.flatMap writesOf) buf) := by
  induction bs generalizing buf with
  | nil => rfl
  | cons b bs ih =>
    rw [List.foldlM_cons, h b List.mem_cons_self, List.flatMap_cons, writeAll_append]
    exact ih fun b' hb' => h b' (List.mem_cons_of_mem b hb')

end EdgeLLM.Verified
