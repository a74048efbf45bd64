import Mathlib.Data.List.AList
import Mathlib.Data.List.Perm.Subperm

/-!
# Relabelling an association list

The entries of an association list under new keys.  A key without a new one is
dropped, and no two keys get the same one.
-/

namespace EdgeLLM.Verified

variable {α β : Type*}

/-- The entries under new keys. -/
def relabel (key : α → Option α) (entries : List (Sigma fun _ : α => β)) :
    List (Sigma fun _ : α => β) :=
  entries.filterMap fun entry => (key entry.1).map fun new => ⟨new, entry.2⟩

/-- No two keys get the same new one. -/
def Relabels (key : α → Option α) : Prop :=
  ∀ a b new, key a = some new → key b = some new → a = b

theorem mem_relabel {key : α → Option α} {entries : List (Sigma fun _ : α => β)} {new : α} {b : β} :
    ⟨new, b⟩ ∈ relabel key entries ↔ ∃ a, ⟨a, b⟩ ∈ entries ∧ key a = some new := by
  rw [relabel, List.mem_filterMap]
  constructor
  · intro h
    obtain ⟨entry, hmem, hkey⟩ := h
    obtain ⟨found, hfound, heq⟩ := Option.map_eq_some_iff.1 hkey
    cases heq
    exact ⟨entry.1, hmem, hfound⟩
  · intro h
    obtain ⟨a, hmem, hkey⟩ := h
    exact ⟨⟨a, b⟩, hmem, by rw [hkey]; rfl⟩

/-- Relabelled entries have no key twice. -/
theorem nodupKeys_relabel {key : α → Option α} (hkey : Relabels key)
    {entries : List (Sigma fun _ : α => β)} (h : entries.NodupKeys) :
    (relabel key entries).NodupKeys := by
  induction entries with
  | nil => exact List.nodupKeys_nil
  | cons entry rest ih =>
    rw [List.nodupKeys_cons] at h
    have hrest := ih h.2
    rw [relabel, List.filterMap_cons]
    cases hnew : key entry.1 with
    | none => exact hrest
    | some new =>
      dsimp only [Option.map_some]
      rw [List.nodupKeys_cons]
      refine ⟨?_, hrest⟩
      intro hmem
      obtain ⟨b, hmem⟩ := List.exists_of_mem_keys hmem
      obtain ⟨a, ha, hsame⟩ := mem_relabel.1 hmem
      apply h.1
      rw [hkey _ _ _ hnew hsame]
      exact List.mem_keys_of_mem ha

/-- Relabelling keeps the list exactly where every entry's new key carries the same
value in it. -/
theorem relabel_perm_iff {key : α → Option α} (hkey : Relabels key)
    {entries : List (Sigma fun _ : α => β)} (h : entries.NodupKeys) :
    (relabel key entries).Perm entries ↔
      ∀ a b, ⟨a, b⟩ ∈ entries → ∃ new, key a = some new ∧ ⟨new, b⟩ ∈ entries := by
  constructor
  · intro hperm a b hmem
    -- no entry was dropped
    have hall : ∀ entry ∈ entries, ((key entry.1).map fun new =>
        (⟨new, entry.2⟩ : Sigma fun _ : α => β)).isSome = true := by
      apply List.filterMap_length_eq_length.1
      exact hperm.length_eq
    have hsome := hall ⟨a, b⟩ hmem
    rw [Option.isSome_map] at hsome
    obtain ⟨new, hnew⟩ := Option.isSome_iff_exists.1 hsome
    exact ⟨new, hnew, hperm.mem_iff.1 (mem_relabel.2 ⟨a, hmem, hnew⟩)⟩
  · intro hall
    have hsubset : relabel key entries ⊆ entries := by
      intro entry hmem
      obtain ⟨a, ha, hnew⟩ := mem_relabel.1 (show (⟨entry.1, entry.2⟩ : Sigma _) ∈ _ from hmem)
      obtain ⟨new, hfound, hin⟩ := hall a entry.2 ha
      rw [hnew, Option.some.injEq] at hfound
      rw [← hfound] at hin
      exact hin
    have hlength : (relabel key entries).length = entries.length := by
      apply List.filterMap_length_eq_length.2
      intro entry hmem
      obtain ⟨new, hnew, -⟩ := hall entry.1 entry.2 hmem
      rw [hnew]
      rfl
    apply (List.subperm_of_subset (nodupKeys_relabel hkey h).nodup hsubset).perm_of_length_le
    rw [hlength]

end EdgeLLM.Verified
