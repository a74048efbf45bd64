import Mathlib.Data.Finset.Basic
import EdgeLLM.Ports.SwaWindow

/-!
# The sparse page table

The host side of `KVPageTable` in sparse-window mode, as the bounded-SWA
manager uses it: one row per resident slot, mapping logical pages to physical
ones.  The V half of the table is derived from the K half and is not kept
separately.  A row carries the source's reverse set of live page ids, which
answers the duplicate check, and the fact that it is the set of ids the row
maps.
-/

namespace EdgeLLM.Ports.BoundedSwa

open Verified

/-- One row of the table: the K page of every mapped logical page, and
`mSparseActivePages`. -/
structure SparseRow where
  entry : Nat → Option PageId
  active : Finset PageId
  mem_active : ∀ page, page ∈ active ↔ ∃ logicalPage, entry logicalPage = some page
  entry_inj : ∀ i j page, entry i = some page → entry j = some page → i = j

namespace SparseRow

/-- The row of sentinels. -/
def empty : SparseRow where
  entry := fun _ => none
  active := ∅
  mem_active := by simp
  entry_inj := by simp

/-- The live ids without the one mapped at `logicalPage`. -/
def activeWithout (row : SparseRow) (logicalPage : Nat) : Finset PageId :=
  match row.entry logicalPage with
  | none => row.active
  | some page => row.active.erase page

theorem mem_activeWithout {row : SparseRow} {logicalPage : Nat} {page : PageId} :
    page ∈ row.activeWithout logicalPage ↔
      ∃ other, other ≠ logicalPage ∧ row.entry other = some page := by
  rw [activeWithout]
  cases hold : row.entry logicalPage with
  | none =>
    rw [row.mem_active]
    constructor
    · rintro ⟨other, hother⟩
      refine ⟨other, ?_, hother⟩
      intro heq
      rw [heq, hold] at hother
      cases hother
    · rintro ⟨other, -, hother⟩
      exact ⟨other, hother⟩
  | some old =>
    simp only [Finset.mem_erase, row.mem_active]
    constructor
    · rintro ⟨hne, other, hother⟩
      refine ⟨other, ?_, hother⟩
      intro heq
      rw [heq, hold] at hother
      cases hother
      exact hne rfl
    · rintro ⟨other, hne, hother⟩
      constructor
      · intro heq
        exact hne (row.entry_inj other logicalPage old (heq ▸ hother) hold)
      · exact ⟨other, hother⟩

/-- Map `logicalPage` to a page that no entry of the row maps. -/
def set (row : SparseRow) (logicalPage : Nat) (page : PageId) (hfresh : page ∉ row.active) :
    SparseRow where
  entry := Function.update row.entry logicalPage (some page)
  active := insert page (row.activeWithout logicalPage)
  mem_active := by
    intro other
    rw [Finset.mem_insert, mem_activeWithout]
    constructor
    · rintro (rfl | ⟨i, hne, hi⟩)
      · exact ⟨logicalPage, Function.update_self ..⟩
      · exact ⟨i, by rw [Function.update_of_ne hne, hi]⟩
    · rintro ⟨i, hi⟩
      by_cases heq : i = logicalPage
      · rw [heq, Function.update_self] at hi
        cases hi
        exact Or.inl rfl
      · rw [Function.update_of_ne heq] at hi
        exact Or.inr ⟨i, heq, hi⟩
  entry_inj := by
    have hnone : ∀ i, row.entry i ≠ some page := fun i hi =>
      hfresh ((row.mem_active page).2 ⟨i, hi⟩)
    intro i j other hi hj
    by_cases hieq : i = logicalPage <;> by_cases hjeq : j = logicalPage
    · rw [hieq, hjeq]
    · rw [hieq, Function.update_self] at hi
      rw [Function.update_of_ne hjeq] at hj
      cases hi
      exact (hnone j hj).elim
    · rw [hjeq, Function.update_self] at hj
      rw [Function.update_of_ne hieq] at hi
      cases hj
      exact (hnone i hi).elim
    · rw [Function.update_of_ne hieq] at hi
      rw [Function.update_of_ne hjeq] at hj
      exact row.entry_inj i j other hi hj

/-- Unmap `logicalPage`. -/
def clear (row : SparseRow) (logicalPage : Nat) : SparseRow where
  entry := Function.update row.entry logicalPage none
  active := row.activeWithout logicalPage
  mem_active := by
    intro page
    rw [mem_activeWithout]
    constructor
    · rintro ⟨i, hne, hi⟩
      exact ⟨i, by rw [Function.update_of_ne hne, hi]⟩
    · rintro ⟨i, hi⟩
      by_cases heq : i = logicalPage
      · rw [heq, Function.update_self] at hi
        cases hi
      · rw [Function.update_of_ne heq] at hi
        exact ⟨i, heq, hi⟩
  entry_inj := by
    intro i j page hi hj
    by_cases hieq : i = logicalPage
    · rw [hieq, Function.update_self] at hi
      cases hi
    · by_cases hjeq : j = logicalPage
      · rw [hjeq, Function.update_self] at hj
        cases hj
      · rw [Function.update_of_ne hieq] at hi
        rw [Function.update_of_ne hjeq] at hj
        exact row.entry_inj i j page hi hj

/-! ## What a row shows -/

/-- The row maps nothing but the bindings. -/
def Within (row : SparseRow) (bindings : List SwaPageBinding) : Prop :=
  ∀ logicalPage page, row.entry logicalPage = some page → ⟨logicalPage, page⟩ ∈ bindings

/-- The row maps every binding. -/
def Covers (row : SparseRow) (bindings : List SwaPageBinding) : Prop :=
  ∀ binding ∈ bindings, row.entry binding.logicalPage = some binding.page

/-- The row maps exactly the bindings. -/
def Shows (row : SparseRow) (bindings : List SwaPageBinding) : Prop :=
  row.Within bindings ∧ row.Covers bindings

variable {row : SparseRow} {bindings bindings' : List SwaPageBinding} {binding : SwaPageBinding}

theorem Within.mono (h : row.Within bindings) (hsub : bindings ⊆ bindings') :
    row.Within bindings' :=
  fun logicalPage page hentry => hsub (h logicalPage page hentry)

theorem Covers.mono (h : row.Covers bindings) (hsub : bindings' ⊆ bindings) :
    row.Covers bindings' :=
  fun binding hmem => h binding (hsub hmem)

theorem within_empty (bindings : List SwaPageBinding) : empty.Within bindings := by
  intro logicalPage page hentry
  cases hentry

theorem covers_nil (row : SparseRow) : row.Covers [] := by
  intro binding hmem
  cases hmem

theorem Within.not_mem_active (h : row.Within bindings) {page : PageId}
    (hpage : page ∉ bindings.map SwaPageBinding.page) : page ∉ row.active := by
  intro hactive
  obtain ⟨logicalPage, hentry⟩ := (row.mem_active page).1 hactive
  exact hpage (List.mem_map_of_mem (h logicalPage page hentry))

theorem Within.set (h : row.Within bindings) (hfresh : binding.page ∉ row.active) :
    (row.set binding.logicalPage binding.page hfresh).Within (bindings ++ [binding]) := by
  intro i page hentry
  rw [List.mem_append]
  by_cases heq : i = binding.logicalPage
  · simp only [SparseRow.set, heq, Function.update_self, Option.some.injEq] at hentry
    rw [heq, ← hentry]
    exact Or.inr (List.mem_singleton.2 rfl)
  · simp only [SparseRow.set, Function.update_of_ne heq] at hentry
    exact Or.inl (h i page hentry)

theorem Covers.set (h : row.Covers bindings) (hfresh : binding.page ∉ row.active)
    (hunmapped : binding.logicalPage ∉ bindings.map SwaPageBinding.logicalPage) :
    (row.set binding.logicalPage binding.page hfresh).Covers (bindings ++ [binding]) := by
  intro other hmem
  show Function.update row.entry binding.logicalPage (some binding.page) other.logicalPage = _
  rw [List.mem_append, List.mem_singleton] at hmem
  rcases hmem with hold | hnew
  · have hne : other.logicalPage ≠ binding.logicalPage := by
      intro heq
      exact hunmapped (heq ▸ List.mem_map_of_mem hold)
    rw [Function.update_of_ne hne]
    exact h other hold
  · rw [hnew, Function.update_self]

theorem Within.clear (h : row.Within (bindings ++ binding :: bindings')) :
    (row.clear binding.logicalPage).Within (bindings ++ bindings') := by
  intro i page hentry
  by_cases heq : i = binding.logicalPage
  · simp only [SparseRow.clear, heq, Function.update_self] at hentry
    cases hentry
  · simp only [SparseRow.clear, Function.update_of_ne heq] at hentry
    have hperm : (bindings ++ binding :: bindings').Perm (binding :: (bindings ++ bindings')) :=
      List.perm_middle
    have hmem := hperm.mem_iff.1 (h i page hentry)
    rcases List.mem_cons.1 hmem with hbinding | hother
    · exact (heq (congrArg SwaPageBinding.logicalPage hbinding)).elim
    · exact hother

theorem Covers.clear (h : row.Covers (bindings ++ binding :: bindings'))
    (hnodup : ((bindings ++ binding :: bindings').map SwaPageBinding.logicalPage).Nodup) :
    (row.clear binding.logicalPage).Covers (bindings ++ bindings') := by
  have hperm : (bindings ++ binding :: bindings').Perm (binding :: (bindings ++ bindings')) :=
    List.perm_middle
  rw [(hperm.map _).nodup_iff, List.map_cons, List.nodup_cons] at hnodup
  intro other hmem
  have hne : other.logicalPage ≠ binding.logicalPage := by
    intro heq
    exact hnodup.1 (heq ▸ List.mem_map_of_mem hmem)
  show Function.update row.entry binding.logicalPage none other.logicalPage = _
  rw [Function.update_of_ne hne]
  exact h other (hperm.mem_iff.2 (List.mem_cons_of_mem _ hmem))

end SparseRow

/-! ## The table -/

/-- The rows of the sparse table, by resident slot.  `wiped` is not in the
source: it records which slots lost mapped entries to a `setRow`. -/
structure SwaPageTable where
  rows : Int → SparseRow
  wiped : Finset Int

namespace SwaPageTable

/-- The table as constructed: every row is sentinels. -/
def initial : SwaPageTable := ⟨fun _ => SparseRow.empty, ∅⟩

/-- Replace one row. -/
def setRow (table : SwaPageTable) (slot : Int) (row : SparseRow) : SwaPageTable :=
  { table with rows := Function.update table.rows slot row }

@[simp] theorem setRow_same (table : SwaPageTable) (slot : Int) (row : SparseRow) :
    (table.setRow slot row).rows slot = row := Function.update_self ..

theorem setRow_of_ne (table : SwaPageTable) {slot other : Int} (row : SparseRow)
    (hne : other ≠ slot) : (table.setRow slot row).rows other = table.rows other :=
  Function.update_of_ne hne ..

/-- The table after the row of `slot` is replaced by sentinels. -/
def wipe (table : SwaPageTable) (slot : Int) : SwaPageTable :=
  { table.setRow slot SparseRow.empty with
    wiped := if (table.rows slot).active = ∅ then table.wiped else insert slot table.wiped }

/-- `setRow(slot, nullptr, 0)`. -/
def clearRow (g : SwaGeometry) (table : SwaPageTable) (slot : Int) :
    Except SwaCheck SwaPageTable := do
  requireThat (0 ≤ slot ∧ slot < g.maxBatchSize) .rowSlotRange
  .ok (table.wipe slot)

def setEntry (g : SwaGeometry) (table : SwaPageTable) (slot : Int) (logicalPage : Nat)
    (kPageId : PageId) : Except SwaCheck SwaPageTable := do
  requireThat (0 ≤ slot ∧ slot < g.maxBatchSize) .entrySlotRange
  requireThat (logicalPage < g.maxPagesPerSeq) .entryLogicalRange
  requireThat (kPageId < g.numPages) .entryPageRange
  if (table.rows slot).entry logicalPage = some kPageId then .ok table
  else if h : kPageId ∈ (table.rows slot).active then .error .entryDuplicatePage
  else .ok (table.setRow slot ((table.rows slot).set logicalPage kPageId h))

def clearEntry (g : SwaGeometry) (table : SwaPageTable) (slot : Int) (logicalPage : Nat) :
    Except SwaCheck SwaPageTable := do
  requireThat (0 ≤ slot ∧ slot < g.maxBatchSize) .entrySlotRange
  requireThat (logicalPage < g.maxPagesPerSeq) .entryLogicalRange
  .ok (table.setRow slot ((table.rows slot).clear logicalPage))

section Outcomes

variable {g : SwaGeometry} {table : SwaPageTable} {slot : Int} {binding : SwaPageBinding}

theorem clearRow_eq (hslot : 0 ≤ slot ∧ slot < g.maxBatchSize) :
    table.clearRow g slot = .ok (table.wipe slot) := by
  rw [clearRow, requireThat_of hslot]
  rfl

theorem clearEntry_eq {logicalPage : Nat} (hslot : 0 ≤ slot ∧ slot < g.maxBatchSize)
    (hlogical : logicalPage < g.maxPagesPerSeq) : table.clearEntry g slot logicalPage =
      .ok (table.setRow slot ((table.rows slot).clear logicalPage)) := by
  rw [clearEntry, requireThat_of hslot, requireThat_of hlogical]
  rfl

/-- Binding a page that no mapped page of the slot uses. -/
theorem setEntry_eq (hslot : 0 ≤ slot ∧ slot < g.maxBatchSize)
    (hlogical : binding.logicalPage < g.maxPagesPerSeq) (hpage : binding.page < g.numPages)
    (hfresh : binding.page ∉ (table.rows slot).active) :
    table.setEntry g slot binding.logicalPage binding.page = .ok (table.setRow slot
        ((table.rows slot).set binding.logicalPage binding.page hfresh)) := by
  have hunmapped : (table.rows slot).entry binding.logicalPage ≠ some binding.page :=
    fun hentry => hfresh
      (((table.rows slot).mem_active binding.page).2 ⟨binding.logicalPage, hentry⟩)
  rw [setEntry, requireThat_of hslot, requireThat_of hlogical, requireThat_of hpage]
  show (if (table.rows slot).entry binding.logicalPage = some binding.page then _ else _) = _
  rw [if_neg hunmapped, dif_neg hfresh]

end Outcomes

/-- A change that touches only the rows of `slots`. -/
structure Touches (slots : List Int) (table table' : SwaPageTable) : Prop where
  rows : ∀ slot, slot ∉ slots → table'.rows slot = table.rows slot
  wiped : ∀ slot, slot ∉ slots → (slot ∈ table'.wiped ↔ slot ∈ table.wiped)
  wiped_mono : table.wiped ⊆ table'.wiped

theorem Touches.refl (slots : List Int) (table : SwaPageTable) : Touches slots table table where
  rows := fun _ _ => rfl
  wiped := fun _ _ => Iff.rfl
  wiped_mono := subset_rfl

theorem Touches.trans {slots : List Int} {table table' table'' : SwaPageTable}
    (h : Touches slots table table') (h' : Touches slots table' table'') :
    Touches slots table table'' where
  rows := fun slot hslot => (h'.rows slot hslot).trans (h.rows slot hslot)
  wiped := fun slot hslot => (h'.wiped slot hslot).trans (h.wiped slot hslot)
  wiped_mono := h.wiped_mono.trans h'.wiped_mono

theorem Touches.mono {slots slots' : List Int} {table table' : SwaPageTable}
    (h : Touches slots table table') (hsub : slots ⊆ slots') : Touches slots' table table' where
  rows := fun slot hslot => h.rows slot fun hmem => hslot (hsub hmem)
  wiped := fun slot hslot => h.wiped slot fun hmem => hslot (hsub hmem)
  wiped_mono := h.wiped_mono

theorem touches_setRow (table : SwaPageTable) (slot : Int) (row : SparseRow) :
    Touches [slot] table (table.setRow slot row) where
  rows := fun other hne => table.setRow_of_ne row (by simpa using hne)
  wiped := fun _ _ => Iff.rfl
  wiped_mono := subset_rfl

theorem touches_wipe (table : SwaPageTable) (slot : Int) :
    Touches [slot] table (table.wipe slot) where
  rows := fun other hne => table.setRow_of_ne _ (by simpa using hne)
  wiped := by
    intro other hne
    rw [List.mem_singleton] at hne
    simp only [wipe]
    split
    · exact Iff.rfl
    · rw [Finset.mem_insert]
      constructor
      · intro hmem
        exact hmem.resolve_left hne
      · intro hmem
        exact Or.inr hmem
  wiped_mono := by
    simp only [wipe]
    split
    · exact subset_rfl
    · exact Finset.subset_insert _ _

@[simp] theorem wipe_same (table : SwaPageTable) (slot : Int) :
    (table.wipe slot).rows slot = SparseRow.empty := Function.update_self ..

/-- A row that mapped something is recorded as wiped. -/
theorem active_of_not_mem_wipe {table : SwaPageTable} {slot : Int}
    (h : slot ∉ (table.wipe slot).wiped) : (table.rows slot).active = ∅ := by
  by_contra hactive
  apply h
  simp only [wipe]
  rw [if_neg hactive]
  exact Finset.mem_insert_self _ _

theorem wipe_wiped_of_active {table : SwaPageTable} {slot : Int}
    (h : (table.rows slot).active = ∅) : (table.wipe slot).wiped = table.wiped := by
  simp only [wipe]
  rw [if_pos h]

end SwaPageTable

end EdgeLLM.Ports.BoundedSwa
