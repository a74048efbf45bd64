import Mathlib.Algebra.Order.Ring.Nat

/-!
# Merging ranges of pages

Ranges `[first, last)` in ascending order of their starts, those that overlap or
meet joined to one.  The merged ranges cover what the ranges cover, lie apart,
and each range is in one of them.

Extents in a file are widened to whole pages, cut at the end of the file.
-/

namespace EdgeLLM.Verified

/-! ## Merging -/

section Merge

variable {α : Type*}

/-- The merged ranges when the last one so far is `[first, last)`. -/
def mergeFrom [LT α] [DecidableLT α] [Max α] (first last : α) : List (α × α) → List (α × α)
  | [] => [(first, last)]
  | range :: rest =>
    if last < range.1 then (first, last) :: mergeFrom range.1 range.2 rest
    else mergeFrom first (max last range.2) rest

def mergeRanges [LT α] [DecidableLT α] [Max α] : List (α × α) → List (α × α)
  | [] => []
  | range :: rest => mergeFrom range.1 range.2 rest

/-- Merging only compares. -/
theorem map_mergeRanges {β : Type*} [LT α] [DecidableLT α] [Max α] [LT β] [DecidableLT β] [Max β]
    {f : α → β} (hlt : ∀ a b, f a < f b ↔ a < b) (hmax : ∀ a b, f (max a b) = max (f a) (f b))
    (ranges : List (α × α)) :
    (mergeRanges ranges).map (Prod.map f f) = mergeRanges (ranges.map (Prod.map f f)) := by
  have hfrom : ∀ (rest : List (α × α)) (first last : α),
      (mergeFrom first last rest).map (Prod.map f f) =
        mergeFrom (f first) (f last) (rest.map (Prod.map f f)) := by
    intro rest
    induction rest with
    | nil =>
      intro first last
      rfl
    | cons range rest ih =>
      intro first last
      rw [List.map_cons, mergeFrom, mergeFrom, Prod.map_fst, Prod.map_snd]
      by_cases hgap : last < range.1
      · rw [if_pos hgap, if_pos ((hlt _ _).2 hgap), List.map_cons, ih]
        rfl
      · rw [if_neg hgap, if_neg fun h => hgap ((hlt _ _).1 h), ih, hmax]
  cases ranges with
  | nil => rfl
  | cons range rest => exact hfrom rest range.1 range.2

variable [LinearOrder α] {first last x : α} {ranges : List (α × α)}

/-- The starts of the ranges ascend, from `first` on. -/
def StartsFrom (first : α) (ranges : List (α × α)) : Prop :=
  (∀ r ∈ ranges, first ≤ r.1) ∧ ranges.Pairwise fun a b => a.1 ≤ b.1

theorem StartsFrom.tail {range : α × α} (h : StartsFrom first (range :: ranges)) :
    StartsFrom first ranges ∧ StartsFrom range.1 ranges := by
  have hsorted := List.pairwise_cons.1 h.2
  exact ⟨⟨fun r hr => h.1 r (List.mem_cons_of_mem _ hr), hsorted.2⟩, hsorted⟩

theorem mem_mergeFrom : ∀ {first last : α}, StartsFrom first ranges →
    ((∃ m ∈ mergeFrom first last ranges, m.1 ≤ x ∧ x < m.2) ↔
      (first ≤ x ∧ x < last) ∨ ∃ r ∈ ranges, r.1 ≤ x ∧ x < r.2) := by
  induction ranges with
  | nil =>
    intro first last _
    simp [mergeFrom]
  | cons range rest ih =>
    intro first last h
    rw [mergeFrom]
    by_cases hgap : last < range.1
    · rw [if_pos hgap]
      simp only [List.mem_cons, exists_eq_or_imp]
      rw [ih h.tail.2]
    · rw [if_neg hgap, ih h.tail.1]
      simp only [List.mem_cons, exists_eq_or_imp]
      rw [← or_assoc]
      apply or_congr_left
      have hstart := h.1 range List.mem_cons_self
      have hmeet := not_lt.1 hgap
      constructor
      · rintro ⟨hlow, hhigh⟩
        rcases lt_max_iff.1 hhigh with hlt | hlt
        · exact Or.inl ⟨hlow, hlt⟩
        · cases lt_or_ge x last with
          | inl hin => exact Or.inl ⟨hlow, hin⟩
          | inr hout => exact Or.inr ⟨hmeet.trans hout, hlt⟩
      · rintro (⟨hlow, hhigh⟩ | ⟨hlow, hhigh⟩)
        · exact ⟨hlow, lt_max_of_lt_left hhigh⟩
        · exact ⟨hstart.trans hlow, lt_max_of_lt_right hhigh⟩

theorem mergeFrom_apart : ∀ {first last : α}, StartsFrom first ranges →
    (∀ m ∈ mergeFrom first last ranges, first ≤ m.1) ∧
      (mergeFrom first last ranges).Pairwise fun a b => a.2 < b.1 := by
  induction ranges with
  | nil =>
    intro first last _
    simp [mergeFrom]
  | cons range rest ih =>
    intro first last h
    rw [mergeFrom]
    by_cases hgap : last < range.1
    · rw [if_pos hgap]
      obtain ⟨hfrom, hpairs⟩ := @ih _ range.2 h.tail.2
      have hstart := h.1 range List.mem_cons_self
      constructor
      · intro m hm
        rcases List.mem_cons.1 hm with heq | hrest
        · rw [heq]
        · exact hstart.trans (hfrom m hrest)
      · rw [List.pairwise_cons]
        exact ⟨fun m hm => hgap.trans_le (hfrom m hm), hpairs⟩
    · rw [if_neg hgap]
      exact ih h.tail.1

theorem mergeFrom_contains : ∀ {first last : α}, StartsFrom first ranges →
    ∀ r ∈ (first, last) :: ranges, ∃ m ∈ mergeFrom first last ranges, m.1 ≤ r.1 ∧ r.2 ≤ m.2 := by
  induction ranges with
  | nil =>
    intro first last _ r hr
    rw [List.mem_singleton.1 hr]
    exact ⟨(first, last), List.mem_singleton_self _, le_rfl, le_rfl⟩
  | cons range rest ih =>
    intro first last h r hr
    rw [mergeFrom]
    by_cases hgap : last < range.1
    · rw [if_pos hgap]
      rcases List.mem_cons.1 hr with heq | hrest
      · rw [heq]
        exact ⟨(first, last), List.mem_cons_self, le_rfl, le_rfl⟩
      · obtain ⟨m, hm, hin⟩ := ih h.tail.2 r hrest
        exact ⟨m, List.mem_cons_of_mem _ hm, hin⟩
    · rw [if_neg hgap]
      have hback := @ih _ (max last range.2) h.tail.1
      rcases List.mem_cons.1 hr with heq | hrest
      · obtain ⟨m, hm, hlow, hhigh⟩ := hback _ List.mem_cons_self
        rw [heq]
        exact ⟨m, hm, hlow, (le_max_left _ _).trans hhigh⟩
      · cases List.mem_cons.1 hrest with
        | inl heq =>
          obtain ⟨m, hm, hlow, hhigh⟩ := hback _ List.mem_cons_self
          rw [heq]
          exact ⟨m, hm, hlow.trans (h.1 range List.mem_cons_self), (le_max_right _ _).trans hhigh⟩
        | inr hlater => exact hback r (List.mem_cons_of_mem _ hlater)

/-- Starts and ends of merged ranges are those of ranges. -/
theorem mergeFrom_ends : ∀ {first last : α}, ∀ m ∈ mergeFrom first last ranges,
    (∃ r ∈ (first, last) :: ranges, m.1 = r.1) ∧ ∃ r ∈ (first, last) :: ranges, m.2 = r.2 := by
  induction ranges with
  | nil =>
    intro first last m hm
    exact ⟨⟨m, hm, rfl⟩, m, hm, rfl⟩
  | cons range rest ih =>
    intro first last m hm
    rw [mergeFrom] at hm
    by_cases hgap : last < range.1
    · rw [if_pos hgap] at hm
      rcases List.mem_cons.1 hm with heq | hrest
      · exact ⟨⟨m, heq ▸ List.mem_cons_self, rfl⟩, m, heq ▸ List.mem_cons_self, rfl⟩
      · obtain ⟨⟨a, ha, hfirst⟩, b, hb, hlast⟩ := ih m hrest
        exact ⟨⟨a, List.mem_cons_of_mem _ ha, hfirst⟩, b, List.mem_cons_of_mem _ hb, hlast⟩
    · rw [if_neg hgap] at hm
      obtain ⟨⟨a, ha, hfirst⟩, b, hb, hlast⟩ := ih m hm
      constructor
      · cases List.mem_cons.1 ha with
        | inl heq => exact ⟨(first, last), List.mem_cons_self, by rw [hfirst, heq]⟩
        | inr hrest => exact ⟨a, List.mem_cons_of_mem _ (List.mem_cons_of_mem _ hrest), hfirst⟩
      · cases List.mem_cons.1 hb with
        | inl heq =>
          rw [heq] at hlast
          rcases max_choice last range.2 with hleft | hright
          · exact ⟨(first, last), List.mem_cons_self, hlast.trans hleft⟩
          · exact ⟨range, List.mem_cons_of_mem _ List.mem_cons_self, hlast.trans hright⟩
        | inr hrest => exact ⟨b, List.mem_cons_of_mem _ (List.mem_cons_of_mem _ hrest), hlast⟩

/-- The merged ranges cover the ranges and nothing else. -/
theorem mem_mergeRanges (h : ranges.Pairwise fun a b => a.1 ≤ b.1) :
    (∃ m ∈ mergeRanges ranges, m.1 ≤ x ∧ x < m.2) ↔ ∃ r ∈ ranges, r.1 ≤ x ∧ x < r.2 := by
  cases ranges with
  | nil => simp [mergeRanges]
  | cons range rest =>
    rw [mergeRanges, mem_mergeFrom (List.pairwise_cons.1 h)]
    simp only [List.mem_cons, exists_eq_or_imp]

theorem mergeRanges_apart (h : ranges.Pairwise fun a b => a.1 ≤ b.1) :
    (mergeRanges ranges).Pairwise fun a b => a.2 < b.1 := by
  cases ranges with
  | nil => exact List.Pairwise.nil
  | cons range rest => exact (mergeFrom_apart (List.pairwise_cons.1 h)).2

theorem mergeRanges_contains (h : ranges.Pairwise fun a b => a.1 ≤ b.1) {r : α × α}
    (hr : r ∈ ranges) : ∃ m ∈ mergeRanges ranges, m.1 ≤ r.1 ∧ r.2 ≤ m.2 := by
  cases ranges with
  | nil => cases hr
  | cons range rest => exact mergeFrom_contains (List.pairwise_cons.1 h) r hr

theorem mergeRanges_ends {m : α × α} (hm : m ∈ mergeRanges ranges) :
    (∃ r ∈ ranges, m.1 = r.1) ∧ ∃ r ∈ ranges, m.2 = r.2 := by
  cases ranges with
  | nil => cases hm
  | cons range rest => exact mergeFrom_ends m hm

end Merge

/-! ## Pages -/

section Pages

variable {page size first last x : Nat}

def pageStart (page first : Nat) : Nat := first - first % page

/-- The end of the last page, or of the file. -/
def pageEnd (page size last : Nat) : Nat :=
  if last % page = 0 then last else last + min (page - last % page) (size - last)

theorem pageStart_le_iff (hpage : 0 < page) : pageStart page first ≤ x ↔ first / page ≤ x / page := by
  have hstart : pageStart page first = first / page * page := by
    have hsplit := Nat.div_add_mod' first page
    unfold pageStart
    omega
  rw [hstart, Nat.le_div_iff_mul_le hpage]

/-- The page after the one of the last byte. -/
theorem pageEnd_eq (hpage : 0 < page) (hlast : 0 < last) (hsize : last ≤ size) :
    pageEnd page size last = min size (((last - 1) / page + 1) * page) := by
  have hsplit := Nat.div_add_mod' last page
  have hmod := Nat.mod_lt last hpage
  unfold pageEnd
  by_cases hwhole : last % page = 0
  · rw [if_pos hwhole]
    have hdiv : (last - 1) / page + 1 = last / page := by
      have hpos : 0 < last / page := by
        apply Nat.div_pos _ hpage
        by_contra hlt
        rw [Nat.mod_eq_of_lt (Nat.not_le.1 hlt)] at hwhole
        omega
      have hpred : (last - 1) / page = last / page - 1 := by
        apply Nat.div_eq_of_lt_le
        · rw [Nat.sub_mul, Nat.one_mul]
          omega
        · rw [Nat.sub_add_cancel hpos]
          omega
      omega
    rw [hdiv]
    omega
  · rw [if_neg hwhole]
    have hdiv : (last - 1) / page = last / page := by
      apply Nat.div_eq_of_lt_le
      · omega
      · rw [Nat.add_mul, Nat.one_mul]
        omega
    rw [hdiv, Nat.add_mul, Nat.one_mul]
    omega

/-- A widened extent is the pages that it touches, as far as the file goes. -/
theorem mem_pages (hpage : 0 < page) (hextent : first < last) (hsize : last ≤ size) :
    (pageStart page first ≤ x ∧ x < pageEnd page size last) ↔
      x < size ∧ ∃ y, first ≤ y ∧ y < last ∧ y / page = x / page := by
  have hend : x < ((last - 1) / page + 1) * page ↔ x / page ≤ (last - 1) / page := by
    rw [← Nat.div_lt_iff_lt_mul hpage, Nat.lt_succ_iff]
  rw [pageStart_le_iff hpage, pageEnd_eq hpage (by omega) hsize, lt_min_iff, hend]
  constructor
  · rintro ⟨hlow, hin, hhigh⟩
    refine ⟨hin, ?_⟩
    by_cases hfirst : first / page = x / page
    · exact ⟨first, le_rfl, hextent, hfirst⟩
    · -- a page after the first one: its own first byte
      refine ⟨x / page * page, ?_, ?_, Nat.mul_div_cancel _ hpage⟩
      · have hnext := Nat.lt_of_le_of_ne hlow hfirst
        exact ((Nat.div_lt_iff_lt_mul hpage).1 hnext).le
      · have hle := Nat.mul_le_mul_right page hhigh
        have hlast := Nat.div_mul_le_self (last - 1) page
        omega
  · rintro ⟨hin, y, hlow, hhigh, hpageEq⟩
    rw [← hpageEq]
    exact ⟨Nat.div_le_div_right hlow, hin, Nat.div_le_div_right (by omega)⟩

theorem pageStart_mod : pageStart page first % page = 0 := by
  have hsplit := Nat.div_add_mod' first page
  have hstart : pageStart page first = first / page * page := by
    unfold pageStart
    omega
  rw [hstart, Nat.mul_mod_left]

theorem pageEnd_mod (hpage : 0 < page) (hlast : 0 < last) (hsize : last ≤ size) :
    pageEnd page size last % page = 0 ∨ pageEnd page size last = size := by
  rw [pageEnd_eq hpage hlast hsize]
  rcases Nat.le_total size (((last - 1) / page + 1) * page) with hle | hge
  · exact Or.inr (Nat.min_eq_left hle)
  · rw [Nat.min_eq_right hge]
    exact Or.inl (Nat.mul_mod_left _ _)

end Pages

end EdgeLLM.Verified
