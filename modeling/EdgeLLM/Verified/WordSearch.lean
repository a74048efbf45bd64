import Mathlib.Data.List.Infix

/-!
# Searching a growing text for words

The earliest place where one of several words starts in a text, and the same
search over a text that arrives piece by piece.  A searcher that has seen no
word may give out all of the text but its end: a word that is completed later
starts in the last `maxLength - 1` symbols.

## Main definitions

* `find word text` — the first place where `word` starts.
* `earliest words text` — the first place where a non-empty word starts.
* `Held words emitted buffer` — `emitted` has been given out, `buffer` is kept,
  and no word occurs across them.
-/

namespace EdgeLLM.Verified

variable {α : Type*} [DecidableEq α]

/-- The first place where `word` starts in the text. -/
def find (word : List α) : List α → Option Nat
  | [] => if word = [] then some 0 else none
  | a :: text => if word.isPrefixOf (a :: text) then some 0 else (find word text).map (· + 1)

theorem find_eq_some {word : List α} : ∀ {text : List α} {k : Nat}, find word text = some k ↔
        k ≤ text.length ∧ word <+: text.drop k ∧ ∀ j < k, ¬ word <+: text.drop j := by
  intro text
  induction text with
  | nil =>
    intro k
    rw [find]
    by_cases hword : word = []
    · subst hword
      simp only [if_true, Option.some.injEq, List.length_nil, Nat.le_zero]
      constructor
      · intro h
        subst h
        exact ⟨rfl, List.nil_prefix, fun j hj => absurd hj (Nat.not_lt_zero j)⟩
      · exact fun h => h.1.symm
    · simp [hword]
  | cons a text ih =>
    intro k
    rw [find]
    by_cases hhead : word <+: a :: text
    · rw [if_pos (List.isPrefixOf_iff_prefix.2 hhead)]
      constructor
      · intro h
        cases h
        exact ⟨Nat.zero_le _, hhead, fun j hj => absurd hj (Nat.not_lt_zero j)⟩
      · intro h
        cases k with
        | zero => rfl
        | succ k => exact absurd hhead (h.2.2 0 (Nat.succ_pos k))
    · rw [if_neg (fun h => hhead (List.isPrefixOf_iff_prefix.1 h))]
      cases k with
      | zero =>
        constructor
        · intro h
          simp at h
        · exact fun h => absurd h.2.1 hhead
      | succ k =>
        have hshift : (find word text).map (· + 1) = some (k + 1) ↔ find word text = some k := by
          cases find word text with
          | none => simp
          | some j => simp
        rw [hshift, ih]
        constructor
        · intro h
          refine ⟨Nat.succ_le_succ h.1, h.2.1, ?_⟩
          intro j hj
          cases j with
          | zero => exact hhead
          | succ j => exact h.2.2 j (Nat.lt_of_succ_lt_succ hj)
        · intro h
          refine ⟨Nat.le_of_succ_le_succ h.1, h.2.1, ?_⟩
          exact fun j hj => h.2.2 (j + 1) (Nat.succ_lt_succ hj)

theorem find_eq_none {word text : List α} (hword : word ≠ []) :
    find word text = none ↔ ∀ k, ¬ word <+: text.drop k := by
  induction text with
  | nil => simp [find, hword]
  | cons a text ih =>
    rw [find]
    by_cases hhead : word <+: a :: text
    · rw [if_pos (List.isPrefixOf_iff_prefix.2 hhead)]
      constructor
      · intro h
        cases h
      · exact fun h => absurd hhead (h 0)
    · rw [if_neg (fun h => hhead (List.isPrefixOf_iff_prefix.1 h)), Option.map_eq_none_iff, ih]
      constructor
      · intro h k
        cases k with
        | zero => exact hhead
        | succ k => exact h k
      · exact fun h k => h (k + 1)

/-! ## Several words -/

/-- Some non-empty word starts at place `k`. -/
def Hits (words : List (List α)) (text : List α) (k : Nat) : Prop :=
  ∃ word ∈ words, word ≠ [] ∧ word <+: text.drop k

/-- No non-empty word occurs. -/
def Clean (words : List (List α)) (text : List α) : Prop :=
  ∀ k, ¬ Hits words text k

/-- The sooner of two places; `none` is nowhere. -/
def sooner : Option Nat → Option Nat → Option Nat
  | none, best => best
  | some pos, none => some pos
  | some pos, some best => if pos < best then some pos else some best

/-- The first place where a non-empty word starts: the words are tried in turn. -/
def earliest (words : List (List α)) (text : List α) : Option Nat :=
  words.foldl (fun best word => if word = [] then best else sooner (find word text) best) none

section Earliest

variable {words : List (List α)} {text : List α}

/-- `best` is the earliest place among the words tried so far. -/
private def Tried (tried : List (List α)) (text : List α) (best : Option Nat) : Prop :=
  match best with
  | none => Clean tried text
  | some k => Hits tried text k ∧ ∀ j < k, ¬ Hits tried text j

omit [DecidableEq α] in
private theorem hits_append {tried : List (List α)} {word : List α} {k : Nat} :
    Hits (tried ++ [word]) text k ↔ Hits tried text k ∨ (word ≠ [] ∧ word <+: text.drop k) := by
  constructor
  · rintro ⟨w, hmem, hne, hpre⟩
    rw [List.mem_append, List.mem_singleton] at hmem
    rcases hmem with hold | heq
    · exact Or.inl ⟨w, hold, hne, hpre⟩
    · exact Or.inr (heq ▸ ⟨hne, hpre⟩)
  · rintro (⟨w, hmem, hw⟩ | hw)
    · exact ⟨w, List.mem_append_left _ hmem, hw⟩
    · exact ⟨word, List.mem_append_right _ (List.mem_singleton_self word), hw⟩

private theorem tried_step {tried : List (List α)} {best : Option Nat} (word : List α)
    (h : Tried tried text best) : Tried (tried ++ [word]) text
      (if word = [] then best else sooner (find word text) best) := by
  by_cases hword : word = []
  · rw [if_pos hword]
    cases best with
    | none => exact fun k hk => h k ((hits_append.1 hk).resolve_right fun hw => hw.1 hword)
    | some b =>
      refine ⟨hits_append.2 (Or.inl h.1), ?_⟩
      exact fun j hj hhit => h.2 j hj ((hits_append.1 hhit).resolve_right fun hw => hw.1 hword)
  · rw [if_neg hword]
    cases hfind : find word text with
    | none =>
      have habsent := (find_eq_none hword).1 hfind
      cases best with
      | none => exact fun k hk => h k ((hits_append.1 hk).resolve_right fun hw => habsent k hw.2)
      | some b =>
        refine ⟨hits_append.2 (Or.inl h.1), ?_⟩
        exact fun j hj hhit =>
          h.2 j hj ((hits_append.1 hhit).resolve_right fun hw => habsent j hw.2)
    | some pos =>
      obtain ⟨-, hpos, hfirst⟩ := find_eq_some.1 hfind
      have hhit : Hits (tried ++ [word]) text pos := hits_append.2 (Or.inr ⟨hword, hpos⟩)
      cases best with
      | none =>
        refine ⟨hhit, ?_⟩
        intro j hj hj'
        rcases hits_append.1 hj' with hold | hw
        · exact h j hold
        · exact hfirst j hj hw.2
      | some b =>
        rw [sooner]
        by_cases hlt : pos < b
        · rw [if_pos hlt]
          refine ⟨hhit, ?_⟩
          intro j hj hj'
          rcases hits_append.1 hj' with hold | hw
          · exact h.2 j (Nat.lt_trans hj hlt) hold
          · exact hfirst j hj hw.2
        · rw [if_neg hlt]
          refine ⟨hits_append.2 (Or.inl h.1), ?_⟩
          intro j hj hj'
          rcases hits_append.1 hj' with hold | hw
          · exact h.2 j hj hold
          · exact hfirst j (Nat.lt_of_lt_of_le hj (Nat.not_lt.1 hlt)) hw.2

private theorem tried_foldl :
    ∀ (rest tried : List (List α)) (best : Option Nat), Tried tried text best →
      Tried (tried ++ rest) text
        (rest.foldl (fun best word => if word = [] then best else sooner (find word text) best)
          best) := by
  intro rest
  induction rest with
  | nil =>
    intro tried best h
    rwa [List.append_nil]
  | cons word rest ih =>
    intro tried best h
    have hnext := ih (tried ++ [word]) _ (tried_step word h)
    rwa [List.append_assoc, List.singleton_append] at hnext

private theorem tried_earliest (words : List (List α)) (text : List α) :
    Tried words text (earliest words text) := by
  have hstart : Tried [] text none := fun k hk => by
    obtain ⟨word, hmem, -⟩ := hk
    cases hmem
  exact tried_foldl words [] none hstart

theorem earliest_eq_none : earliest words text = none ↔ Clean words text := by
  have h := tried_earliest words text
  cases hbest : earliest words text with
  | none =>
    rw [hbest] at h
    exact iff_of_true rfl h
  | some k =>
    rw [hbest] at h
    exact iff_of_false (by simp) fun hclean => hclean k h.1

theorem earliest_eq_some {k : Nat} :
    earliest words text = some k ↔ Hits words text k ∧ ∀ j < k, ¬ Hits words text j := by
  have h := tried_earliest words text
  cases hbest : earliest words text with
  | none =>
    rw [hbest] at h
    exact iff_of_false (by simp) fun hk => h k hk.1
  | some b =>
    rw [hbest] at h
    constructor
    · intro heq
      cases heq
      exact h
    · intro hk
      have hle : ¬ b < k := fun hlt => hk.2 b hlt h.1
      have hge : ¬ k < b := fun hlt => h.2 k hlt hk.1
      rw [Nat.le_antisymm (Nat.not_lt.1 hge) (Nat.not_lt.1 hle)]

omit [DecidableEq α] in
/-- A hit inside a text is a hit of what follows it too. -/
theorem Hits.append {k : Nat} (h : Hits words text k) (more : List α) :
    Hits words (text ++ more) k := by
  obtain ⟨word, hmem, hne, hpre⟩ := h
  refine ⟨word, hmem, hne, ?_⟩
  rw [List.drop_append]
  exact hpre.trans (List.prefix_append _ _)

end Earliest

/-! ## Text in pieces -/

/-- The text before the earliest word, and the whole text where there is none. -/
def cut (words : List (List α)) (text : List α) : List α :=
  match earliest words text with
  | some k => text.take k
  | none => text

theorem cut_begins (words : List (List α)) (text : List α) : cut words text <+: text := by
  rw [cut]
  cases earliest words text with
  | none => exact List.prefix_rfl
  | some k => exact List.take_prefix k text

theorem cut_of_clean {words : List (List α)} {text : List α} (h : Clean words text) :
    cut words text = text := by
  rw [cut, earliest_eq_none.2 h]

omit [DecidableEq α] in
theorem Hits.lt_length {words : List (List α)} {text : List α} {k : Nat}
    (h : Hits words text k) : k < text.length := by
  obtain ⟨word, -, hne, hpre⟩ := h
  by_contra hout
  rw [List.drop_eq_nil_of_le (Nat.le_of_not_lt hout)] at hpre
  exact hne (List.prefix_nil.1 hpre)

/-- More text behind a word moves the cut only where another word comes to start
earlier. -/
theorem cut_append {words : List (List α)} {text : List α} {pos : Nat}
    (h : earliest words text = some pos) (more : List α) :
    cut words text = cut words (text ++ more) ↔ earliest words (text ++ more) = some pos := by
  have hhits := (earliest_eq_some.1 h).1
  have hin := hhits.lt_length
  cases hbest : earliest words (text ++ more) with
  | none => exact absurd (hhits.append more) (earliest_eq_none.1 hbest pos)
  | some best =>
    have hlt := (earliest_eq_some.1 hbest).1.lt_length
    rw [cut, cut, h, hbest, Option.some.injEq]
    constructor
    · intro hsame
      have hlengths := congrArg List.length hsame
      rw [List.length_take, List.length_take] at hlengths
      omega
    · intro heq
      rw [heq]
      exact (List.take_append_of_le_length (Nat.le_of_lt hin)).symm

/-- `emitted` is given out and `buffer` is kept: no word occurs in the text so
far, and what is kept is as long as the longest word needs. -/
structure Held (words : List (List α)) (maxLength : Nat) (emitted buffer : List α) : Prop where
  clean : Clean words (emitted ++ buffer)
  bound : ∀ word ∈ words, word.length ≤ maxLength
  kept : emitted ≠ [] → maxLength ≤ buffer.length + 1

namespace Held

variable {words : List (List α)} {maxLength : Nat} {emitted buffer : List α}

omit [DecidableEq α] in
/-- A word that occurs once more text has come does not start in the emitted
part. -/
theorem not_hits (h : Held words maxLength emitted buffer) (more : List α) {k : Nat}
    (hk : k < emitted.length) : ¬ Hits words (emitted ++ buffer ++ more) k := by
  rintro ⟨word, hmem, hne, hpre⟩
  have hemitted : emitted ≠ [] := List.ne_nil_of_length_pos (Nat.zero_lt_of_lt hk)
  have hlen := h.bound word hmem
  have hkept := h.kept hemitted
  have hin : k ≤ (emitted ++ buffer).length := by
    rw [List.length_append]
    omega
  rw [List.drop_append_of_le_length hin] at hpre
  refine h.clean k ⟨word, hmem, hne, ?_⟩
  apply List.prefix_of_prefix_length_le hpre (List.prefix_append _ _)
  rw [List.length_drop, List.length_append]
  omega

/-- The earliest word of the whole text is found in what is kept. -/
theorem earliest_append (h : Held words maxLength emitted buffer) (more : List α) :
    earliest words (emitted ++ buffer ++ more) =
      (earliest words (buffer ++ more)).map (emitted.length + ·) := by
  have hshift : ∀ k, Hits words (emitted ++ buffer ++ more) (emitted.length + k) ↔
      Hits words (buffer ++ more) k := by
    intro k
    rw [List.append_assoc]
    constructor
    · rintro ⟨word, hmem, hne, hpre⟩
      exact ⟨word, hmem, hne, by rwa [List.drop_length_add_append] at hpre⟩
    · rintro ⟨word, hmem, hne, hpre⟩
      exact ⟨word, hmem, hne, by rwa [List.drop_length_add_append]⟩
  cases hbest : earliest words (buffer ++ more) with
  | none =>
    rw [Option.map_none, earliest_eq_none]
    intro k hk
    by_cases hlt : k < emitted.length
    · exact h.not_hits more hlt hk
    · have heq : k = emitted.length + (k - emitted.length) := by omega
      rw [heq, hshift] at hk
      exact earliest_eq_none.1 hbest _ hk
  | some b =>
    obtain ⟨hhit, hfirst⟩ := earliest_eq_some.1 hbest
    rw [Option.map_some, earliest_eq_some]
    refine ⟨(hshift b).2 hhit, ?_⟩
    intro j hj hj'
    by_cases hlt : j < emitted.length
    · exact h.not_hits more hlt hj'
    · have heq : j = emitted.length + (j - emitted.length) := by omega
      rw [heq, hshift] at hj'
      exact hfirst _ (by omega) hj'

omit [DecidableEq α] in
/-- Giving out more of what is kept. -/
theorem give (h : Held words maxLength emitted buffer) (k : Nat)
    (hk : buffer.take k ≠ [] → maxLength ≤ (buffer.drop k).length + 1) :
    Held words maxLength (emitted ++ buffer.take k) (buffer.drop k) where
  clean := by
    rw [List.append_assoc, List.take_append_drop]
    exact h.clean
  bound := h.bound
  kept := by
    intro hne
    by_cases hnone : buffer.take k = []
    · have hwhole : buffer.drop k = buffer := by
        have hsplit := List.take_append_drop k buffer
        rwa [hnone, List.nil_append] at hsplit
      rw [hwhole]
      apply h.kept
      rintro rfl
      rw [hnone] at hne
      exact hne rfl
    · exact hk hnone

end Held

end EdgeLLM.Verified
