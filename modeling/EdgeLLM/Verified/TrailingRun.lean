import EdgeLLM.Verified.Markers
import Mathlib.Data.List.Find

/-!
# The trailing run of tokens in a text that comes in chunks

The trailing run of a text is taken off token by token, from its end.  A stream
does not know where the text ends: it keeps the run of what has come so far,
and behind it the longest end that more text may complete to a token.  Where no
end of a token begins a token (`Unbordered`) a token never lies across the
border before such an end, so what is kept decides what is taken off.
-/

namespace EdgeLLM.Verified.TrailingRun

open Splitting Markers

variable {α : Type*}

/-- No end of a token begins a token, but for the token itself. -/
def Unbordered (tokens : List (List α)) : Prop :=
  ∀ t ∈ tokens, ∀ u ∈ tokens, ∀ w, w ≠ [] → w <:+ t → w ≠ t → w <+: u → w = u

/-- No token lies across the border of the two texts. -/
def Apart (tokens : List (List α)) (a b : List α) : Prop :=
  ∀ x y, x ++ y ∈ tokens → x ≠ [] → y ≠ [] → x <:+ a → ¬ y <+: b

theorem Apart.mono {tokens : List (List α)} {a a' b b' : List α} (h : Apart tokens a b)
    (ha : a' <:+ a) (hb : b' <+: b) : Apart tokens a' b' := by
  intro x y htoken hx hy hxa hyb
  exact h x y htoken hx hy (hxa.trans ha) (hyb.trans hb)

/-- The text ends with none of the tokens. -/
def Clean (tokens : List (List α)) (text : List α) : Prop :=
  ∀ t ∈ tokens, t ≠ [] → ¬ t <:+ text

theorem clean_nil {tokens : List (List α)} : Clean tokens [] :=
  fun _ _ hne hends => hne (List.suffix_nil.1 hends)

theorem suffix_append_cases {t a b : List α} (h : t <:+ a ++ b) :
    t <:+ b ∨ ∃ x, x ≠ [] ∧ t = x ++ b ∧ x <:+ a := by
  rcases List.suffix_or_suffix_of_suffix h (List.suffix_append a b) with hshort | hlong
  · exact .inl hshort
  · obtain ⟨x, rfl⟩ := hlong
    by_cases hx : x = []
    · left
      rw [hx, List.nil_append]
    · obtain ⟨r, hr⟩ := h
      rw [← List.append_assoc] at hr
      exact .inr ⟨x, hx, rfl, r, List.append_cancel_right hr⟩

/-- With no token across the border the same tokens end both. -/
theorem Apart.ends_iff {tokens : List (List α)} {a b t : List α} (h : Apart tokens a b) (hb : b ≠ []) (ht : t ∈ tokens) :
    t <:+ a ++ b ↔ t <:+ b := by
  constructor
  · intro hends
    rcases suffix_append_cases hends with hshort | hlong
    · exact hshort
    · obtain ⟨x, hx, rfl, hxa⟩ := hlong
      exact absurd (List.prefix_refl b) (h x b ht hx hb hxa)
  · intro hends
    exact hends.trans (List.suffix_append a b)

theorem unbordered_iff {tokens : List (List α)} :
    Unbordered tokens ↔ ∀ t ∈ tokens, ∀ u ∈ tokens, ∀ k < t.length, 0 < k →
      t.drop k <+: u → t.drop k = u := by
  constructor
  · intro h t ht u hu k hk hpos hprefix
    apply h t ht u hu _ _ (List.drop_suffix k t) _ hprefix
    · rw [← List.length_pos_iff, List.length_drop]
      omega
    · intro heq
      have hlen := congrArg List.length heq
      rw [List.length_drop] at hlen
      omega
  · intro h t ht u hu w hw hsuffix hne hprefix
    obtain ⟨r, rfl⟩ := hsuffix
    have hwpos := List.length_pos_iff.2 hw
    have hrpos : 0 < r.length := by
      apply List.length_pos_iff.2
      intro hr
      exact hne (by rw [hr, List.nil_append])
    have hdrop : (r ++ w).drop r.length = w := List.drop_left
    have heq := h _ ht u hu r.length (by rw [List.length_append]; omega) hrpos
    rw [hdrop] at heq
    exact heq hprefix

variable [DecidableEq α]

instance (tokens : List (List α)) : Decidable (Unbordered tokens) :=
  decidable_of_iff _ unbordered_iff.symm

/-- The first token of the list that the text ends with. -/
def lastToken (tokens : List (List α)) (text : List α) : Option (List α) :=
  tokens.find? fun token => !token.isEmpty && token.isSuffixOf text

section LastToken

variable {tokens : List (List α)} {text token : List α}

theorem ends_iff :
    (!token.isEmpty && token.isSuffixOf text) = true ↔ token ≠ [] ∧ token <:+ text := by
  simp [List.isSuffixOf_iff_suffix]

theorem lastToken_eq_none : lastToken tokens text = none ↔ Clean tokens text := by
  rw [lastToken, List.find?_eq_none]
  constructor
  · intro h t ht hne hends
    exact h t ht (ends_iff.2 ⟨hne, hends⟩)
  · intro h t ht hends
    obtain ⟨hne, hsuffix⟩ := ends_iff.1 hends
    exact h t ht hne hsuffix

theorem lastToken_mem (h : lastToken tokens text = some token) :
    token ∈ tokens ∧ token ≠ [] ∧ token <:+ text := by
  rw [lastToken] at h
  have hends := List.find?_some h
  exact ⟨List.mem_of_find?_eq_some h, ends_iff.1 hends⟩

/-- Where the same tokens end two texts, the same token is found. -/
theorem lastToken_congr {text' : List α} (h : ∀ t ∈ tokens, t ≠ [] → (t <:+ text ↔ t <:+ text')) :
    lastToken tokens text = lastToken tokens text' := by
  apply List.find?_congr
  intro t ht
  rw [Bool.eq_iff_iff, ends_iff, ends_iff]
  constructor
  · intro hends
    exact ⟨hends.1, (h t ht hends.1).1 hends.2⟩
  · intro hends
    exact ⟨hends.1, (h t ht hends.1).2 hends.2⟩

/-- An end of the text that holds the token found. -/
theorem lastToken_of_suffix {rest : List α} (hrest : rest <:+ text)
    (h : lastToken tokens text = some token) (htoken : token <:+ rest) :
    lastToken tokens rest = some token := by
  obtain ⟨hends, before, behind, htokens, hfirst⟩ := List.find?_eq_some_iff_append.1 h
  apply List.find?_eq_some_iff_append.2
  refine ⟨ends_iff.2 ⟨(ends_iff.1 hends).1, htoken⟩, before, behind, htokens, ?_⟩
  intro t ht
  have hno := hfirst t ht
  rw [Bool.not_eq_true', ← Bool.not_eq_true, ends_iff] at hno ⊢
  intro hends
  exact hno ⟨hends.1, hends.2.trans hrest⟩

end LastToken

/-- The text without its trailing run of tokens. -/
def dropTrailing (tokens : List (List α)) (text : List α) : List α :=
  match _h : lastToken tokens text with
  | none => text
  | some token => dropTrailing tokens (text.take (text.length - token.length))
termination_by text.length
decreasing_by
  obtain ⟨-, hne, hends⟩ := lastToken_mem _h
  have hpos := List.length_pos_iff.2 hne
  have hle := hends.length_le
  rw [List.length_take]
  omega

section DropTrailing

variable {tokens : List (List α)} {text token : List α}

theorem dropTrailing_of_clean (h : Clean tokens text) : dropTrailing tokens text = text := by
  rw [dropTrailing]
  split
  · rfl
  · next hsome =>
      rw [lastToken_eq_none.2 h] at hsome
      cases hsome

/-- The last token goes, then the run before it. -/
theorem dropTrailing_append_token {before : List α}
    (h : lastToken tokens (before ++ token) = some token) :
    dropTrailing tokens (before ++ token) = dropTrailing tokens before := by
  rw [dropTrailing]
  split
  · next hnone =>
      rw [hnone] at h
      cases h
  · next found hsome =>
      rw [hsome] at h
      cases h
      rw [List.length_append, Nat.add_sub_cancel, List.take_left]

/-- Induction along the run, from the end of the text. -/
theorem induction_run (tokens : List (List α)) {motive : List α → Prop}
    (clean : ∀ text, Clean tokens text → motive text)
    (token : ∀ before token, lastToken tokens (before ++ token) = some token →
      motive before → motive (before ++ token)) : ∀ text, motive text := by
  intro text
  induction text using dropTrailing.induct tokens with
  | case1 text hnone => exact clean text (lastToken_eq_none.1 hnone)
  | case2 text found hsome ih =>
    obtain ⟨-, -, hends⟩ := lastToken_mem hsome
    obtain ⟨before, rfl⟩ := hends
    rw [List.length_append, Nat.add_sub_cancel, List.take_left] at ih
    exact token before found hsome ih

/-- What is taken off is a run of tokens, and no token is left at the end. -/
theorem dropTrailing_spec (tokens : List (List α)) (text : List α) :
    Clean tokens (dropTrailing tokens text) ∧ ∃ run : List (List α), (∀ t ∈ run, t ∈ tokens) ∧
        text = dropTrailing tokens text ++ run.flatten := by
  induction text using induction_run tokens with
  | clean text h =>
    rw [dropTrailing_of_clean h]
    exact ⟨h, [], by simp, by simp⟩
  | token before token h ih =>
    obtain ⟨hclean, run, hrun, hbefore⟩ := ih
    rw [dropTrailing_append_token h]
    refine ⟨hclean, run ++ [token], ?_, ?_⟩
    · intro t ht
      rcases List.mem_append.1 ht with hmem | hmem
      · exact hrun t hmem
      · rw [List.mem_singleton.1 hmem]
        exact (lastToken_mem h).1
    · rw [List.flatten_append, ← List.append_assoc, ← hbefore, List.flatten_singleton]

theorem dropTrailing_begins (tokens : List (List α)) (text : List α) :
    dropTrailing tokens text <+: text := by
  obtain ⟨-, run, -, htext⟩ := dropTrailing_spec tokens text
  exact ⟨run.flatten, htext.symm⟩

/-- The run by itself is taken off entirely. -/
theorem dropTrailing_run (tokens : List (List α)) (text : List α) :
    ∀ run, text = dropTrailing tokens text ++ run → dropTrailing tokens run = [] := by
  induction text using induction_run tokens with
  | clean text h =>
    intro run hrun
    rw [dropTrailing_of_clean h] at hrun
    rw [List.self_eq_append_right.1 hrun, dropTrailing_of_clean clean_nil]
  | token before token h ih =>
    intro run hrun
    rw [dropTrailing_append_token h] at hrun
    obtain ⟨rest, hrest⟩ := dropTrailing_begins tokens before
    have heq : run = rest ++ token := by
      have hjoin : dropTrailing tokens before ++ (rest ++ token) = before ++ token := by
        rw [← List.append_assoc, hrest]
      exact (List.append_cancel_left (hjoin.trans hrun)).symm
    have hlast : lastToken tokens (rest ++ token) = some token := by
      apply lastToken_of_suffix _ h (List.suffix_append rest token)
      rw [← hrest, List.append_assoc]
      exact List.suffix_append _ _
    rw [heq, dropTrailing_append_token hlast]
    exact ih rest hrest.symm

/-- With no token across the border the run of the second text comes off first,
and that of the first text only if nothing else is left. -/
theorem dropTrailing_append {a : List α} (b : List α) (h : Apart tokens a b) :
    dropTrailing tokens (a ++ b) = if dropTrailing tokens b = [] then dropTrailing tokens a
      else a ++ dropTrailing tokens b := by
  induction b using induction_run tokens with
  | clean b hclean =>
    rw [dropTrailing_of_clean hclean]
    by_cases hb : b = []
    · rw [if_pos hb, hb, List.append_nil]
    · rw [if_neg hb, dropTrailing_of_clean]
      intro t ht hne hends
      exact hclean t ht hne ((h.ends_iff hb ht).1 hends)
  | token before token hlast ih =>
    have hne := (lastToken_mem hlast).2.1
    have hsame : lastToken tokens (a ++ (before ++ token)) = some token := by
      rw [← hlast]
      apply lastToken_congr
      intro t ht _
      exact h.ends_iff (by simp [hne]) ht
    rw [← List.append_assoc] at hsame ⊢
    rw [dropTrailing_append_token hsame, dropTrailing_append_token hlast]
    exact ih (h.mono (List.suffix_refl a) (List.prefix_append before token))

end DropTrailing

/-- What may be given out of a text that more text may follow. -/
def safe (tokens : List (List α)) (text : List α) : List α :=
  dropTrailing tokens (released text tokens)

/-- The run before what a token may be completed from. -/
def runOf (tokens : List (List α)) (text : List α) : List α :=
  (released text tokens).drop (safe tokens text).length

/-- What is kept. -/
def kept (tokens : List (List α)) (text : List α) : List α :=
  text.drop (safe tokens text).length

section Streams

variable {tokens : List (List α)} {text : List α}

theorem safe_append_runOf (tokens : List (List α)) (text : List α) :
    safe tokens text ++ runOf tokens text = released text tokens :=
  List.prefix_iff_eq_append.1 (dropTrailing_begins tokens (released text tokens))

theorem kept_eq (tokens : List (List α)) (text : List α) :
    kept tokens text = runOf tokens text ++ held text tokens := by
  have hdrop : (safe tokens text ++ (runOf tokens text ++ held text tokens)).drop
      (safe tokens text).length = runOf tokens text ++ held text tokens := List.drop_left
  rwa [← List.append_assoc, safe_append_runOf, released_append_held] at hdrop

theorem safe_append_kept (tokens : List (List α)) (text : List α) :
    safe tokens text ++ kept tokens text = text := by
  rw [kept_eq, ← List.append_assoc, safe_append_runOf, released_append_held]

/-- No token lies across the border before what a token may be completed from. -/
theorem apart_released (h : Unbordered tokens) (text more : List α) :
    Apart tokens (released text tokens) (held text tokens ++ more) := by
  intro x y htoken hx hy hxa hyb
  have hxpos := List.length_pos_iff.2 hx
  have hypos := List.length_pos_iff.2 hy
  have hheld := held_length tokens text
  have hends : x ++ held text tokens <:+ text := by
    obtain ⟨r, hr⟩ := hxa
    refine ⟨r, ?_⟩
    rw [← List.append_assoc, hr, released_append_held]
  by_cases hshort : y.length ≤ (held text tokens).length
  · -- an end of the token begins the token that is held for
    have hyheld := List.prefix_of_prefix_length_le hyb (List.prefix_append _ more) hshort
    rcases heldLength_cases tokens text with hzero | hheldFor
    · omega
    · obtain ⟨w, hw, hle, hlt, hsuffix⟩ := hheldFor
      have hlen : (w.take (heldLength text tokens)).length = heldLength text tokens :=
        List.length_take_of_le (Nat.le_of_lt hlt)
      have htake : held text tokens = w.take (heldLength text tokens) := by
        apply List.IsSuffix.eq_of_length _ (by rw [hheld, hlen])
        apply List.suffix_of_suffix_length_le (List.drop_suffix _ text) hsuffix
        rw [hlen]
        exact Nat.le_of_eq hheld
      have hyw : y <+: w := by
        rw [htake] at hyheld
        exact hyheld.trans (List.take_prefix _ w)
      have hne : y ≠ x ++ y := fun heq => hx (List.self_eq_append_left.1 heq)
      have heq := h _ htoken w hw y hy (List.suffix_append x y) hne hyw
      rw [heq] at hshort
      omega
  · -- the token itself would be held for, from further back
    obtain ⟨z, rfl⟩ := List.prefix_of_prefix_length_le (List.prefix_append _ more) hyb (by omega)
    have htake : (x ++ (held text tokens ++ z)).take (x.length + (held text tokens).length) =
        x ++ held text tokens := by
      rw [← List.append_assoc, ← List.length_append, List.take_left]
    have hle := hends.length_le
    have hlonger : x.length + (held text tokens).length ≤ heldLength text tokens := by
      apply le_heldLength htoken
      refine ⟨by rwa [List.length_append] at hle, ?_, by rwa [htake]⟩
      simp only [List.length_append] at hshort ⊢
      omega
    omega

/-- The run of the text's released part, with something behind it that no token
reaches into from there. -/
theorem dropTrailing_released (h : Unbordered tokens) {b more : List α}
    (hb : b <+: held text tokens ++ more) : dropTrailing tokens (released text tokens ++ b) =
      safe tokens text ++ dropTrailing tokens (runOf tokens text ++ b) := by
  have hapart : Apart tokens (released text tokens) b :=
    (apart_released h text more).mono (List.suffix_refl _) hb
  have hrun : Apart tokens (runOf tokens text) b :=
    hapart.mono ⟨_, safe_append_runOf tokens text⟩ (List.prefix_refl b)
  have hnil : dropTrailing tokens (runOf tokens text) = [] :=
    dropTrailing_run tokens _ _ (safe_append_runOf tokens text).symm
  rw [dropTrailing_append b hapart, dropTrailing_append b hrun, hnil]
  by_cases hempty : dropTrailing tokens b = []
  · rw [if_pos hempty, if_pos hempty, List.append_nil]
    rfl
  · rw [if_neg hempty, if_neg hempty, ← List.append_assoc, safe_append_runOf]

/-- The run of the whole text comes off what is kept. -/
theorem dropTrailing_kept (h : Unbordered tokens) (text : List α) :
    dropTrailing tokens text = safe tokens text ++ dropTrailing tokens (kept tokens text) := by
  have hwhole := dropTrailing_released h (List.prefix_append (held text tokens) [])
  rwa [released_append_held, ← kept_eq] at hwhole

/-- The same end is kept for a token when the safe text is gone. -/
theorem heldLength_kept (tokens : List (List α)) (text : List α) :
    heldLength (kept tokens text) tokens = heldLength text tokens := by
  have hsuffix : kept tokens text <:+ text := List.drop_suffix _ text
  apply Nat.le_antisymm
  · rcases heldLength_cases tokens (kept tokens text) with hzero | hex
    · omega
    · obtain ⟨w, hw, hle, hlt, hends⟩ := hex
      exact le_heldLength hw ⟨Nat.le_trans hle hsuffix.length_le, hlt, hends.trans hsuffix⟩
  · rcases heldLength_cases tokens text with hzero | hex
    · omega
    · obtain ⟨w, hw, hle, hlt, hends⟩ := hex
      have hlong : heldLength text tokens ≤ (kept tokens text).length := by
        rw [kept_eq, List.length_append, held_length]
        omega
      have hlen := List.length_take_of_le (Nat.le_of_lt hlt)
      apply le_heldLength hw
      exact ⟨hlong, hlt, List.suffix_of_suffix_length_le hends hsuffix (by rwa [hlen])⟩

theorem held_kept (tokens : List (List α)) (text : List α) :
    held (kept tokens text) tokens = held text tokens ∧
      released (kept tokens text) tokens = runOf tokens text := by
  have hlen : (kept tokens text).length - heldLength (kept tokens text) tokens =
      (runOf tokens text).length := by
    rw [heldLength_kept, kept_eq, List.length_append, held_length]
    omega
  rw [held, released, hlen, kept_eq]
  exact ⟨List.drop_left, List.take_left⟩

/-- What may be given out of more text is what was given out, and what may be
given out behind what was kept. -/
theorem safe_append (h : Unbordered tokens) (text more : List α) : safe tokens (text ++ more) =
      safe tokens text ++ safe tokens (kept tokens text ++ more) := by
  obtain ⟨hheld, hreleased⟩ := held_kept tokens text
  have hb : released (held text tokens ++ more) tokens <+: held text tokens ++ more :=
    List.take_prefix _ _
  show dropTrailing tokens (released (text ++ more) tokens) =
    _ ++ dropTrailing tokens (released (kept tokens text ++ more) tokens)
  rw [released_append, released_append _ (kept tokens text), hheld, hreleased]
  exact dropTrailing_released h hb

/-- What is kept of more text is kept of what was kept. -/
theorem kept_append (h : Unbordered tokens) (text more : List α) :
    kept tokens (text ++ more) = kept tokens (kept tokens text ++ more) := by
  have hwhole := safe_append_kept tokens (text ++ more)
  have hinner := safe_append_kept tokens (kept tokens text ++ more)
  have htext := safe_append_kept tokens text
  rw [safe_append h, List.append_assoc] at hwhole
  conv_rhs at hwhole => rw [← htext, List.append_assoc, ← hinner]
  exact List.append_cancel_left (List.append_cancel_left hwhole)

end Streams

end EdgeLLM.Verified.TrailingRun
