import EdgeLLM.Ports.Gemma4Call
import EdgeLLM.Verified.Bracketing
import EdgeLLM.Verified.Splitting

/-!
# What the Gemma 4 scanner sees

The generator of unquoted characters, told piece by piece: a text that starts
and ends outside all strings (`Spans`) yields its own characters, a balanced
word, whatever comes before and behind it. The two loops over the generator
are readers of balanced words, so a value is passed over by both.
-/

namespace EdgeLLM.Ports.ToolCalling.Gemma4

open Verified.Bracketing Verified.Splitting

/-- The brackets of the grammar, as the generator yields them. -/
def brackets : Brackets (Nat × Char) Char where
  opens item := if item.2 = '[' ∨ item.2 = '{' then some item.2 else none
  closes item := if item.2 = ']' ∨ item.2 = '}' then some (openerOf item.2) else none

/-- A yield that separates no fields. -/
def NoComma (item : Nat × Char) : Prop := item.2 ≠ ','

theorem plain_iff (item : Nat × Char) :
    brackets.Plain item ↔ item.2 ≠ '[' ∧ item.2 ≠ '{' ∧ item.2 ≠ ']' ∧ item.2 ≠ '}' := by
  constructor
  · intro h
    have hopens := h.opens
    have hcloses := h.closes
    simp only [brackets, ite_eq_right_iff, reduceCtorEq, imp_false, not_or] at hopens hcloses
    exact ⟨hopens.1, hopens.2, hcloses.1, hcloses.2⟩
  · intro h
    obtain ⟨h1, h2, h3, h4⟩ := h
    exact ⟨by simp [brackets, h1, h2], by simp [brackets, h3, h4]⟩

/-- What a piece of the text yields, before what the rest yields. -/
def prepend (marks : List (Nat × Char)) (rest : List (Nat × Char) × Bool) :
    List (Nat × Char) × Bool :=
  (marks ++ rest.1, rest.2)

/-- From outside all strings, the piece yields the same balanced word in every
surrounding, and leaves the scanner outside all strings. -/
def Spans (P : Nat × Char → Prop) (t : Text) : Prop :=
  ∀ i, ∃ marks, Balanced brackets P marks ∧ ∀ rest,
    unquotedFrom .none 0 i (t ++ rest) = prepend marks (unquotedFrom .none 0 (i + t.length) rest)

variable {P : Nat × Char → Prop} {t u : Text}

theorem unquotedFrom_skip (quote : Quote) (i : Nat) (a rest : Text) :
    unquotedFrom quote a.length i (a ++ rest) = unquotedFrom quote 0 (i + a.length) rest := by
  induction a generalizing i with
  | nil => rfl
  | cons ch a ih =>
    rw [List.length_cons, List.cons_append, unquotedFrom, ih]
    congr 1
    omega

theorem Spans.nil : Spans P [] := by
  intro i
  exact ⟨[], .nil, fun rest => rfl⟩

theorem Spans.append (ht : Spans P t) (hu : Spans P u) : Spans P (t ++ u) := by
  intro i
  obtain ⟨m, hm, hmt⟩ := ht i
  obtain ⟨n, hn, hnu⟩ := hu (i + t.length)
  refine ⟨m ++ n, hm.append hn, ?_⟩
  intro rest
  rw [List.append_assoc, hmt, hnu, List.length_append]
  simp [prepend, Nat.add_assoc]

theorem Spans.mono {Q : Nat × Char → Prop} (ht : Spans P t) (hPQ : ∀ item, P item → Q item) :
    Spans Q t := by
  intro i
  obtain ⟨m, hm, hmt⟩ := ht i
  exact ⟨m, hm.mono hPQ, hmt⟩

/-- A character that no string starts with. -/
def Bare (ch : Char) : Prop := ch ≠ '"' ∧ ch ≠ '<'

instance (ch : Char) : Decidable (Bare ch) := inferInstanceAs (Decidable (_ ∧ _))

theorem unquotedFrom_bare {ch : Char} (h : Bare ch) (i : Nat) (rest : Text) :
    unquotedFrom .none 0 i (ch :: rest) = prepend [(i, ch)] (unquotedFrom .none 0 (i + 1) rest) := by
  have hdelimiter : delimiter.isPrefixOf (ch :: rest) = false := by
    rw [Bool.eq_false_iff, ne_eq, List.isPrefixOf_iff_prefix]
    intro hpre
    exact h.2 (List.cons_prefix_cons.1 hpre).1.symm
  rw [unquotedFrom, hdelimiter]
  simp [h.1, prepend]

theorem Spans.single {ch : Char} (hbare : Bare ch)
    (h : ∀ i, brackets.Plain (i, ch) ∧ P (i, ch)) : Spans P [ch] := by
  intro i
  refine ⟨[(i, ch)], .plain (h i).1 (h i).2 .nil, ?_⟩
  intro rest
  exact unquotedFrom_bare hbare i rest

theorem Spans.plain (h : ∀ ch ∈ t, Bare ch ∧ ∀ i, brackets.Plain (i, ch) ∧ P (i, ch)) :
    Spans P t := by
  induction t with
  | nil => exact .nil
  | cons ch t ih =>
    have hch := h ch (by simp)
    have htail : Spans P t := ih fun c hc => h c (by simp [hc])
    exact (Spans.single hch.1 hch.2).append htail

theorem Spans.enclose {opening closing : Char} (hpair : ∀ i j, ∃ k,
      brackets.opens (i, opening) = some k ∧ brackets.opens (j, closing) = none ∧
        brackets.closes (j, closing) = some k)
    (hopening : Bare opening) (hclosing : Bare closing) (ht : Spans (fun _ => True) t) :
    Spans P (opening :: (t ++ [closing])) := by
  intro i
  obtain ⟨m, hm, hmt⟩ := ht (i + 1)
  obtain ⟨k, hopen, hcl, hclose⟩ := hpair i (i + 1 + t.length)
  refine ⟨_, Balanced.enclose hopen hcl hclose hm, ?_⟩
  intro rest
  rw [List.cons_append, List.append_assoc, unquotedFrom_bare hopening, hmt, List.singleton_append,
    unquotedFrom_bare hclosing]
  simp [prepend, Nat.add_assoc, Nat.add_comm 1]

theorem Spans.inBrackets (ht : Spans (fun _ => True) t) : Spans P ('[' :: (t ++ [']'])) := by
  apply Spans.enclose _ (by decide) (by decide) ht
  intro i j
  exact ⟨'[', by simp [brackets], by simp [brackets], by simp [brackets, openerOf]⟩

theorem Spans.inBraces (ht : Spans (fun _ => True) t) : Spans P ('{' :: (t ++ ['}'])) := by
  apply Spans.enclose _ (by decide) (by decide) ht
  intro i j
  exact ⟨'{', by simp [brackets], by simp [brackets], by simp [brackets, openerOf]⟩

theorem delimiter_headed : Headed '<' delimiter := ⟨"|\"|>".toList, rfl, by decide⟩

/-- The closing delimiter is the first one behind a text without delimiters. -/
theorem not_delimiter_early {s rest : Text} (hs : ¬ delimiter <:+: s) (hne : s ≠ []) :
    ¬ delimiter <+: s ++ (delimiter ++ rest) := by
  intro hearly
  have hclosing : delimiter <+: (s ++ (delimiter ++ rest)).drop s.length := by
    rw [List.drop_left]
    exact List.prefix_append _ _
  have hlength := Headed.apart (i := 0) delimiter_headed delimiter_headed (by simpa using hearly)
    hclosing (List.length_pos_iff.2 hne)
  apply hs
  exact (List.prefix_of_prefix_length_le hearly (List.prefix_append _ _) (by omega)).isInfix

theorem unquotedFrom_delimiter (quote : Quote) (hquote : quote ≠ .json) (i : Nat) (rest : Text) :
    unquotedFrom quote 0 i (delimiter ++ rest) =
      unquotedFrom (if quote = .token then .none else .token) 0 (i + delimiter.length) rest := by
  have hdelimiter : delimiter.isPrefixOf (delimiter ++ rest) = true := by
    rw [List.isPrefixOf_iff_prefix]
    exact List.prefix_append _ _
  have hcons : delimiter ++ rest = '<' :: ("|\"|>".toList ++ rest) := rfl
  rw [hcons] at hdelimiter ⊢
  have hskip := fun q => unquotedFrom_skip q (i + 1) "|\"|>".toList rest
  cases quote with
  | none =>
    rw [unquotedFrom, if_pos hdelimiter]
    exact hskip .token
  | token =>
    rw [unquotedFrom, if_pos hdelimiter]
    exact hskip .none
  | json => exact absurd rfl hquote

theorem unquotedFrom_string {s : Text} (hs : ¬ delimiter <:+: s) (i : Nat) (rest : Text) :
    unquotedFrom .token 0 i (s ++ (delimiter ++ rest)) =
      unquotedFrom .none 0 (i + s.length + delimiter.length) rest := by
  induction s generalizing i with
  | nil => exact unquotedFrom_delimiter .token (by decide) i rest
  | cons ch s ih =>
    have htail : ¬ delimiter <:+: s := fun h => hs (h.trans (List.suffix_cons ch s).isInfix)
    have hearly : delimiter.isPrefixOf (ch :: (s ++ (delimiter ++ rest))) = false := by
      rw [Bool.eq_false_iff, ne_eq, List.isPrefixOf_iff_prefix]
      exact not_delimiter_early hs (List.cons_ne_nil ch s)
    rw [List.cons_append, unquotedFrom, hearly]
    simp only [Bool.false_eq_true, if_false]
    rw [ih htail, List.length_cons]
    congr 1
    omega

theorem Spans.string {s : Text} (hs : ¬ delimiter <:+: s) :
    Spans P (delimiter ++ (s ++ delimiter)) := by
  intro i
  refine ⟨[], .nil, ?_⟩
  intro rest
  have hshape : delimiter ++ (s ++ delimiter) ++ rest = delimiter ++ (s ++ (delimiter ++ rest)) := by
    simp
  rw [hshape, unquotedFrom_delimiter .none (by decide)]
  show unquotedFrom .token 0 _ _ = _
  rw [unquotedFrom_string hs]
  simp [prepend, Nat.add_assoc]

theorem openerOf_close {item : Nat × Char} {k : Char} (h : brackets.closes item = some k) :
    (item.2 = ']' ∧ k = '[') ∨ (item.2 = '}' ∧ k = '{') := by
  obtain ⟨i, ch⟩ := item
  by_cases hbracket : ch = ']'
  · subst hbracket
    exact .inl ⟨rfl, by simpa [brackets, openerOf, eq_comm] using h⟩
  · by_cases hbrace : ch = '}'
    · subst hbrace
      exact .inr ⟨rfl, by simpa [brackets, openerOf, eq_comm] using h⟩
    · simp [brackets, hbracket, hbrace] at h

theorem opener_eq {item : Nat × Char} {k : Char} (h : brackets.opens item = some k) :
    item.2 = k ∧ (k = '[' ∨ k = '{') := by
  simp only [brackets, Option.ite_none_right_eq_some, Option.some.injEq] at h
  obtain ⟨hch, hk⟩ := h
  exact ⟨hk, hk ▸ hch⟩

/-- The depth of `_gemma4_object_end` inside the object. -/
theorem endStep_reader :
    Reader brackets (fun _ => True) endStep (fun depth => 1 ≤ depth) (fun depth => 1 ≤ depth) where
  plain := by
    intro depth item hdepth hplain _
    have h := (plain_iff item).1 hplain
    simp [endStep, h.2.1, h.2.2.2]
  pair := by
    intro depth a b k hdepth hopen hcl hclose
    obtain ⟨ha, hk⟩ := opener_eq hopen
    rcases openerOf_close hclose with ⟨hb, rfl⟩ | ⟨hb, rfl⟩
    · refine ⟨depth, by simp [endStep, ha], hdepth, hdepth, by simp [endStep, hb]⟩
    · refine ⟨depth + 1, by simp [endStep, ha], by omega, by omega, ?_⟩
      have hne : depth + 1 - 1 ≠ 0 := by omega
      simp only [endStep, hb]
      rw [if_neg (by decide), if_pos trivial, if_neg hne]
      congr 1
      omega

theorem splitStep_reader (text : Text) :
    Reader brackets NoComma (splitStep text) (fun _ => True) (fun s => s.stack ≠ []) where
  plain := by
    intro s item _ hplain hcomma
    have h := (plain_iff item).1 hplain
    have hskip : ¬ (item.2 = ',' ∧ s.stack = []) := by
      intro hsep
      rcases hcomma with hno | hinside
      · exact hno hsep.1
      · exact hinside hsep.2
    simp [splitStep, h.1, h.2.1, h.2.2.1, h.2.2.2, hskip]
  pair := by
    intro s a b k _ hopen hcl hclose
    obtain ⟨ha, hk⟩ := opener_eq hopen
    refine ⟨{ s with stack := k :: s.stack }, ?_, trivial, by simp, ?_⟩
    · simp [splitStep, ha, hk]
    · rcases openerOf_close hclose with ⟨hb, rfl⟩ | ⟨hb, rfl⟩
      · simp [splitStep, hb, openerOf]
      · simp [splitStep, hb, openerOf]

/-- `_gemma4_object_end` of an object with any text behind it. -/
theorem objectEnd_eq (ht : Spans (fun _ => True) t) (before rest : Text) :
    objectEnd (before ++ ('{' :: (t ++ ['}']) ++ rest)) before.length =
      some (before.length + ('{' :: (t ++ ['}'])).length) := by
  have hdrop : (before ++ ('{' :: (t ++ ['}']) ++ rest)).drop before.length =
      '{' :: (t ++ ('}' :: rest)) := by
    rw [List.drop_left]
    simp
  obtain ⟨m, hm, hmt⟩ := ht 1
  have hbody : m.foldlM endStep 1 = .ok 1 := hm.foldlM_eq endStep_reader 1 (by decide)
  have hyields : (unquoted ('{' :: (t ++ ('}' :: rest)))).1 =
      (0, '{') :: (m ++ (1 + t.length, '}') ::
        (unquotedFrom .none 0 (1 + t.length + 1) rest).1) := by
    rw [unquoted, unquotedFrom_bare (by decide), Nat.zero_add, hmt, unquotedFrom_bare (by decide)]
    simp [prepend]
  have hloop : (unquoted ('{' :: (t ++ ('}' :: rest)))).1.foldlM endStep 0 =
      .error (1 + t.length + 1) := by
    rw [hyields, List.foldlM_cons]
    show List.foldlM endStep 1 _ = _
    rw [List.foldlM_append, hbody]
    rfl
  rw [objectEnd, hdrop, if_pos (by rfl), hloop]
  simp
  omega

/-- Fields with commas between them. -/
def separated : List Text → Text
  | [] => []
  | [t] => t
  | t :: ts => t ++ ',' :: separated ts

/-- The loop of `_split_gemma4_fields` from the start of a field on. -/
theorem splitStep_separated (text : Text) {pieces : List Text} (hne : pieces ≠ [])
    (hspans : ∀ piece ∈ pieces, Spans NoComma piece) :
    ∀ done start, text.drop start = separated pieces →
      (unquotedFrom .none 0 start (separated pieces)).2 = false ∧
      ∃ s, (unquotedFrom .none 0 start (separated pieces)).1.foldlM (splitStep text)
            { fields := done, start := start, stack := [] } = .ok s ∧
        s.stack = [] ∧ s.fields ++ [strip (text.drop s.start)] = done ++ pieces.map strip := by
  induction pieces with
  | nil => exact absurd rfl hne
  | cons piece pieces ih =>
    intro done start hdrop
    obtain ⟨m, hm, hmt⟩ := hspans piece (by simp) start
    have hpass := hm.foldlM_eq (splitStep_reader text)
      { fields := done, start := start, stack := [] } trivial
    cases pieces with
    | nil =>
      have hyields := hmt []
      rw [List.append_nil] at hyields
      simp only [separated] at hdrop ⊢
      rw [hyields]
      refine ⟨rfl, { fields := done, start := start, stack := [] }, ?_, rfl, ?_⟩
      · simpa [prepend, unquotedFrom] using hpass
      · simp [hdrop]
    | cons next pieces =>
      have hsep : separated (piece :: next :: pieces) =
          piece ++ ',' :: separated (next :: pieces) := rfl
      have hyields := hmt (',' :: separated (next :: pieces))
      rw [unquotedFrom_bare (by decide)] at hyields
      rw [hsep] at hdrop ⊢
      have hbehind : text.drop (start + piece.length + 1) = separated (next :: pieces) := by
        rw [Nat.add_assoc, ← List.drop_drop, hdrop, ← List.drop_drop, List.drop_left]
        rfl
      have hcut : (text.drop start).take piece.length = piece := by
        rw [hdrop, List.take_left]
      obtain ⟨hflag, s, hs, hstack, hfields⟩ := ih (by simp)
        (fun p hp => hspans p (by simp [hp])) (done ++ [strip piece]) _ hbehind
      rw [hyields]
      refine ⟨hflag, s, ?_, hstack, by simp [hfields]⟩
      have hcomma : splitStep text { fields := done, start := start, stack := [] }
          (start + piece.length, ',') =
            .ok { fields := done ++ [strip piece], start := start + piece.length + 1,
                  stack := [] } := by
        simp [splitStep, hcut]
      simp only [prepend, List.foldlM_append, List.singleton_append, List.foldlM_cons, hpass]
      show (do
        let next ← splitStep text { fields := done, start := start, stack := [] }
          (start + piece.length, ',')
        List.foldlM (splitStep text) next _) = _
      rw [hcomma]
      exact hs

/-- `_split_gemma4_fields` gives the fields between the commas. -/
theorem splitFields_separated {pieces : List Text} (hne : pieces ≠ [])
    (hspans : ∀ piece ∈ pieces, Spans NoComma piece) (hfull : ∀ piece ∈ pieces, strip piece ≠ []) :
    splitFields (separated pieces) = .ok (pieces.map strip) := by
  obtain ⟨hflag, s, hs, hstack, hfields⟩ :=
    splitStep_separated (separated pieces) hne hspans [] 0 (by simp)
  have hblank : (pieces.map strip).contains [] = false := by
    rw [List.contains_eq_mem, decide_eq_false_iff_not]
    intro hmem
    obtain ⟨piece, hpiece, hempty⟩ := List.mem_map.1 hmem
    exact hfull piece hpiece hempty
  rw [List.nil_append] at hfields
  rw [splitFields, unquoted, hs]
  simp only [hflag, hstack, hfields, hblank, if_false, Bool.false_eq_true, ne_eq, not_true_eq_false]

/-- The first colon outside strings is the one behind the key. -/
theorem find_colon {key : Text} (hkey : ∀ ch ∈ key, Bare ch ∧ ch ≠ ':') (i : Nat) (rest : Text) :
    (unquotedFrom .none 0 i (key ++ ':' :: rest)).1.find? (·.2 = ':') =
      some (i + key.length, ':') := by
  induction key generalizing i with
  | nil =>
    rw [List.nil_append, unquotedFrom_bare (by decide)]
    simp [prepend]
  | cons ch key ih =>
    have hch := hkey ch (by simp)
    rw [List.cons_append, unquotedFrom_bare hch.1]
    have htail := ih (fun c hc => hkey c (by simp [hc])) (i + 1)
    simp only [prepend, List.singleton_append]
    rw [List.find?_cons_of_neg (by simpa using hch.2), htail, List.length_cons]
    congr 2
    omega

end EdgeLLM.Ports.ToolCalling.Gemma4
