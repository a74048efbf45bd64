import EdgeLLM.Ports.Gemma4Scanning

/-!
# Renderings of Gemma 4 arguments

The texts that write an argument object in the grammar of the parser, with any
blanks around the separators, and what the scanner sees of them: the fields of
a rendering are its parts between commas, without their blanks.
-/

namespace EdgeLLM.Ports.ToolCalling.Gemma4

open Verified.Bracketing

variable {O : Type}

def Blank (a : Text) : Prop := ∀ ch ∈ a, isSpace ch = true

instance (a : Text) : Decidable (Blank a) :=
  List.decidableBAll (fun ch => isSpace ch = true) a

mutual

/-- `t` writes the value, in the grammar the parser documents. -/
inductive Renders : Value O → Text → Prop where
  | none : Renders .none "null".toList
  | true : Renders (.bool true) "true".toList
  | false : Renders (.bool false) "false".toList
  | int (n : Int) : Renders (.int n) (decimal n)
  | str {s : Text} : ¬ delimiter <:+: s → Renders (.str s) (delimiter ++ (s ++ delimiter))
  | emptyList {a : Text} : Blank a → Renders (.list []) ('[' :: (a ++ [']']))
  | list {items : List (Value O)} {t : Text} :
      RendersItems items t → Renders (.list items) ('[' :: (t ++ [']']))
  | emptyDict {a : Text} : Blank a → Renders (.dict []) ('{' :: (a ++ ['}']))
  | dict {fields : List (Text × Value O)} {t : Text} :
      (fields.map (·.1)).Nodup → RendersFields fields t →
        Renders (.dict fields) ('{' :: (t ++ ['}']))

inductive RendersItems : List (Value O) → Text → Prop where
  | last {v : Value O} {t a b : Text} :
      Blank a → Blank b → Renders v t → RendersItems [v] (a ++ (t ++ b))
  | cons {v : Value O} {vs : List (Value O)} {t ts a b : Text} :
      Blank a → Blank b → Renders v t → RendersItems vs ts →
        RendersItems (v :: vs) (a ++ (t ++ b) ++ ',' :: ts)

inductive RendersFields : List (Text × Value O) → Text → Prop where
  | last {key : Text} {v : Value O} {t a b c d : Text} :
      isIdentifier key = true → Blank a → Blank b → Blank c → Blank d → Renders v t →
        RendersFields [(key, v)] (a ++ ((key ++ (b ++ ':' :: (c ++ t))) ++ d))
  | cons {key : Text} {v : Value O} {fields : List (Text × Value O)} {t ts a b c d : Text} :
      isIdentifier key = true → Blank a → Blank b → Blank c → Blank d → Renders v t →
        RendersFields fields ts →
        RendersFields ((key, v) :: fields)
          (a ++ ((key ++ (b ++ ':' :: (c ++ t))) ++ d) ++ ',' :: ts)

end

mutual

/-- The calls of `_parse_gemma4_value` and `_parse_gemma4_object` that are
nested when the value is parsed. -/
def framesOf : Value O → Nat
  | .list items => framesOfItems items + 1
  | .dict fields => framesOfFields fields + 2
  | _ => 1

def framesOfItems : List (Value O) → Nat
  | [] => 0
  | v :: vs => max (framesOf v) (framesOfItems vs)

def framesOfFields : List (Text × Value O) → Nat
  | [] => 0
  | (_, v) :: vs => max (framesOf v) (framesOfFields vs)

end

mutual

/-- The digits of the longest integer in the value. -/
def digitsOf : Value O → Nat
  | .int n => (Nat.toDigits 10 n.natAbs).length
  | .list items => digitsOfItems items
  | .dict fields => digitsOfFields fields
  | _ => 0

def digitsOfItems : List (Value O) → Nat
  | [] => 0
  | v :: vs => max (digitsOf v) (digitsOfItems vs)

def digitsOfFields : List (Text × Value O) → Nat
  | [] => 0
  | (_, v) :: vs => max (digitsOf v) (digitsOfFields vs)

end

theorem lstrip_blank {a : Text} (ha : Blank a) (t : Text) : lstrip (a ++ t) = lstrip t := by
  induction a with
  | nil => rfl
  | cons ch a ih =>
    have hch : isSpace ch = true := ha ch (by simp)
    have htail := ih fun c hc => ha c (by simp [hc])
    rw [List.cons_append, lstrip, List.dropWhile_cons_of_pos hch]
    exact htail

theorem rstrip_blank {b : Text} (hb : Blank b) (t : Text) : rstrip (t ++ b) = rstrip t := by
  have hrev : Blank b.reverse := fun ch hch => hb ch (List.mem_reverse.1 hch)
  have hl := lstrip_blank hrev t.reverse
  simp only [lstrip] at hl
  rw [rstrip, rstrip, List.rdropWhile, List.rdropWhile, List.reverse_append, hl]

/-- A text that starts and ends with no blank. -/
structure Trimmed (t : Text) : Prop where
  head : ∃ ch rest, t = ch :: rest ∧ isSpace ch = false
  last : ∃ rest ch, t = rest ++ [ch] ∧ isSpace ch = false

variable {t : Text}

theorem Trimmed.ne_nil (ht : Trimmed t) : t ≠ [] := by
  obtain ⟨ch, rest, rfl, -⟩ := ht.head
  simp

theorem Trimmed.lstrip_append (ht : Trimmed t) (b : Text) : lstrip (t ++ b) = t ++ b := by
  obtain ⟨ch, rest, rfl, hch⟩ := ht.head
  rw [lstrip, List.cons_append, List.dropWhile_cons_of_neg (by simp [hch])]

theorem Trimmed.rstrip_eq (ht : Trimmed t) : rstrip t = t := by
  obtain ⟨rest, ch, rfl, hch⟩ := ht.last
  rw [rstrip, List.rdropWhile_concat_neg _ _ _ (by simp [hch])]

/-- Stripping takes off the blanks around a trimmed text and nothing else. -/
theorem Trimmed.strip_padded (ht : Trimmed t) {a b : Text} (ha : Blank a) (hb : Blank b) :
    strip (a ++ (t ++ b)) = t := by
  rw [strip, lstrip_blank ha, ht.lstrip_append, rstrip_blank hb, ht.rstrip_eq]

theorem Trimmed.strip_eq (ht : Trimmed t) : strip t = t := by
  simpa using ht.strip_padded (a := []) (b := []) (fun ch h => by simp at h) (fun ch h => by simp at h)

theorem strip_of_blank {a : Text} (ha : Blank a) : strip a = [] := by
  have h := lstrip_blank ha []
  rw [List.append_nil] at h
  rw [strip, h]
  rfl

/-- A text between two of its kind's ends, such as a pair of brackets. -/
theorem Trimmed.enclosed {opening closing : Char} (hopening : isSpace opening = false)
    (hclosing : isSpace closing = false) (t : Text) : Trimmed (opening :: (t ++ [closing])) where
  head := ⟨opening, _, rfl, hopening⟩
  last := ⟨opening :: t, closing, by simp, hclosing⟩

/-- `t` with blanks around it. -/
def Padded (t piece : Text) : Prop := ∃ a b, Blank a ∧ Blank b ∧ piece = a ++ (t ++ b)

theorem Blank.append {a b : Text} (ha : Blank a) (hb : Blank b) : Blank (a ++ b) := by
  intro ch hch
  rcases List.mem_append.1 hch with h | h
  · exact ha ch h
  · exact hb ch h

theorem Blank.nil : Blank [] := fun ch h => by simp at h

theorem separated_cons {piece : Text} {pieces : List Text} (h : pieces ≠ []) :
    separated (piece :: pieces) = piece ++ ',' :: separated pieces := by
  cases pieces with
  | nil => exact absurd rfl h
  | cons next pieces => rfl

theorem separated_head (a piece : Text) (pieces : List Text) :
    separated ((a ++ piece) :: pieces) = a ++ separated (piece :: pieces) := by
  cases pieces with
  | nil => rfl
  | cons next pieces => simp [separated]

/-- The blanks at the ends of a list of fields belong to its first and last
field, so the list without them is a list of the same fields. -/
theorem exists_trimmed {ts pieces : List Text} (hpadded : List.Forall₂ Padded ts pieces)
    (hne : ts ≠ []) (htrimmed : ∀ t ∈ ts, Trimmed t) :
    ∃ a b inner, Blank a ∧ Blank b ∧ separated pieces = a ++ (separated inner ++ b) ∧
      List.Forall₂ Padded ts inner ∧ Trimmed (separated inner) := by
  induction hpadded with
  | nil => exact absurd rfl hne
  | @cons t piece ts pieces hpiece htail ih =>
    obtain ⟨a, b, ha, hb, rfl⟩ := hpiece
    have ht := htrimmed t (by simp)
    cases htail with
    | nil =>
      refine ⟨a, b, [t], ha, hb, rfl, ?_, ht⟩
      exact .cons ⟨[], [], .nil, .nil, by simp⟩ .nil
    | @cons t' piece' ts' pieces' hpiece' htail' =>
      obtain ⟨a', b', inner, ha', hb', hsep, hinner, hlast⟩ :=
        ih (by simp) fun t h => htrimmed t (by simp [h])
      obtain ⟨next, more, hnext, hmore, rfl⟩ := List.forall₂_cons_left_iff.1 hinner
      obtain ⟨c, d, hc, hd, rfl⟩ := hnext
      have hjoin : separated ((t ++ b) :: (a' ++ (c ++ (t' ++ d))) :: more) =
          (t ++ b) ++ ',' :: (a' ++ separated ((c ++ (t' ++ d)) :: more)) := by
        rw [← separated_head]
        rfl
      refine ⟨a, b', (t ++ b) :: (a' ++ (c ++ (t' ++ d))) :: more, ha, hb', ?_, ?_, ?_, ?_⟩
      · rw [separated_cons (by simp), hsep, hjoin]
        simp
      · refine .cons ⟨[], b, .nil, hb, by simp⟩ (.cons ⟨a' ++ c, d, ha'.append hc, hd, ?_⟩ hmore)
        simp
      · rw [hjoin]
        obtain ⟨ch, rest, rfl, hch⟩ := ht.head
        exact ⟨ch, _, rfl, hch⟩
      · rw [hjoin]
        obtain ⟨rest, ch, hrest, hch⟩ := hlast.last
        refine ⟨(t ++ b) ++ ',' :: (a' ++ rest), ch, ?_, hch⟩
        rw [hrest]
        simp

theorem Padded.strip_eq {t piece : Text} (h : Padded t piece) (ht : Trimmed t) :
    strip piece = t := by
  obtain ⟨a, b, ha, hb, rfl⟩ := h
  exact ht.strip_padded ha hb

theorem Bare.of_isSpace {ch : Char} (h : isSpace ch = true) : Bare ch := by
  constructor
  · rintro rfl
    exact absurd h (by decide)
  · rintro rfl
    exact absurd h (by decide)

theorem Spans.blank {a : Text} (ha : Blank a) : Spans NoComma a := by
  apply Spans.plain
  intro ch hch
  have hspace := ha ch hch
  refine ⟨.of_isSpace hspace, ?_⟩
  intro i
  have hne : ∀ c : Char, isSpace c = false → ch ≠ c := by
    intro c hc h
    rw [h, hc] at hspace
    cases hspace
  refine ⟨(plain_iff _).2 ⟨?_, ?_, ?_, ?_⟩, ?_⟩
  all_goals exact hne _ (by decide)

theorem Padded.spans {t piece : Text} (h : Padded t piece) (ht : Spans NoComma t) :
    Spans NoComma piece := by
  obtain ⟨a, b, ha, hb, rfl⟩ := h
  exact (Spans.blank ha).append (ht.append (.blank hb))

/-- **The fields of a list are its parts between commas, without their
blanks.** -/
theorem splitFields_padded {ts pieces : List Text} (hpadded : List.Forall₂ Padded ts pieces)
    (hne : ts ≠ []) (htrimmed : ∀ t ∈ ts, Trimmed t) (hspans : ∀ t ∈ ts, Spans NoComma t) :
    strip (separated pieces) ≠ [] ∧ splitFields (strip (separated pieces)) = .ok ts := by
  obtain ⟨a, b, inner, ha, hb, hsep, hinner, htrim⟩ := exists_trimmed hpadded hne htrimmed
  rw [hsep, htrim.strip_padded ha hb]
  have hstrip : inner.map strip = ts := by
    clear hsep htrim hne hspans hpadded
    induction hinner with
    | nil => rfl
    | cons hpiece _ ih =>
      rw [List.map_cons, hpiece.strip_eq (htrimmed _ (by simp)),
        ih fun t ht => htrimmed t (by simp [ht])]
  have hcore : ∀ piece ∈ inner, ∃ t ∈ ts, Padded t piece := by
    intro piece hpiece
    obtain ⟨i, hi, rfl⟩ := List.getElem_of_mem hpiece
    have hi' : i < ts.length := by rw [hinner.length_eq]; exact hi
    exact ⟨ts[i], List.getElem_mem hi', hinner.get hi' hi⟩
  refine ⟨htrim.ne_nil, ?_⟩
  rw [splitFields_separated, hstrip]
  · rintro rfl
    exact htrim.ne_nil rfl
  · intro piece hpiece
    obtain ⟨t, ht, hpad⟩ := hcore piece hpiece
    exact hpad.spans (hspans t ht)
  · intro piece hpiece
    obtain ⟨t, ht, hpad⟩ := hcore piece hpiece
    rw [hpad.strip_eq (htrimmed t ht)]
    exact (htrimmed t ht).ne_nil

end EdgeLLM.Ports.ToolCalling.Gemma4
