import EdgeLLM.Ports.JsonScannerTokens

/-!
# The scanner is exact
-/

namespace EdgeLLM.Ports.ToolCalling

open Computability
open Verified.Residual Verified.JsonGrammar

namespace JsonScanner

section Texts

variable {s : JsonScanner} {c : Char}

theorem pushLiteral_takes (hs : s.state = .inLiteral) (h : s.Shaped) (c : Char) :
    Takes s.rest c (s.pushLiteral c) := by
  have hopen := h.1
  have hshape := h.2
  rw [hs] at hshape
  obtain ⟨hidle, hstack, hpos⟩ := hshape
  have hrest : s.rest =
      text (s.literal[s.literalPos] :: s.literal.drop (s.literalPos + 1)) * closing s.stack := by
    rw [List.getElem_cons_drop]
    simp [rest, hopen, hs]
  rw [hrest]
  unfold pushLiteral
  rw [List.getElem?_eq_getElem hpos]
  by_cases hc : c = s.literal[s.literalPos]
  · rw [if_neg (not_not.2 (by rw [hc]))]
    have hafter : after c (text (s.literal[s.literalPos] :: s.literal.drop (s.literalPos + 1)) *
        closing s.stack) = text (s.literal.drop (s.literalPos + 1)) * closing s.stack := by
      rw [after_mul_of_nil_notMem _ _ (by simpa using hpos), after_text, if_pos hc]
    apply Takes.go
    · rw [hafter]
      by_cases hend : s.literalPos + 1 = s.literal.length
      · simp [hend, rest, hopen, text]
      · simp [hend, rest, hopen, hs]
    · by_cases hend : s.literalPos + 1 = s.literal.length
      · simp only [hend, if_true]
        exact ⟨hopen, hidle, hstack⟩
      · simp only [hend, if_false]
        refine ⟨hopen, ?_⟩
        simp only [hs]
        exact ⟨hidle, hstack, by omega⟩
  · rw [if_pos fun he => hc (Option.some.inj he).symm]
    apply Takes.refuse
    rw [after_mul_of_nil_notMem _ _ (by simpa using hpos), after_text, if_neg hc, zero_mul]

/-- The scanner can be here: its container is complete, or its state is what it
was entered with. -/
def Good (s : JsonScanner) : Prop := s.done = true ∨ s.Shaped

theorem shaped_new : new.Shaped := ⟨rfl, rfl, rfl⟩

theorem good_new : new.Good := Or.inr shaped_new

theorem push_takes (h : s.Good) (c : Char) : Takes s.rest c (s.push c) := by
  unfold push
  rcases h with hdone | h
  · rw [if_pos hdone]
    apply Takes.refuse
    rw [rest, if_pos hdone, after_one]
  · rw [h.1, if_neg Bool.false_ne_true]
    cases hs : s.state with
    | inString => exact pushString_takes hs h c
    | inNumber => exact pushNumber_takes hs h c
    | inLiteral => exact pushLiteral_takes hs h c
    | value | arrayFirst | keyFirst | keyRequired | colon | afterValue =>
      exact pushStructural_takes (by simp [hs]) h c

/-- Nothing is complete while a container is open. -/
theorem nil_notMem_rest (h : s.Shaped) : [] ∉ s.rest := by
  have hclosing : s.stack ≠ [] → [] ∉ closing s.stack := by
    intro hstack
    obtain ⟨b, below, hb⟩ := List.exists_cons_of_ne_nil hstack
    rw [hb]
    simp
  have hshape := h.2
  unfold rest
  rw [h.1, if_neg Bool.false_ne_true]
  cases hs : s.state with
  | value => simp [nil_notMem_startable]
  | arrayFirst => simp
  | keyFirst => simp
  | keyRequired => simp
  | colon => simp
  | afterValue =>
    rw [hs] at hshape
    exact hclosing hshape.2
  | inString =>
    rw [hs] at hshape
    simp only [nil_mem_mul, not_and]
    intro _
    split
    · simp
    · exact hclosing hshape.2.1
  | inNumber =>
    rw [hs] at hshape
    simp [hclosing hshape.2.1]
  | inLiteral =>
    rw [hs] at hshape
    simp [hclosing hshape.2.1]

theorem alive_pow {L : Language Char} (h : Alive L) (n : Nat) : Alive (L ^ n) := by
  induction n with
  | zero => exact Alive.of_nil rfl
  | succ n ih =>
    rw [pow_succ]
    exact ih.mul h

theorem alive_hexDigit : Alive hexDigit := alive_letter '0' (by decide)

theorem alive_stringRest (s : JsonScanner) : Alive s.stringRest := by
  unfold stringRest
  split
  · exact (alive_pow alive_hexDigit _).mul alive_stringTail
  split
  · have hescaped : Alive escaped := by
      apply Alive.add_left
      exact alive_letter '"' (by decide)
    exact hescaped.mul alive_stringTail
  · exact alive_stringTail

/-- Whatever the scanner has accepted can be completed. -/
theorem alive_rest (h : s.Good) : Alive s.rest := by
  have hclosing := alive_closing s.stack
  have hcolon : Alive (ws * (char ':' * (ws * (value * closing s.stack)))) :=
    alive_ws.mul ((alive_char _).mul (alive_ws.mul (alive_value.mul hclosing)))
  rcases h with hdone | h
  · rw [rest, if_pos hdone]
    exact Alive.of_nil rfl
  · have hshape := h.2
    unfold rest
    rw [h.1, if_neg Bool.false_ne_true]
    cases hs : s.state with
    | value =>
      apply alive_ws.mul
      apply Alive.mul _ hclosing
      unfold startable
      split
      · exact alive_container
      · exact alive_value
    | arrayFirst => exact alive_ws.add_left.mul ((alive_char _).mul (alive_closing _))
    | keyFirst => exact alive_ws.add_left.mul ((alive_char _).mul (alive_closing _))
    | keyRequired => exact alive_members.mul ((alive_char _).mul (alive_closing _))
    | colon => exact hcolon
    | afterValue => exact hclosing
    | inString =>
      apply (alive_stringRest s).mul
      split
      · exact hcolon
      · exact hclosing
    | inNumber =>
      rw [hs] at hshape
      exact (NumState.alive_rest hshape.2.2).mul hclosing
    | inLiteral => exact (alive_text _).mul hclosing

/-- Each state stands for the texts that may still come. -/
theorem exact_push : Exact push Good rest where
  alive := alive_rest
  refused := fun hs he => (push_takes hs _).1 he
  taken := by
    intro s c hs hne
    have htakes := (push_takes hs c).2 hne
    refine ⟨?_, htakes.1⟩
    cases hd : (s.push c).1.done with
    | true => exact Or.inl hd
    | false => exact Or.inr (htakes.2.2 hd)
  more := by
    intro s c hs hok
    have htakes := (push_takes hs c).2 (by rw [hok]; exact Verdict.noConfusion)
    apply nil_notMem_rest
    apply htakes.2.2
    rw [Bool.eq_false_iff]
    intro hd
    rw [htakes.2.1.1 hd] at hok
    exact Verdict.noConfusion hok
  complete := by
    intro s c hs hdone
    have htakes := (push_takes hs c).2 (by rw [hdone]; exact Verdict.noConfusion)
    rw [rest, if_pos (htakes.2.1.2 hdone)]

end Texts

/-- Optional whitespace, then a complete object or array. -/
def IsContainerText (w : List Char) : Prop := w ∈ ws * container

theorem rest_new : new.rest = ws * container := by
  show ws * (container * 1) = ws * container
  rw [mul_one]

/-- No proper beginning of a container text is one. -/
theorem IsContainerText.shortest {w q r : List Char} (hw : IsContainerText w) (hq : IsContainerText q)
    (hwq : w = q ++ r) : r = [] := by
  unfold IsContainerText at hw hq
  rw [← rest_new] at hw hq
  have hne : q ≠ [] := by
    intro hnil
    rw [hnil] at hq
    exact nil_notMem_rest shaped_new hq
  exact exact_push.shortest w good_new q r hw hwq hne hq

/-- **The scanner accepts exactly JSON containers.** Of the characters pushed up
to the first `error`, one is answered `done` exactly when the text up to it is a
container text and no shorter one is, `error` exactly when no container text
starts so, and `ok` otherwise. -/
theorem verdicts_exact (p : List Char) (c : Char) (t : List Char) :
    ((verdicts push new (p ++ c :: t))[p.length]? = some .done ↔
      IsContainerText (p ++ [c]) ∧ ∀ q r, p = q ++ r → ¬ IsContainerText q) ∧
    ((verdicts push new (p ++ c :: t))[p.length]? = some .error ↔
      (∃ u, IsContainerText (p ++ u)) ∧ ¬ ∃ u, IsContainerText (p ++ c :: u)) ∧
    ((verdicts push new (p ++ c :: t))[p.length]? = some .ok ↔
      (∃ u, IsContainerText (p ++ c :: u)) ∧ ¬ IsContainerText (p ++ [c])) := by
  have hrun := exact_push.verdicts p c t good_new
  rw [rest_new] at hrun
  refine ⟨?_, hrun.2.1, hrun.2.2⟩
  rw [hrun.1]
  constructor
  · intro hw
    refine ⟨hw, ?_⟩
    intro q r hp hq
    have hlast := IsContainerText.shortest (r := r ++ [c]) hw hq (by rw [hp, List.append_assoc])
    exact absurd hlast (by simp)
  · intro hw
    exact hw.1

/-- The answers when pushing goes on after an `error`: `{x}` is refused at `x`,
in a state that still takes the closing brace. -/
theorem not_pushAll_exact :
    ¬ ∀ (text : List Char) (k : Nat), k < text.length →
      ((new.pushAll text)[k]? = some .done ↔
        IsContainerText (text.take (k + 1)) ∧ ∀ j ≤ k, ¬ IsContainerText (text.take j)) := by
  intro hall
  have hdone : (new.pushAll ['{', 'x', '}'])[2]? = some .done := by decide
  have htext := ((hall ['{', 'x', '}'] 2 (by decide)).1 hdone).1
  have hrun := (exact_push.verdicts ['{', 'x'] '}' [] good_new).1
  rw [rest_new] at hrun
  have hno : (verdicts push new ['{', 'x', '}'])[2]? = some .done := hrun.2 htext
  exact absurd hno (by decide)

end JsonScanner

end EdgeLLM.Ports.ToolCalling
