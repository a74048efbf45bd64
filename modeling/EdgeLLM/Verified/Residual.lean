import Mathlib.Computability.Language

/-!
# What may still follow a letter

A scanner that reads a text letter by letter is exact for a language when each
of its states stands for the words that may still follow. This module has the
two halves of such an argument that do not depend on the scanner: the calculus
of `after c L`, the words `w` with `c :: w` in `L`, over sums, products and
iterations, and the run lemma `Exact.verdicts` that carries one step's
agreement to every position of every text.
-/

namespace EdgeLLM.Verified.Residual

open Computability

variable {α : Type*}

/-- The words that may follow `c` in `L`. -/
def after (c : α) (L : Language α) : Language α := {w | c :: w ∈ L}

@[simp] theorem mem_after {c : α} {L : Language α} {w : List α} :
    w ∈ after c L ↔ c :: w ∈ L := Iff.rfl

/-- The words of one letter that satisfies `P`. -/
def letter (P : α → Prop) : Language α := {w | ∃ c, P c ∧ w = [c]}

theorem mem_letter {P : α → Prop} {w : List α} : w ∈ letter P ↔ ∃ c, P c ∧ w = [c] := Iff.rfl

/-- A word or nothing. -/
def opt (L : Language α) : Language α := 1 + L

section Empty

variable {L K : Language α}

@[simp] theorem nil_mem_letter (P : α → Prop) : ([] ∈ letter P) ↔ False := by
  simp [mem_letter]

@[simp] theorem nil_mem_add : [] ∈ L + K ↔ [] ∈ L ∨ [] ∈ K :=
  Language.mem_add L K []

@[simp] theorem nil_mem_mul : [] ∈ L * K ↔ [] ∈ L ∧ [] ∈ K := by
  rw [Language.mem_mul]
  constructor
  · intro h
    obtain ⟨a, ha, b, hb, hab⟩ := h
    obtain ⟨rfl, rfl⟩ := List.append_eq_nil_iff.1 hab
    exact ⟨ha, hb⟩
  · intro h
    exact ⟨[], h.1, [], h.2, rfl⟩

@[simp] theorem nil_mem_opt : [] ∈ opt L := Or.inl rfl

end Empty

section OneLetter

variable (c : α) (L K : Language α)

@[simp] theorem after_one : after c (1 : Language α) = 0 := by
  ext w
  simp [Language.mem_one]

@[simp] theorem after_add : after c (L + K) = after c L + after c K := rfl

@[simp] theorem after_opt : after c (opt L) = after c L := by
  rw [opt, after_add, after_one, zero_add]

variable {c} in
theorem after_letter_of {P : α → Prop} (h : P c) : after c (letter P) = 1 := by
  ext w
  rw [mem_after, mem_letter, Language.mem_one]
  constructor
  · intro hw
    obtain ⟨d, -, hd⟩ := hw
    exact (List.cons.inj hd).2
  · intro hw
    exact ⟨c, h, by rw [hw]⟩

variable {c} in
theorem after_letter_not {P : α → Prop} (h : ¬ P c) : after c (letter P) = 0 := by
  ext w
  rw [mem_after, mem_letter]
  constructor
  · intro hw
    obtain ⟨d, hd, hcd⟩ := hw
    rw [(List.cons.inj hcd).1] at h
    exact absurd hd h
  · intro hw
    exact absurd hw (Language.notMem_zero w)

@[simp] theorem after_letter (P : α → Prop) [Decidable (P c)] :
    after c (letter P) = if P c then 1 else 0 := by
  split
  · next h => exact after_letter_of h
  · next h => exact after_letter_not h

/-- What follows a letter of a product: it belongs to the first factor, or the
first factor is empty and it belongs to the second. -/
theorem mem_after_mul {w : List α} :
    w ∈ after c (L * K) ↔ w ∈ after c L * K ∨ [] ∈ L ∧ w ∈ after c K := by
  rw [mem_after, Language.mem_mul, Language.mem_mul]
  constructor
  · intro h
    obtain ⟨a, ha, b, hb, hab⟩ := h
    cases a with
    | nil => exact Or.inr ⟨ha, by rw [mem_after, ← hab]; exact hb⟩
    | cons d a =>
      obtain ⟨rfl, rfl⟩ := List.cons.inj hab
      exact Or.inl ⟨a, ha, b, hb, rfl⟩
  · intro h
    rcases h with h | h
    · obtain ⟨a, ha, b, hb, hab⟩ := h
      exact ⟨c :: a, ha, b, hb, by rw [List.cons_append, hab]⟩
    · exact ⟨[], h.1, c :: w, h.2, rfl⟩

variable {L} in
@[simp] theorem after_mul_of_nil_mem (h : [] ∈ L) :
    after c (L * K) = after c L * K + after c K := by
  ext w
  rw [mem_after_mul, Language.mem_add]
  exact or_congr_right (and_iff_right h)

variable {L} in
@[simp] theorem after_mul_of_nil_notMem (h : [] ∉ L) : after c (L * K) = after c L * K := by
  ext w
  rw [mem_after_mul]
  exact or_iff_left fun hw => h hw.1

@[simp] theorem after_kstar : after c L∗ = after c L * L∗ := by
  ext w
  rw [mem_after, Language.mem_mul]
  constructor
  · intro h
    obtain ⟨S, hS, hmem⟩ := Language.mem_kstar_iff_exists_nonempty.1 h
    cases S with
    | nil => exact absurd hS (List.cons_ne_nil c w)
    | cons a S =>
      have ha := hmem a List.mem_cons_self
      cases a with
      | nil => exact absurd rfl ha.2
      | cons d a =>
        obtain ⟨rfl, rfl⟩ := List.cons.inj hS
        refine ⟨a, ha.1, S.flatten, ?_, rfl⟩
        exact Language.join_mem_kstar fun y hy => (hmem y (List.mem_cons_of_mem _ hy)).1
  · intro h
    obtain ⟨a, ha, b, hb, rfl⟩ := h
    obtain ⟨S, rfl, hS⟩ := Language.mem_kstar.1 hb
    have hflat : c :: (a ++ S.flatten) = ((c :: a) :: S).flatten := rfl
    rw [hflat]
    exact Language.join_mem_kstar (List.forall_mem_cons.2 ⟨ha, hS⟩)

end OneLetter

section Inhabited

variable {L K : Language α}

/-- The language has a word. -/
def Alive (L : Language α) : Prop := ∃ w, w ∈ L

theorem Alive.of_nil (h : [] ∈ L) : Alive L := ⟨[], h⟩

theorem Alive.mul (hL : Alive L) (hK : Alive K) : Alive (L * K) := by
  obtain ⟨a, ha⟩ := hL
  obtain ⟨b, hb⟩ := hK
  exact ⟨a ++ b, Language.append_mem_mul ha hb⟩

theorem Alive.add_left (hL : Alive L) : Alive (L + K) := by
  obtain ⟨a, ha⟩ := hL
  exact ⟨a, Or.inl ha⟩

theorem alive_letter {P : α → Prop} (c : α) (h : P c) : Alive (letter P) := ⟨[c], c, h, rfl⟩

theorem alive_kstar : Alive L∗ := ⟨[], Language.nil_mem_kstar L⟩

end Inhabited

/-- What a scanner says of a letter. -/
inductive Verdict where
  | ok
  | done
  | error
  deriving DecidableEq

section Scanners

variable {σ : Type*} (push : σ → α → σ × Verdict)

/-- The verdicts on a text, up to and with the first `error`. -/
def verdicts (s : σ) : List α → List Verdict
  | [] => []
  | c :: w =>
    if (push s c).2 = .error then [.error]
    else (push s c).2 :: verdicts (push s c).1 w

/-- Each state that satisfies `Good` stands for the words of `lang`: a letter
is refused exactly when no word starts with it, and the state after one that
is not stands for what may follow. -/
structure Exact (Good : σ → Prop) (lang : σ → Language α) : Prop where
  alive : ∀ {s}, Good s → Alive (lang s)
  refused : ∀ {s c}, Good s → (push s c).2 = .error → after c (lang s) = 0
  taken : ∀ {s c}, Good s → (push s c).2 ≠ .error →
    Good (push s c).1 ∧ after c (lang s) = lang (push s c).1
  more : ∀ {s c}, Good s → (push s c).2 = .ok → [] ∉ lang (push s c).1
  complete : ∀ {s c}, Good s → (push s c).2 = .done → lang (push s c).1 = 1

variable {push} {Good : σ → Prop} {lang : σ → Language α}

/-- A letter of an exact scanner, by its verdict. -/
theorem Exact.step (h : Exact push Good lang) {s : σ} (hs : Good s) (c : α) :
    ((push s c).2 = .done ↔ [c] ∈ lang s) ∧ ((push s c).2 = .error ↔ ¬ ∃ t, c :: t ∈ lang s) := by
  cases hv : (push s c).2 with
  | error =>
    have hnone : ∀ t, c :: t ∉ lang s := by
      intro t ht
      have hmem : t ∈ after c (lang s) := ht
      rw [h.refused hs hv] at hmem
      exact Language.notMem_zero t hmem
    simp [hnone]
  | done =>
    have htaken := (h.taken hs (show (push s c).2 ≠ .error by simp [hv])).2
    rw [h.complete hs hv] at htaken
    have hc : [] ∈ after c (lang s) := by rw [htaken]; rfl
    exact ⟨iff_of_true rfl hc, iff_of_false Verdict.noConfusion fun hno => hno ⟨[], hc⟩⟩
  | ok =>
    have htaken := h.taken hs (show (push s c).2 ≠ .error by simp [hv])
    have hc : [] ∉ after c (lang s) := by rw [htaken.2]; exact h.more hs hv
    obtain ⟨t, ht⟩ := h.alive htaken.1
    have hct : t ∈ after c (lang s) := by rw [htaken.2]; exact ht
    exact ⟨iff_of_false Verdict.noConfusion hc, iff_of_false Verdict.noConfusion
      fun hno => hno ⟨t, hct⟩⟩

/-- The run lemma: at every letter the scanner says `done` exactly when the
letters so far are a word, and `error` exactly when they are the first that no
word starts with. -/
theorem Exact.verdicts (h : Exact push Good lang) (p : List α) (c : α) (t : List α) :
    ∀ {s : σ}, Good s →
      ((verdicts push s (p ++ c :: t))[p.length]? = some .done ↔ p ++ [c] ∈ lang s) ∧
      ((verdicts push s (p ++ c :: t))[p.length]? = some .error ↔
        (∃ u, p ++ u ∈ lang s) ∧ ¬ ∃ u, p ++ c :: u ∈ lang s) ∧
      ((verdicts push s (p ++ c :: t))[p.length]? = some .ok ↔
        (∃ u, p ++ c :: u ∈ lang s) ∧ p ++ [c] ∉ lang s) := by
  induction p with
  | nil =>
    intro s hs
    have hstep := h.step hs c
    have hfirst : (Residual.verdicts push s ([] ++ c :: t))[([] : List α).length]? =
        some (push s c).2 := by
      by_cases he : (push s c).2 = .error
      · simp [Residual.verdicts, he]
      · simp [Residual.verdicts, he]
    rw [hfirst]
    simp only [Option.some.injEq, List.nil_append]
    refine ⟨hstep.1, ?_, ?_⟩
    · rw [hstep.2]
      exact (and_iff_right (h.alive hs)).symm
    · rw [← not_not (a := ∃ u, c :: u ∈ lang s), ← hstep.2, ← hstep.1]
      cases (push s c).2 <;> simp
  | cons d p ih =>
    intro s hs
    by_cases he : (push s d).2 = .error
    · -- nothing is said after the first `error`, and no word starts so
      have hnone := (h.step hs d).2.1 he
      have hfirst : (Residual.verdicts push s (d :: p ++ c :: t))[(d :: p).length]? = none := by
        simp [Residual.verdicts, he]
      have hno : ∀ u, d :: (p ++ u) ∉ lang s := fun u hu => hnone ⟨p ++ u, hu⟩
      rw [hfirst]
      simp only [List.cons_append]
      exact ⟨iff_of_false (by simp) (hno [c]), iff_of_false (by simp) fun hu => hu.1.elim hno,
        iff_of_false (by simp) fun hu => hu.1.elim fun u => hno (c :: u)⟩
    · have htaken := h.taken hs he
      have hmem : ∀ w, d :: w ∈ lang s ↔ w ∈ lang (push s d).1 := by
        intro w
        rw [← htaken.2, mem_after]
      have hfirst : (Residual.verdicts push s (d :: p ++ c :: t))[(d :: p).length]? =
          (Residual.verdicts push (push s d).1 (p ++ c :: t))[p.length]? := by
        simp [Residual.verdicts, he]
      rw [hfirst]
      simp only [List.cons_append, hmem]
      exact ih htaken.1

/-- A text that is complete has no shorter text in it that is. -/
theorem Exact.shortest (h : Exact push Good lang) (p : List α) :
    ∀ {s : σ}, Good s → ∀ q r, p ∈ lang s → p = q ++ r → q ≠ [] → q ∈ lang s → r = [] := by
  induction p with
  | nil =>
    intro s _ q r _ hpq _ _
    exact (List.append_eq_nil_iff.1 hpq.symm).2
  | cons d p ih =>
    intro s hs q r hp hpq hq hmem
    obtain ⟨e, q, rfl⟩ := List.exists_cons_of_ne_nil hq
    obtain ⟨rfl, htail⟩ := List.cons.inj hpq
    have he : (push s d).2 ≠ .error := fun he => ((h.step hs d).2.1 he) ⟨p, hp⟩
    have htaken := h.taken hs he
    have hp' : p ∈ lang (push s d).1 := by rw [← htaken.2]; exact hp
    have hq' : q ∈ lang (push s d).1 := by rw [← htaken.2]; exact hmem
    cases q with
    | nil =>
      have hdone : (push s d).2 = .done := (h.step hs d).1.2 hmem
      rw [h.complete hs hdone] at hp'
      have hnil : p = [] := hp'
      rw [hnil] at htail
      exact htail.symm
    | cons e q => exact ih htaken.1 (e :: q) r hp' htail (List.cons_ne_nil e q) hq'

end Scanners

end EdgeLLM.Verified.Residual
