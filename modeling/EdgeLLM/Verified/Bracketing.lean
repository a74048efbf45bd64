import Mathlib.Data.List.Basic

/-!
# Bracketed words

Words over an alphabet in which some letters open a bracket and some close
one, each of a kind. A reader that goes into a bracket when it is opened, and
comes out of it into the state it went in from, is where it was after a word
in which every bracket is closed by its own kind.
-/

namespace EdgeLLM.Verified.Bracketing

variable {α κ σ ε : Type*}

/-- The kind of bracket a letter opens, and the kind it closes. -/
structure Brackets (α κ : Type*) where
  opens : α → Option κ
  closes : α → Option κ

/-- A letter that is no bracket. -/
structure Brackets.Plain (B : Brackets α κ) (a : α) : Prop where
  opens : B.opens a = none
  closes : B.closes a = none

/-- Every bracket of the word is closed by its kind, and the letters outside
all brackets satisfy `P`. -/
inductive Balanced (B : Brackets α κ) : (α → Prop) → List α → Prop where
  | nil {P : α → Prop} : Balanced B P []
  | plain {P : α → Prop} {a : α} {w : List α} :
      B.Plain a → P a → Balanced B P w → Balanced B P (a :: w)
  | pair {P : α → Prop} {a b : α} {k : κ} {u w : List α} :
      B.opens a = some k → B.opens b = none → B.closes b = some k →
      Balanced B (fun _ => True) u → Balanced B P w → Balanced B P (a :: (u ++ b :: w))

variable {B : Brackets α κ} {P Q : α → Prop} {u w : List α}

theorem Balanced.append (hu : Balanced B P u) (hw : Balanced B P w) : Balanced B P (u ++ w) := by
  induction hu with
  | nil => exact hw
  | plain hplain hP _ ih => exact .plain hplain hP (ih hw)
  | pair hopen hcl hclose hinner _ _ ih =>
    rw [List.cons_append, List.append_assoc, List.cons_append]
    exact .pair hopen hcl hclose hinner (ih hw)

theorem Balanced.mono (hw : Balanced B P w) (hPQ : ∀ a, P a → Q a) : Balanced B Q w := by
  induction hw with
  | nil => exact .nil
  | plain hplain hP _ ih => exact .plain hplain (hPQ _ hP) (ih hPQ)
  | pair hopen hcl hclose hinner _ _ ih => exact .pair hopen hcl hclose hinner (ih hPQ)

/-- A word in one pair of brackets. -/
theorem Balanced.enclose {a b : α} {k : κ} (hopen : B.opens a = some k) (hcl : B.opens b = none)
    (hclose : B.closes b = some k) (hinner : Balanced B (fun _ => True) u) :
    Balanced B P (a :: (u ++ [b])) :=
  .pair hopen hcl hclose hinner .nil

/-- What a reader does at a letter from a `Valid` state: it stays where it is at
a letter that is no bracket, and comes out of a bracket into the state it went
in from. Inside a bracket it is `Inside`; outside, it stays only at a letter
with `P`. -/
structure Reader (B : Brackets α κ) (P : α → Prop) (step : σ → α → Except ε σ)
    (Valid Inside : σ → Prop) : Prop where
  plain : ∀ s a, Valid s → B.Plain a → P a ∨ Inside s → step s a = .ok s
  pair : ∀ s a b k, Valid s → B.opens a = some k → B.opens b = none → B.closes b = some k →
    ∃ t, step s a = .ok t ∧ Valid t ∧ Inside t ∧ step t b = .ok s

section Reading

variable {step : σ → α → Except ε σ} {Valid Inside : σ → Prop}

/-- Into a bracket, over what it holds, and out again. -/
theorem Reader.foldlM_pair (hreader : Reader B P step Valid Inside) {s : σ} (hs : Valid s)
    {a b : α} {k : κ} (hopen : B.opens a = some k) (hcl : B.opens b = none)
    (hclose : B.closes b = some k) (hu : ∀ t, Valid t → Inside t → u.foldlM step t = .ok t) :
    (a :: (u ++ b :: w)).foldlM step s = w.foldlM step s := by
  obtain ⟨t, hin, hvalid, ht, hout⟩ := hreader.pair s a b k hs hopen hcl hclose
  have hinner := hu t hvalid ht
  rw [List.foldlM_cons, hin]
  show List.foldlM step t _ = _
  rw [List.foldlM_append, hinner]
  show List.foldlM step t _ = _
  rw [List.foldlM_cons, hout]
  rfl

/-- A reader inside some bracket stays at every letter that is no bracket. -/
theorem Reader.foldlM_inside (hreader : Reader B P step Valid Inside) (hw : Balanced B Q w) :
    ∀ s, Valid s → Inside s → w.foldlM step s = .ok s := by
  induction hw with
  | nil => exact fun s _ _ => rfl
  | plain hplain _ _ ih =>
    intro s hs hinside
    rw [List.foldlM_cons, hreader.plain s _ hs hplain (.inr hinside)]
    exact ih s hs hinside
  | pair hopen hcl hclose _ _ ihu ihw =>
    intro s hs hinside
    rw [hreader.foldlM_pair hs hopen hcl hclose ihu]
    exact ihw s hs hinside

/-- **A balanced word leaves the state of a reader as it was.** -/
theorem Balanced.foldlM_eq (hw : Balanced B P w) (hreader : Reader B P step Valid Inside) (s : σ)
    (hs : Valid s) : w.foldlM step s = .ok s := by
  induction hw generalizing s with
  | nil => rfl
  | plain hplain hP _ ih =>
    rw [List.foldlM_cons, hreader.plain s _ hs hplain (.inl hP)]
    exact ih hreader s hs
  | pair hopen hcl hclose hinner _ _ ih =>
    rw [hreader.foldlM_pair hs hopen hcl hclose (hreader.foldlM_inside hinner)]
    exact ih hreader s hs

end Reading

end EdgeLLM.Verified.Bracketing
