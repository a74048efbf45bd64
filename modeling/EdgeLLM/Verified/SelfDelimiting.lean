import Mathlib.Data.List.Forall2

/-!
# Self-delimiting serialisation

A serialiser is self-delimiting for some pairs of values when a stream that starts
with the bytes of the one cannot start with those of the other unless they are
equal: the value and the rest of the stream are determined.  The property goes
through sequences, options and counted lists, so a whole format has it when its
fields have.
-/

namespace EdgeLLM.Verified

/-- A stream is not read as both values of a pair of `rel`. -/
def SelfDelimiting {α β : Type*} (rel : α → α → Prop) (enc : α → List β) : Prop :=
  ∀ a b r r', rel a b → enc a ++ r = enc b ++ r' → a = b ∧ r = r'

namespace SelfDelimiting

variable {α β γ : Type*} {rel : α → α → Prop} {rel' : γ → γ → Prop} {enc : α → List β}
  {enc' : γ → List β}

/-- A format of fixed length. -/
theorem of_length (n : Nat) (hlength : ∀ a, (enc a).length = n)
    (hinj : ∀ a b, enc a = enc b → a = b) : SelfDelimiting rel enc := by
  intro a b r r' _ heq
  obtain ⟨henc, hrest⟩ := List.append_inj heq (by rw [hlength, hlength])
  exact ⟨hinj a b henc, hrest⟩

/-- An injective format closed by a mark that does not occur in it. -/
theorem terminated {mark : β} (hmark : ∀ a, mark ∉ enc a) (hinj : ∀ a b, enc a = enc b → a = b) :
    SelfDelimiting rel fun a => enc a ++ [mark] := by
  intro a b r r' _ heq
  rw [List.append_assoc, List.append_assoc, List.singleton_append, List.singleton_append] at heq
  have hsplit : ∀ (xs ys : List β), mark ∉ xs → mark ∉ ys → xs ++ mark :: r = ys ++ mark :: r' →
      xs = ys ∧ r = r' := by
    intro xs
    induction xs with
    | nil =>
      intro ys _ hys heq
      cases ys with
      | nil => exact ⟨rfl, (List.cons.inj heq).2⟩
      | cons y ys => exact absurd (List.cons.inj heq).1 fun h => hys (h ▸ List.mem_cons_self)
    | cons x xs ih =>
      intro ys hxs hys heq
      cases ys with
      | nil => exact absurd (List.cons.inj heq).1.symm fun h => hxs (h ▸ List.mem_cons_self)
      | cons y ys =>
        obtain ⟨rfl, htail⟩ := List.cons.inj heq
        obtain ⟨rfl, hrest⟩ := ih ys (fun h => hxs (List.mem_cons_of_mem _ h))
          (fun h => hys (List.mem_cons_of_mem _ h)) htail
        exact ⟨rfl, hrest⟩
  obtain ⟨henc, hrest⟩ := hsplit _ _ (hmark a) (hmark b) heq
  exact ⟨hinj a b henc, hrest⟩

/-- A constant in front. -/
theorem tagged (h : SelfDelimiting rel enc) (tag : List β) :
    SelfDelimiting rel fun a => tag ++ enc a := by
  intro a b r r' hab heq
  rw [List.append_assoc, List.append_assoc] at heq
  exact h a b r r' hab (List.append_cancel_left heq)

/-- One field after the other. -/
theorem append (h : SelfDelimiting rel enc) (h' : SelfDelimiting rel' enc') :
    SelfDelimiting (fun x y : α × γ => rel x.1 y.1 ∧ rel' x.2 y.2)
      fun x => enc x.1 ++ enc' x.2 := by
  intro x y r r' hxy heq
  rw [List.append_assoc, List.append_assoc] at heq
  obtain ⟨hfst, hrest⟩ := h x.1 y.1 _ _ hxy.1 heq
  obtain ⟨hsnd, hrest⟩ := h' x.2 y.2 _ _ hxy.2 hrest
  exact ⟨Prod.ext hfst hsnd, hrest⟩

/-- A marker that tells whether the value follows. -/
theorem optional (h : SelfDelimiting (fun _ _ => True) enc) (absent present : β)
    (hne : absent ≠ present) :
    SelfDelimiting (fun _ _ => True) fun x : Option α =>
      match x with
      | none => [absent]
      | some a => present :: enc a := by
  intro x y r r' _ heq
  cases x with
  | none =>
    cases y with
    | none => exact ⟨rfl, List.append_cancel_left heq⟩
    | some b =>
      rw [List.cons_append, List.cons_append, List.cons.injEq] at heq
      exact absurd heq.1 hne
  | some a =>
    cases y with
    | none =>
      rw [List.cons_append, List.cons_append, List.cons.injEq] at heq
      exact absurd heq.1.symm hne
    | some b =>
      rw [List.cons_append, List.cons_append, List.cons.injEq] at heq
      obtain ⟨hsame, hrest⟩ := h a b r r' trivial heq.2
      exact ⟨congrArg some hsame, hrest⟩

/-- Lists of one length. -/
theorem flatMap (h : SelfDelimiting rel enc) {xs ys : List α} (hrel : List.Forall₂ rel xs ys) :
    ∀ {r r' : List β}, xs.flatMap enc ++ r = ys.flatMap enc ++ r' → xs = ys ∧ r = r' := by
  induction hrel with
  | nil =>
    intro r r' heq
    exact ⟨rfl, heq⟩
  | cons hxy _ ih =>
    intro r r' heq
    rw [List.flatMap_cons, List.flatMap_cons, List.append_assoc, List.append_assoc] at heq
    obtain ⟨hhead, hrest⟩ := h _ _ _ _ hxy heq
    obtain ⟨htail, hrest⟩ := ih hrest
    exact ⟨by rw [hhead, htail], hrest⟩

/-- Lists of elements of a fixed positive length need no count. -/
theorem flatMap_injective {n : Nat} (hn : 0 < n) (hlength : ∀ a, (enc a).length = n)
    (hinj : ∀ a b, enc a = enc b → a = b) {xs ys : List α} (heq : xs.flatMap enc = ys.flatMap enc) :
    xs = ys := by
  have hsum (l : List α) : (l.flatMap enc).length = l.length * n := by
    induction l with
    | nil => simp
    | cons a l ih => rw [List.flatMap_cons, List.length_append, ih, hlength, List.length_cons,
        Nat.succ_mul, Nat.add_comm]
  have hlen : xs.length = ys.length := by
    have h := congrArg List.length heq
    rw [hsum, hsum] at h
    exact Nat.eq_of_mul_eq_mul_right hn h
  have hrel : List.Forall₂ (fun _ _ : α => True) xs ys :=
    List.forall₂_iff_get.2 ⟨hlen, fun _ _ _ => trivial⟩
  have henc : SelfDelimiting (fun _ _ : α => True) enc := of_length n hlength hinj
  have hstream : xs.flatMap enc ++ [] = ys.flatMap enc ++ [] := by rw [heq]
  exact (henc.flatMap hrel hstream).1

/-- The number of elements, then the elements; `n` bounds what the number can tell. -/
theorem counted (h : SelfDelimiting rel enc) {count : Nat → List β} {n : Nat}
    (hcount : SelfDelimiting (fun a b => a < n ∧ b < n) count) :
    SelfDelimiting (fun xs ys : List α => (xs.length < n ∧ ys.length < n) ∧
      (xs.length = ys.length → List.Forall₂ rel xs ys)) fun xs =>
        count xs.length ++ xs.flatMap enc := by
  intro xs ys r r' hxy heq
  rw [List.append_assoc, List.append_assoc] at heq
  obtain ⟨hlength, hrest⟩ := hcount _ _ _ _ hxy.1 heq
  exact h.flatMap (hxy.2 hlength) hrest

/-- Streams without a rest. -/
theorem injective (h : SelfDelimiting rel enc) {a b : α} (hab : rel a b) (heq : enc a = enc b) :
    a = b :=
  (h a b [] [] hab (by rw [heq])).1

end SelfDelimiting

end EdgeLLM.Verified
