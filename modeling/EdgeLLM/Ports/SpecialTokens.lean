import Mathlib.Data.List.Nodup
import EdgeLLM.Ports.Utf8Sanitizer
import EdgeLLM.Verified.Occurrences

/-!
# Splitting out the special tokens

`Tokenizer::partitionSpecialTokens` goes through the special tokens in the order in
which the hash map lists them, and splits each one out of the raw fragments that
are left.
-/

namespace EdgeLLM.Ports.SpecialTokens

open Utf8
open Verified.Occurrences

/-- A token id. -/
abbrev Rank : Type := Int

/-- `mSpecialTokensEncoder`, in the order in which it is iterated, with its reverse.
`loadSpecialTokens` takes no empty content, and `reverseEncoder` asserts that no
two contents share an id. -/
structure SpecialTokensEncoder where
  tokens : List (Bytes × Rank)
  mSpecialTokensDecoder : Rank → Bytes
  nodup : (tokens.map Prod.fst).Nodup
  content_ne_nil : ∀ token ∈ tokens, token.1 ≠ []
  reversed : ∀ token ∈ tokens, mSpecialTokensDecoder token.2 = token.1

/-- `textPartition`; the raw text is the input text. -/
inductive TextPartition
  | special (token : Rank)
  | rawText (offset length : Nat)
  deriving DecidableEq

def find (specialToken text : Bytes) (pos : Nat) : Option Nat :=
  (List.range (text.length + 1)).find? fun i => pos ≤ i && specialToken.isPrefixOf (text.drop i)

/-- The inner loop on one raw fragment.  Each turn takes one token out of what is
left of the fragment; `none` is running out of fuel. -/
def splitRaw (text specialToken : Bytes) (specialId : Rank) :
    Nat → Nat → Nat → Option (List TextPartition)
  | 0, _, _ => none
  | fuel + 1, baseOffset, baseLength =>
    match find specialToken text baseOffset with
    | none => some [.rawText baseOffset baseLength]
    | some found =>
      if baseOffset + baseLength < found + specialToken.length then
        some [.rawText baseOffset baseLength]
      else
        let left :=
          if baseOffset < found then [TextPartition.rawText baseOffset (found - baseOffset)]
          else []
        if found + specialToken.length < baseOffset + baseLength then
          (splitRaw text specialToken specialId fuel (found + specialToken.length)
              (baseLength + baseOffset - (found + specialToken.length))).map
            fun right => left ++ .special specialId :: right
        else
          some (left ++ [.special specialId])

/-- The loop over the fragments, for one token. -/
def splitParts (text : Bytes) (token : Bytes × Rank) :
    List TextPartition → Option (List TextPartition)
  | [] => some []
  | .special id :: rest =>
    (splitParts text token rest).map fun parts => .special id :: parts
  | .rawText offset length :: rest =>
    (splitRaw text token.1 token.2 (length + 1) offset length).bind fun split =>
      (splitParts text token rest).map fun parts => split ++ parts

def partitionSpecialTokens (text : Bytes) :
    List (Bytes × Rank) → List TextPartition → Option (List TextPartition)
  | [], partitions => some partitions
  | token :: tokens, partitions =>
    (splitParts text token partitions).bind fun partitions =>
      partitionSpecialTokens text tokens partitions

/-- The fragments that `Tokenizer::encode` goes through: none for an empty text. -/
def fragments (tokens : List (Bytes × Rank)) (text : Bytes) : Option (List TextPartition) :=
  if text = [] then some [] else partitionSpecialTokens text tokens [.rawText 0 text.length]

/-- What a fragment stands for. -/
def fragmentText (content : Rank → Bytes) (text : Bytes) : TextPartition → Bytes
  | .special id => content id
  | .rawText offset length => (text.drop offset).take length

theorem find_eq_some_iff {specialToken text : Bytes} (htoken : specialToken ≠ []) {pos i : Nat} :
    find specialToken text pos = some i ↔ NextAt specialToken text pos i := by
  rw [find, List.find?_range_eq_some]
  simp only [Bool.and_eq_true, decide_eq_true_eq, List.isPrefixOf_iff_prefix, Bool.not_eq_true',
    Bool.and_eq_false_imp]
  constructor
  · intro h
    obtain ⟨⟨hle, hoccurs⟩, _, hnone⟩ := h
    refine ⟨hle, hoccurs, ?_⟩
    intro j hpj hji hj
    have hfalse := hnone j hji hpj
    rw [List.isPrefixOf_iff_prefix.2 hj] at hfalse
    exact Bool.noConfusion hfalse
  · intro h
    obtain ⟨hle, hoccurs, hnone⟩ := h
    have hend := OccursAt.le htoken hoccurs
    refine ⟨⟨hle, hoccurs⟩, by simp; omega, ?_⟩
    intro j hji hpj
    rw [Bool.eq_false_iff]
    intro hj
    exact hnone j hpj hji (List.isPrefixOf_iff_prefix.1 hj)

theorem find_eq_none {specialToken text : Bytes} (htoken : specialToken ≠ []) {pos : Nat}
    (h : find specialToken text pos = none) : ∀ j, pos ≤ j → ¬ OccursAt specialToken text j := by
  intro j hpj hj
  obtain ⟨i, hnext, _⟩ := exists_nextAt hpj hj
  rw [(find_eq_some_iff htoken).2 hnext] at h
  exact absurd h (Option.some_ne_none i)

/-! ## Fragments that lay out the text -/

section Layout

variable {content : Rank → Bytes} {text : Bytes}

/-- No raw fragment comes first. -/
def StartsSpecial : List TextPartition → Prop
  | .rawText _ _ :: _ => False
  | _ => True

variable (content text) in
/-- The fragments lay out the text from one place to another: a raw fragment is not
empty and no other raw fragment follows it, and a special token stands where its
content does. -/
inductive Layout : Nat → Nat → List TextPartition → Prop
  | nil {a : Nat} : Layout a a []
  | rawText {a b c : Nat} {rest : List TextPartition} :
      a < b → b ≤ text.length → StartsSpecial rest → Layout b c rest →
        Layout a c (.rawText a (b - a) :: rest)
  | special {a c : Nat} {id : Rank} {rest : List TextPartition} :
      content id ≠ [] → OccursAt (content id) text a →
        Layout (a + (content id).length) c rest → Layout a c (.special id :: rest)

variable (content) in
/-- Where the special tokens stand. -/
def placements : Nat → List TextPartition → List (Nat × Rank)
  | _, [] => []
  | a, .rawText _ length :: rest => placements (a + length) rest
  | a, .special id :: rest => (a, id) :: placements (a + (content id).length) rest

variable {a c b i : Nat} {parts xs ys : List TextPartition} {id : Rank}

theorem Layout.le (h : Layout content text a c parts) : a ≤ c := by
  induction h with
  | nil => exact Nat.le_refl _
  | rawText hlt _ _ _ ih => omega
  | special _ _ _ ih => omega

/-- The fragments concatenate to the stretch they lay out. -/
theorem Layout.flatten (h : Layout content text a c parts) :
    (parts.map (fragmentText content text)).flatten ++ text.drop c = text.drop a := by
  induction h with
  | nil => rfl
  | @rawText a b c rest hlt hb _ _ ih =>
    have hdrop : (text.drop a).drop (b - a) = text.drop b := by
      rw [List.drop_drop, Nat.add_sub_cancel' (Nat.le_of_lt hlt)]
    rw [List.map_cons, List.flatten_cons, List.append_assoc, ih, ← hdrop]
    exact List.take_append_drop _ _
  | @special a c id rest hne hoccurs _ ih =>
    obtain ⟨tail, htail⟩ := hoccurs
    have hdrop : text.drop (a + (content id).length) = tail := by
      rw [← List.drop_drop, ← htail, List.drop_left]
    rw [List.map_cons, List.flatten_cons, List.append_assoc, ih, hdrop]
    exact htail

theorem Layout.append (hx : Layout content text a b xs) (hy : Layout content text b c ys)
    (hys : StartsSpecial ys) : Layout content text a c (xs ++ ys) := by
  induction hx with
  | nil => exact hy
  | @rawText a b' b rest hlt hb hrest _ ih =>
    refine .rawText hlt hb ?_ (ih hy)
    cases rest with
    | nil => exact hys
    | cons part rest => cases part <;> exact hrest
  | special hne hoccurs _ ih => exact .special hne hoccurs (ih hy)

theorem Layout.placements_append (hx : Layout content text a b xs) (ys : List TextPartition) :
    placements content a (xs ++ ys) = placements content a xs ++ placements content b ys := by
  induction hx with
  | nil => rfl
  | @rawText a b c rest hlt _ _ _ ih =>
    rw [List.cons_append, placements, placements, Nat.add_sub_cancel' (Nat.le_of_lt hlt), ih]
  | special _ _ _ ih => rw [List.cons_append, placements, placements, ih, List.cons_append]

/-- A placed token lies inside the stretch, with the content it stands for. -/
theorem Layout.of_placements (h : Layout content text a c parts)
    (hi : (i, id) ∈ placements content a parts) :
    a ≤ i ∧ i + (content id).length ≤ c ∧ content id ≠ [] := by
  induction h with
  | nil => exact absurd hi List.not_mem_nil
  | @rawText a b c rest hlt _ _ _ ih =>
    rw [placements, Nat.add_sub_cancel' (Nat.le_of_lt hlt)] at hi
    have hinside := ih hi
    exact ⟨by omega, hinside.2⟩
  | @special a c other rest hne _ hrest ih =>
    rcases List.mem_cons.1 hi with heq | hlater
    · rw [Prod.mk.injEq] at heq
      obtain ⟨rfl, rfl⟩ := heq
      exact ⟨Nat.le_refl _, hrest.le, hne⟩
    · have hinside := ih hlater
      exact ⟨by omega, hinside.2⟩

/-- Two placed tokens are the same or do not overlap. -/
theorem Layout.apart (h : Layout content text a c parts) {j : Nat} {jd : Rank}
    (hi : (i, id) ∈ placements content a parts) (hj : (j, jd) ∈ placements content a parts) :
    (i = j ∧ id = jd) ∨ i + (content id).length ≤ j ∨ j + (content jd).length ≤ i := by
  induction h with
  | nil => exact absurd hi List.not_mem_nil
  | @rawText a b c rest hlt _ _ _ ih =>
    rw [placements, Nat.add_sub_cancel' (Nat.le_of_lt hlt)] at hi hj
    exact ih hi hj
  | @special a c other rest _ _ hrest ih =>
    rcases List.mem_cons.1 hi with hieq | hilater
    · rw [Prod.mk.injEq] at hieq
      obtain ⟨rfl, rfl⟩ := hieq
      rcases List.mem_cons.1 hj with hjeq | hjlater
      · rw [Prod.mk.injEq] at hjeq
        exact .inl ⟨hjeq.1.symm, hjeq.2.symm⟩
      · exact .inr (.inl (hrest.of_placements hjlater).1)
    · rcases List.mem_cons.1 hj with hjeq | hjlater
      · rw [Prod.mk.injEq] at hjeq
        obtain ⟨rfl, rfl⟩ := hjeq
        exact .inr (.inr (hrest.of_placements hilater).1)
      · exact ih hilater hjlater

/-- What follows a raw fragment starts where a special token does, or is empty. -/
theorem Layout.placed_of_startsSpecial (h : Layout content text a c parts)
    (hstarts : StartsSpecial parts) (hac : a < c) : ∃ id, (a, id) ∈ placements content a parts := by
  cases h with
  | nil => exact absurd hac (Nat.lt_irrefl _)
  | rawText => exact absurd hstarts id
  | special => exact ⟨_, List.mem_cons_self⟩

/-- A layout is determined by where its tokens stand. -/
theorem Layout.unique (hx : Layout content text a c xs) (hy : Layout content text a c ys)
    (hsame : ∀ i id, (i, id) ∈ placements content a xs ↔ (i, id) ∈ placements content a ys) :
    xs = ys := by
  induction hx generalizing ys with
  | @nil a =>
    cases hy with
    | nil => rfl
    | rawText hlt _ _ hrest =>
      have hle := hrest.le
      omega
    | special =>
      have hmem := (hsame _ _).2 List.mem_cons_self
      exact absurd hmem List.not_mem_nil
  | @rawText a b c rest hlt hb hstarts hrest ih =>
    rw [placements, Nat.add_sub_cancel' (Nat.le_of_lt hlt)] at hsame
    cases hy with
    | nil =>
      have hle := hrest.le
      omega
    | special =>
      have hmem := (hsame _ _).2 List.mem_cons_self
      have hinside := hrest.of_placements hmem
      omega
    | @rawText _ b' _ rest' hlt' hb' hstarts' hrest' =>
      rw [placements, Nat.add_sub_cancel' (Nat.le_of_lt hlt')] at hsame
      have hbb : b = b' := by
        have hle := hrest.le
        have hle' := hrest'.le
        rcases Nat.lt_trichotomy b b' with hless | heq | hmore
        · obtain ⟨id, hid⟩ := hrest.placed_of_startsSpecial hstarts (by omega)
          have hinside := hrest'.of_placements ((hsame _ _).1 hid)
          omega
        · exact heq
        · obtain ⟨id, hid⟩ := hrest'.placed_of_startsSpecial hstarts' (by omega)
          have hinside := hrest.of_placements ((hsame _ _).2 hid)
          omega
      subst hbb
      rw [ih hrest' hsame]
  | @special a c id rest hne hoccurs hrest ih =>
    cases hy with
    | nil =>
      have hmem := (hsame _ _).1 List.mem_cons_self
      exact absurd hmem List.not_mem_nil
    | @rawText _ b' _ rest' hlt' _ _ hrest' =>
      have hmem := (hsame _ _).1 List.mem_cons_self
      rw [placements, Nat.add_sub_cancel' (Nat.le_of_lt hlt')] at hmem
      have hinside := hrest'.of_placements hmem
      omega
    | @special _ _ jd rest' _ _ hrest' =>
      have hpos := List.length_pos_iff.2 hne
      have hmem := (hsame a id).1 List.mem_cons_self
      have hid : id = jd := by
        rcases List.mem_cons.1 hmem with heq | hlater
        · exact (Prod.mk.inj heq).2
        · have hinside := hrest'.of_placements hlater
          have hpos' : 0 < (content jd).length := by
            apply List.length_pos_iff.2
            assumption
          omega
      subst hid
      rw [ih hrest']
      intro i kd
      have hboth := hsame i kd
      rw [placements, placements, List.mem_cons, List.mem_cons] at hboth
      constructor
      · intro hi
        rcases hboth.1 (.inr hi) with heq | hlater
        · have hinside := hrest.of_placements hi
          have hia := (Prod.mk.inj heq).1
          omega
        · exact hlater
      · intro hi
        rcases hboth.2 (.inr hi) with heq | hlater
        · have hinside := hrest'.of_placements hi
          have hia := (Prod.mk.inj heq).1
          omega
        · exact hlater

end Layout

/-! ## One token -/

section Split

variable {content : Rank → Bytes} {text : Bytes} {token : Bytes × Rank}

/-- No occurrence of the word lies inside the raw fragment. -/
def Clear (word text : Bytes) (offset length : Nat) : Prop :=
  ∀ j, offset ≤ j → OccursAt word text j → offset + length < j + word.length

theorem Clear.no_occurrence {word : Bytes} {offset length : Nat}
    (h : Clear word text offset length) : ¬ word <:+: (text.drop offset).take length := by
  intro hoccurs
  obtain ⟨before, after, hbytes⟩ := hoccurs
  have hoccurs : OccursAt word text (offset + before.length) := by
    have hbegins : word <+: ((text.drop offset).take length).drop before.length := by
      rw [← hbytes, List.append_assoc, List.drop_left]
      exact List.prefix_append _ _
    have htext : ((text.drop offset).take length).drop before.length <+:
        (text.drop offset).drop before.length := (List.take_prefix _ _).drop _
    rw [List.drop_drop] at htext
    exact hbegins.trans htext
  have hlength := congrArg List.length hbytes
  have hclear := h _ (Nat.le_add_right _ _) hoccurs
  rw [List.length_append, List.length_append, List.length_take] at hlength
  omega

variable (content text token) in
/-- What splitting the token out of the raw fragment from `a` to `b` leaves. -/
structure Split (a b : Nat) (out : List TextPartition) : Prop where
  layout : Layout content text a b out
  placed : ∀ i id, (i, id) ∈ placements content a out ↔
    id = token.2 ∧ Found token.1 text a i ∧ i + token.1.length ≤ b
  clear : ∀ offset length, .rawText offset length ∈ out →
    a ≤ offset ∧ offset + length ≤ b ∧ Clear token.1 text offset length

/-- A fragment in which the search finds nothing stays as it is. -/
theorem Split.whole {a length : Nat} (hlength : 0 < length) (hend : a + length ≤ text.length)
    (hclear : Clear token.1 text a length) :
    Split content text token a (a + length) [.rawText a length] where
  layout := by
    have hraw : Layout content text a (a + length) [.rawText a (a + length - a)] :=
      .rawText (by omega) hend trivial .nil
    rwa [Nat.add_sub_cancel_left] at hraw
  placed := by
    intro i id
    apply iff_of_false List.not_mem_nil
    intro h
    have hlong := hclear i h.2.1.le h.2.1.occursAt
    omega
  clear := by
    intro offset length' hmem
    rw [List.mem_singleton, TextPartition.rawText.injEq] at hmem
    obtain ⟨rfl, rfl⟩ := hmem
    exact ⟨Nat.le_refl _, Nat.le_refl _, hclear⟩

/-- The first find splits the fragment in three; the third is split further. -/
theorem Split.cut (htoken : token.1 ≠ []) (hcontent : content token.2 = token.1) {a b m : Nat}
    (hnext : NextAt token.1 text a m) (hfits : m + token.1.length ≤ b)
    {right : List TextPartition} (hright : Split content text token (m + token.1.length) b right) :
    Split content text token a b
      ((if a < m then [TextPartition.rawText a (m - a)] else []) ++ .special token.2 :: right) := by
  have hmiddle : Layout content text m b (.special token.2 :: right) := by
    refine .special (by rwa [hcontent]) (by rw [hcontent]; exact hnext.2.1) ?_
    rw [hcontent]
    exact hright.layout
  have hinside := hnext.2.1.le htoken
  have hpos := List.length_pos_iff.2 htoken
  have hleft : Layout content text a m
      (if a < m then [TextPartition.rawText a (m - a)] else []) := by
    by_cases hlt : a < m
    · rw [if_pos hlt]
      exact .rawText hlt (by omega) trivial .nil
    · rw [if_neg hlt, Nat.le_antisymm hnext.1 (Nat.le_of_not_lt hlt)]
      exact .nil
  constructor
  · exact hleft.append hmiddle trivial
  · intro i id
    have hnone : placements content a
        (if a < m then [TextPartition.rawText a (m - a)] else []) = [] := by
      split_ifs <;> rfl
    rw [hleft.placements_append, hnone, List.nil_append, placements, List.mem_cons, hcontent,
      hright.placed, hnext.found_iff, Prod.mk.injEq]
    constructor
    · intro h
      rcases h with ⟨rfl, rfl⟩ | ⟨hid, hfound, hend⟩
      · exact ⟨rfl, .inl rfl, hfits⟩
      · exact ⟨hid, .inr hfound, hend⟩
    · intro h
      obtain ⟨hid, rfl | hfound, hend⟩ := h
      · exact .inl ⟨rfl, hid⟩
      · exact .inr ⟨hid, hfound, hend⟩
  · intro offset length hmem
    rcases List.mem_append.1 hmem with hmem | hmem
    · by_cases hlt : a < m
      · rw [if_pos hlt, List.mem_singleton, TextPartition.rawText.injEq] at hmem
        obtain ⟨rfl, rfl⟩ := hmem
        refine ⟨Nat.le_refl _, by omega, ?_⟩
        intro j hj hoccurs
        have hmj : m ≤ j := by
          apply Nat.le_of_not_lt
          intro hjm
          exact hnext.2.2 j hj hjm hoccurs
        omega
      · rw [if_neg hlt] at hmem
        exact absurd hmem List.not_mem_nil
    · rcases List.mem_cons.1 hmem with heq | hmem
      · exact absurd heq (by simp)
      · have hinner := hright.clear offset length hmem
        have hle := hnext.1
        exact ⟨by omega, hinner.2⟩

/-- The loop on one fragment ends, and splits it. -/
theorem splitRaw_spec (htoken : token.1 ≠ []) (hcontent : content token.2 = token.1) :
    ∀ fuel offset length, length < fuel → 0 < length → offset + length ≤ text.length →
      ∃ out, splitRaw text token.1 token.2 fuel offset length = some out ∧
        Split content text token offset (offset + length) out := by
  intro fuel
  induction fuel with
  | zero =>
    intro offset length hfuel
    exact absurd hfuel (Nat.not_lt_zero _)
  | succ fuel ih =>
    intro offset length hfuel hlength hend
    have hpos := List.length_pos_iff.2 htoken
    rw [splitRaw]
    cases hfind : find token.1 text offset with
    | none =>
      refine ⟨_, rfl, Split.whole hlength hend ?_⟩
      intro j hj hoccurs
      exact absurd hoccurs (find_eq_none htoken hfind j hj)
    | some m =>
      have hnext := (find_eq_some_iff htoken).1 hfind
      have hle := hnext.1
      simp only
      by_cases hlong : offset + length < m + token.1.length
      · rw [if_pos hlong]
        refine ⟨_, rfl, Split.whole hlength hend ?_⟩
        intro j hj hoccurs
        have hmj : m ≤ j := by
          apply Nat.le_of_not_lt
          intro hjm
          exact hnext.2.2 j hj hjm hoccurs
        omega
      rw [if_neg hlong]
      by_cases hmore : m + token.1.length < offset + length
      · obtain ⟨right, hright, hsplit⟩ := ih (m + token.1.length)
          (length + offset - (m + token.1.length)) (by omega) (by omega) (by omega)
        rw [if_pos hmore, hright]
        have hsame : m + token.1.length + (length + offset - (m + token.1.length)) =
            offset + length := by omega
        rw [hsame] at hsplit
        exact ⟨_, rfl, Split.cut htoken hcontent hnext (Nat.le_of_lt hmore) hsplit⟩
      · rw [if_neg hmore]
        have hexact : offset + length = m + token.1.length := by omega
        refine ⟨_, rfl, Split.cut htoken hcontent hnext (by omega) ?_⟩
        rw [hexact]
        refine ⟨.nil, ?_, fun _ _ hmem => absurd hmem List.not_mem_nil⟩
        intro i id
        apply iff_of_false List.not_mem_nil
        intro h
        have hi := h.2.1.le
        omega

end Split

/-! ## One token, over the fragments -/

section Token

variable {content : Rank → Bytes} {text : Bytes} {token : Bytes × Rank}

/-- Splitting a token out of the fragments: they still lay out the text, the tokens
placed stay where they are, and the raw fragments are parts of the old ones without
the token. -/
structure Refines (content : Rank → Bytes) (text : Bytes) (token : Bytes × Rank) (a c : Nat)
    (parts out : List TextPartition) : Prop where
  layout : Layout content text a c out
  starts : StartsSpecial parts → StartsSpecial out
  keeps : ∀ i id, (i, id) ∈ placements content a parts → (i, id) ∈ placements content a out
  clear : ∀ offset length, .rawText offset length ∈ out → Clear token.1 text offset length
  inside : ∀ offset length, .rawText offset length ∈ out → ∃ offset' length',
    .rawText offset' length' ∈ parts ∧ offset' ≤ offset ∧ offset + length ≤ offset' + length'

/-- The raw fragment in front is split, and what follows it goes through. -/
theorem Refines.rawText {a b c : Nat} {rest split out : List TextPartition} (hlt : a < b)
    (hstarts : StartsSpecial rest) (hsplit : Split content text token a b split)
    (h : Refines content text token b c rest out) :
    Refines content text token a c (.rawText a (b - a) :: rest) (split ++ out) where
  layout := hsplit.layout.append h.layout (h.starts hstarts)
  starts := fun hfalse => absurd hfalse id
  keeps := by
    intro i id hi
    rw [placements, Nat.add_sub_cancel' (Nat.le_of_lt hlt)] at hi
    rw [hsplit.layout.placements_append]
    exact List.mem_append_right _ (h.keeps i id hi)
  clear := by
    intro offset length hmem
    rcases List.mem_append.1 hmem with hsplitMem | houtMem
    · exact (hsplit.clear offset length hsplitMem).2.2
    · exact h.clear offset length houtMem
  inside := by
    intro offset length hmem
    rcases List.mem_append.1 hmem with hsplitMem | houtMem
    · have hclear := hsplit.clear offset length hsplitMem
      exact ⟨a, b - a, List.mem_cons_self, hclear.1, by omega⟩
    · obtain ⟨offset', length', hmem', hbounds⟩ := h.inside offset length houtMem
      exact ⟨offset', length', List.mem_cons_of_mem _ hmem', hbounds⟩

theorem Refines.special {a c : Nat} {id : Rank} {rest out : List TextPartition}
    (hne : content id ≠ []) (hoccurs : OccursAt (content id) text a)
    (h : Refines content text token (a + (content id).length) c rest out) :
    Refines content text token a c (.special id :: rest) (.special id :: out) where
  layout := .special hne hoccurs h.layout
  starts := fun _ => trivial
  keeps := by
    intro i jd hi
    rcases List.mem_cons.1 hi with heq | hlater
    · rw [heq]
      exact List.mem_cons_self
    · exact List.mem_cons_of_mem _ (h.keeps i jd hlater)
  clear := by
    intro offset length hmem
    rcases List.mem_cons.1 hmem with heq | hmem
    · exact absurd heq (by simp)
    · exact h.clear offset length hmem
  inside := by
    intro offset length hmem
    rcases List.mem_cons.1 hmem with heq | hmem
    · exact absurd heq (by simp)
    · obtain ⟨offset', length', hmem', hbounds⟩ := h.inside offset length hmem
      exact ⟨offset', length', List.mem_cons_of_mem _ hmem', hbounds⟩

/-- The finds of the token cut no placed token. -/
def Apart (content : Rank → Bytes) (text : Bytes) (token : Bytes × Rank) (a : Nat)
    (parts : List TextPartition) : Prop :=
  ∀ i id, (i, id) ∈ placements content a parts → ∀ j, Found token.1 text a j →
    i + (content id).length ≤ j ∨ j + token.1.length ≤ i

/-- The loop over the fragments ends and refines them.  If the token is found apart
from the tokens placed, it is placed wherever it is found. -/
theorem splitParts_spec (htoken : token.1 ≠ []) (hcontent : content token.2 = token.1)
    {a : Nat} {parts : List TextPartition} (h : Layout content text a text.length parts) :
    ∃ out, splitParts text token parts = some out ∧
      Refines content text token a text.length parts out ∧
      (Apart content text token a parts → ∀ i id, (i, id) ∈ placements content a out ↔
        (i, id) ∈ placements content a parts ∨ id = token.2 ∧ Found token.1 text a i) := by
  have hpos := List.length_pos_iff.2 htoken
  generalize hc : text.length = c at h
  induction h with
  | @nil a =>
    refine ⟨[], rfl, ⟨.nil, id, fun _ _ hi => hi, ?_, ?_⟩, ?_⟩
    · intro _ _ hmem
      exact absurd hmem List.not_mem_nil
    · intro _ _ hmem
      exact absurd hmem List.not_mem_nil
    · intro _ i id
      apply iff_of_false List.not_mem_nil
      intro hi
      rcases hi with hi | ⟨_, hfound⟩
      · exact absurd hi List.not_mem_nil
      · have hend := hfound.occursAt.le htoken
        have hle := hfound.le
        omega
  | @rawText a b c rest hlt hb hstarts hrest ih =>
    obtain ⟨out, hout, hrefines, hplaced⟩ := ih hc
    have hfits : a + (b - a) ≤ text.length := by omega
    obtain ⟨split, hsplitRaw, hsplit⟩ :=
      splitRaw_spec htoken hcontent (b - a + 1) a (b - a) (Nat.lt_succ_self _) (by omega) hfits
    rw [Nat.add_sub_cancel' (Nat.le_of_lt hlt)] at hsplit
    refine ⟨split ++ out, ?_, hrefines.rawText hlt hstarts hsplit, ?_⟩
    · rw [splitParts, hsplitRaw, hout]
      rfl
    · intro hapart i id
      rw [Apart, placements, Nat.add_sub_cancel' (Nat.le_of_lt hlt)] at hapart
      -- no find crosses the end of the fragment: a placed token or the end of the text is there
      have hcut : ∀ j, Found token.1 text a j → j + token.1.length ≤ b ∨ b ≤ j := by
        intro j hj
        by_cases hbc : b < c
        · obtain ⟨jd, hjd⟩ := hrest.placed_of_startsSpecial hstarts hbc
          have hsep := hapart b jd hjd j hj
          omega
        · have hend := hj.occursAt.le htoken
          omega
      have hbehind := found_behind htoken (Nat.le_of_lt hlt) hcut
      have hrestPlaced := hplaced (by
        intro i id hi j hj
        exact hapart i id hi j ((hbehind j).1 hj).1) i id
      rw [hsplit.layout.placements_append, List.mem_append, hsplit.placed, hrestPlaced,
        placements, Nat.add_sub_cancel' (Nat.le_of_lt hlt), hbehind]
      constructor
      · intro hi
        rcases hi with ⟨hid, hfound, _⟩ | hi | ⟨hid, hfound, _⟩
        · exact .inr ⟨hid, hfound⟩
        · exact .inl hi
        · exact .inr ⟨hid, hfound⟩
      · intro hi
        rcases hi with hi | ⟨hid, hfound⟩
        · exact .inr (.inl hi)
        · rcases hcut i hfound with hinside | hlater
          · exact .inl ⟨hid, hfound, hinside⟩
          · exact .inr (.inr ⟨hid, hfound, hlater⟩)
  | @special a c id rest hne hoccurs hrest ih =>
    obtain ⟨out, hout, hrefines, hplaced⟩ := ih hc
    refine ⟨.special id :: out, ?_, hrefines.special hne hoccurs, ?_⟩
    · rw [splitParts, hout]
      rfl
    · intro hapart i jd
      have hcut : ∀ j, Found token.1 text a j → a + (content id).length ≤ j := by
        intro j hj
        have hsep := hapart a id List.mem_cons_self j hj
        have hle := hj.le
        omega
      have hbehind := found_resume (Nat.le_add_right a (content id).length) hcut
      have hrestPlaced := hplaced (by
        intro i jd hi j hj
        exact hapart i jd (List.mem_cons_of_mem _ hi) j ((hbehind j).2 hj)) i jd
      rw [placements, placements, List.mem_cons, List.mem_cons, hrestPlaced, hbehind]
      exact or_assoc.symm

/-! ## All tokens -/

/-- The finds of two tokens in the text do not overlap. -/
def Separate (text : Bytes) (token other : Bytes × Rank) : Prop :=
  ∀ i j, Found token.1 text 0 i → Found other.1 text 0 j →
    i + token.1.length ≤ j ∨ j + other.1.length ≤ i

/-- The outcome of all tokens: the invariants of one token, for each of them. -/
structure Partitioned (content : Rank → Bytes) (text : Bytes) (tokens : List (Bytes × Rank))
    (parts out : List TextPartition) : Prop where
  layout : Layout content text 0 text.length out
  keeps : ∀ i id, (i, id) ∈ placements content 0 parts → (i, id) ∈ placements content 0 out
  inside : ∀ offset length, .rawText offset length ∈ out → ∃ offset' length',
    .rawText offset' length' ∈ parts ∧ offset' ≤ offset ∧ offset + length ≤ offset' + length'
  clear : ∀ token ∈ tokens, ∀ offset length, .rawText offset length ∈ out →
    Clear token.1 text offset length
  placed : tokens.Pairwise (Separate text) →
    (∀ token ∈ tokens, Apart content text token 0 parts) → ∀ i id,
      (i, id) ∈ placements content 0 out ↔ (i, id) ∈ placements content 0 parts ∨
        ∃ token ∈ tokens, id = token.2 ∧ Found token.1 text 0 i

/-- A part of a raw fragment without the word is without it. -/
theorem Clear.mono {word : Bytes} {offset length offset' length' : Nat}
    (h : Clear word text offset' length') (hstart : offset' ≤ offset)
    (hend : offset + length ≤ offset' + length') : Clear word text offset length := by
  intro j hj hoccurs
  have hclear := h j (hstart.trans hj) hoccurs
  omega

theorem partitionSpecialTokens_spec (tokens : List (Bytes × Rank))
    (hgood : ∀ token ∈ tokens, token.1 ≠ [] ∧ content token.2 = token.1) :
    ∀ parts, Layout content text 0 text.length parts →
      ∃ out, partitionSpecialTokens text tokens parts = some out ∧
        Partitioned content text tokens parts out := by
  induction tokens with
  | nil =>
    intro parts hparts
    refine ⟨parts, rfl, hparts, fun _ _ hi => hi, ?_, ?_, ?_⟩
    · intro offset length hmem
      exact ⟨offset, length, hmem, Nat.le_refl _, Nat.le_refl _⟩
    · intro token htoken
      exact absurd htoken List.not_mem_nil
    · intro _ _ i id
      simp
  | cons token tokens ih =>
    intro parts hparts
    obtain ⟨htoken, hcontent⟩ := hgood token List.mem_cons_self
    obtain ⟨middle, hmiddle, hrefines, hplaced⟩ := splitParts_spec htoken hcontent hparts
    obtain ⟨out, hout, hrest⟩ :=
      ih (fun other hother => hgood other (List.mem_cons_of_mem _ hother)) middle hrefines.layout
    refine ⟨out, ?_, hrest.layout, ?_, ?_, ?_, ?_⟩
    · rw [partitionSpecialTokens, hmiddle]
      exact hout
    · intro i id hi
      exact hrest.keeps i id (hrefines.keeps i id hi)
    · intro offset length hmem
      obtain ⟨offset', length', hmem', hstart', hend'⟩ := hrest.inside offset length hmem
      obtain ⟨offset'', length'', hmem'', hstart'', hend''⟩ :=
        hrefines.inside offset' length' hmem'
      exact ⟨offset'', length'', hmem'', by omega, by omega⟩
    · intro other hother offset length hmem
      rcases List.mem_cons.1 hother with rfl | hlater
      · obtain ⟨offset', length', hmem', hstart', hend'⟩ := hrest.inside offset length hmem
        exact (hrefines.clear offset' length' hmem').mono hstart' hend'
      · exact hrest.clear other hlater offset length hmem
    · intro hseparate hapart i id
      obtain ⟨hfirst, hothers⟩ := List.pairwise_cons.1 hseparate
      have hmiddlePlaced := hplaced (hapart token List.mem_cons_self)
      have hmiddleApart : ∀ other ∈ tokens, Apart content text other 0 middle := by
        intro other hother k kd hk j hj
        rcases (hmiddlePlaced k kd).1 hk with hold | ⟨rfl, hfound⟩
        · exact hapart other (List.mem_cons_of_mem _ hother) k kd hold j hj
        · rw [hcontent]
          exact hfirst other hother k j hfound hj
      have hcons : (∃ other ∈ token :: tokens, id = other.2 ∧ Found other.1 text 0 i) ↔
          (id = token.2 ∧ Found token.1 text 0 i) ∨
            ∃ other ∈ tokens, id = other.2 ∧ Found other.1 text 0 i := by
        simp only [List.mem_cons, or_and_right, exists_or, exists_eq_left]
      rw [hrest.placed hothers hmiddleApart, hmiddlePlaced, hcons]
      exact or_assoc

end Token

section Encoder

variable (enc : SpecialTokensEncoder)

/-- For every iteration order the fragments are the same, concatenate to the text,
and no raw one contains a special token. -/
def PartitionExact (text : Bytes) : Prop :=
  ∃ result, ∀ order, order.Perm enc.tokens →
    fragments order text = some result ∧
      (result.map (fragmentText enc.mSpecialTokensDecoder text)).flatten = text ∧
      ∀ offset length, .rawText offset length ∈ result → ∀ token ∈ enc.tokens,
        ¬ token.1 <:+: (text.drop offset).take length

/-- Different tokens are found apart. -/
def FoundApart (text : Bytes) : Prop :=
  ∀ token ∈ enc.tokens, ∀ other ∈ enc.tokens, token ≠ other → Separate text token other

variable {enc} {text : Bytes}

theorem nothing_found_nil {token : Bytes × Rank} (htoken : token ∈ enc.tokens) (i : Nat) :
    ¬ Found token.1 [] 0 i := by
  intro hfound
  have hend := hfound.occursAt.le (enc.content_ne_nil token htoken)
  have hpos := List.length_pos_iff.2 (enc.content_ne_nil token htoken)
  rw [List.length_nil] at hend
  omega

theorem layout_whole (content : Rank → Bytes) (htext : text ≠ []) :
    Layout content text 0 text.length [.rawText 0 text.length] := by
  have hpos := List.length_pos_iff.2 htext
  exact .rawText hpos (Nat.le_refl _) trivial .nil

/-- Every order ends, with the outcome of all its tokens. -/
theorem fragments_spec (htext : text ≠ []) {order : List (Bytes × Rank)}
    (horder : order.Perm enc.tokens) : ∃ out, fragments order text = some out ∧
      Partitioned enc.mSpecialTokensDecoder text order [.rawText 0 text.length] out := by
  rw [fragments, if_neg htext]
  apply partitionSpecialTokens_spec
  · intro token htoken
    have hmem := horder.mem_iff.1 htoken
    exact ⟨enc.content_ne_nil token hmem, enc.reversed token hmem⟩
  · exact layout_whole _ htext

/-- The token that comes first in the order is placed wherever it is found. -/
theorem placed_of_first (htext : text ≠ []) {token : Bytes × Rank} {order : List (Bytes × Rank)}
    (horder : (token :: order).Perm enc.tokens) {out : List TextPartition}
    (hout : fragments (token :: order) text = some out) {i : Nat} (hi : Found token.1 text 0 i) :
    (i, token.2) ∈ placements enc.mSpecialTokensDecoder 0 out := by
  have hmem := horder.mem_iff.1 List.mem_cons_self
  obtain ⟨middle, hmiddle, hrefines, hplaced⟩ := splitParts_spec
    (enc.content_ne_nil token hmem) (enc.reversed token hmem)
    (layout_whole enc.mSpecialTokensDecoder htext)
  obtain ⟨result, hresult, hrest⟩ := partitionSpecialTokens_spec order (by
    intro other hother
    have hotherMem := horder.mem_iff.1 (List.mem_cons_of_mem _ hother)
    exact ⟨enc.content_ne_nil other hotherMem, enc.reversed other hotherMem⟩) middle hrefines.layout
  rw [fragments, if_neg htext, partitionSpecialTokens, hmiddle, Option.bind_some, hresult,
    Option.some.injEq] at hout
  rw [← hout]
  apply hrest.keeps
  exact (hplaced (fun _ _ hi => absurd hi List.not_mem_nil) i token.2).2 (.inr ⟨rfl, hi⟩)

/-- The partition is exact, whatever the order, exactly when the tokens are found
apart. -/
theorem partition_exact_iff (enc : SpecialTokensEncoder) (text : Bytes) :
    PartitionExact enc text ↔ FoundApart enc text := by
  by_cases htext : text = []
  · subst htext
    apply iff_of_true
    · refine ⟨[], fun order _ => ⟨rfl, rfl, ?_⟩⟩
      intro offset length hmem
      exact absurd hmem List.not_mem_nil
    · intro token htoken other _ _ i j hi
      exact absurd hi (nothing_found_nil htoken i)
  constructor
  · intro hexact token htoken other hother hne i j hi hj
    obtain ⟨result, hresult⟩ := hexact
    have hperm := (List.perm_cons_erase htoken).symm
    have hotherPerm := (List.perm_cons_erase hother).symm
    have htokenPlaced := placed_of_first htext hperm (hresult _ hperm).1 hi
    have hotherPlaced := placed_of_first htext hotherPerm (hresult _ hotherPerm).1 hj
    obtain ⟨out, hout, hparts⟩ := fragments_spec htext (List.Perm.refl enc.tokens)
    rw [(hresult _ (List.Perm.refl _)).1, Option.some.injEq] at hout
    rw [← hout] at hparts
    have happart := hparts.layout.apart htokenPlaced hotherPlaced
    rw [enc.reversed token htoken, enc.reversed other hother] at happart
    rcases happart with ⟨_, hrank⟩ | hsep
    · -- one id, one content
      have hcontent := congrArg enc.mSpecialTokensDecoder hrank
      rw [enc.reversed token htoken, enc.reversed other hother] at hcontent
      exact absurd (Prod.ext hcontent hrank) hne
    · exact hsep
  · intro hfound
    have hplaced : ∀ order, order.Perm enc.tokens → ∃ out, fragments order text = some out ∧
        Partitioned enc.mSpecialTokensDecoder text order [.rawText 0 text.length] out ∧
        ∀ i id, (i, id) ∈ placements enc.mSpecialTokensDecoder 0 out ↔
          ∃ token ∈ enc.tokens, id = token.2 ∧ Found token.1 text 0 i := by
      intro order horder
      obtain ⟨out, hout, hparts⟩ := fragments_spec htext horder
      refine ⟨out, hout, hparts, ?_⟩
      intro i id
      have hnodup : order.Nodup := by
        rw [horder.nodup_iff]
        exact List.Nodup.of_map Prod.fst enc.nodup
      have hseparate : order.Pairwise (Separate text) := by
        apply List.Pairwise.imp_of_mem _ hnodup
        intro token other htoken hother hne
        exact hfound token (horder.mem_iff.1 htoken) other (horder.mem_iff.1 hother) hne
      rw [hparts.placed hseparate (fun _ _ _ _ hi => absurd hi List.not_mem_nil)]
      simp only [placements, List.not_mem_nil, false_or, horder.mem_iff]
    obtain ⟨result, hresult, hparts, hresultPlaced⟩ := hplaced _ (List.Perm.refl enc.tokens)
    refine ⟨result, ?_⟩
    intro order horder
    obtain ⟨out, hout, houtParts, houtPlaced⟩ := hplaced order horder
    have hsame : out = result := by
      apply houtParts.layout.unique hparts.layout
      intro i id
      rw [houtPlaced, hresultPlaced]
    refine ⟨hsame ▸ hout, ?_, ?_⟩
    · have hflatten := hparts.layout.flatten
      rwa [List.drop_length, List.append_nil, List.drop_zero] at hflatten
    · intro offset length hmem token htoken
      exact (hparts.clear token htoken offset length hmem).no_occurrence

end Encoder

/-- Two tokens, one of which starts the other. -/
def nested : SpecialTokensEncoder where
  tokens := [([0x61], 1), ([0x61, 0x62], 2)]
  mSpecialTokensDecoder := fun id => if id = 1 then [0x61] else [0x61, 0x62]
  nodup := by decide
  content_ne_nil := by decide
  reversed := by decide

/-- On `ab` the tokens `a` and `ab` give different fragments in the two orders. -/
theorem not_partitionExact_nested : ¬ PartitionExact nested [0x61, 0x62] := by
  intro hexact
  obtain ⟨result, hresult⟩ := hexact
  have hshort := (hresult _ (List.Perm.refl _)).1
  have hlong := (hresult [([0x61, 0x62], 2), ([0x61], 1)] (List.Perm.swap _ _ _)).1
  rw [← hlong] at hshort
  revert hshort
  decide

end EdgeLLM.Ports.SpecialTokens
