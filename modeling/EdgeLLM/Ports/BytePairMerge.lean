import Mathlib.Data.List.GetD
import EdgeLLM.Ports.TokenEncoder
import EdgeLLM.Ports.Utf8Exact

/-!
# The heap merges what the textbook merges

The symbols that are not merged away form a list of indices, in which each symbol
ends where the next one starts (`Linked`); the heap holds the candidate of every
pair of neighbours, and every entry is priced by the strings it was pushed for
(`HeapOk`).  So an entry that is not stale is the candidate of a pair that is
adjacent now, and the first one popped is the textbook's.
-/

namespace EdgeLLM.Ports.Encoding

open Utf8
open Verified.PairMerging

namespace TokenEncoder

section Merge

variable (enc : TokenEncoder) (piece : Bytes) (positions : List Nat)

/-- The priority of a pair, if it has one. -/
def priority (left right : Bytes) : Option Rank :=
  if enc.getPairPriority left right = MAX_RANK then none
  else some (enc.getPairPriority left right)

/-- How many units there are. -/
def numChars : Nat := positions.length - 1

/-- Where a unit starts. -/
def position (i : Nat) : Nat := positions.getD i 0

/-- The strings of the symbols in a list: each reaches to the next one. -/
def texts : List Nat → List Bytes
  | [] => []
  | i :: rest =>
    substr piece (position positions i) (position positions (rest.head?.getD (numChars positions))) ::
      texts rest

/-- The symbols of the list are linked as its order says, and all others are merged
away. -/
structure Linked (symbols : Nat → Symbol) (live : List Nat) : Prop where
  first : live.head? = some 0
  sorted : live.Pairwise (· < ·)
  bound : ∀ i ∈ live, i < numChars positions
  symbol : ∀ k i, live[k]? = some i → symbols i =
    { start := some (position positions i)
      stop := position positions (live[k + 1]?.getD (numChars positions))
      prev := if k = 0 then none else live[k - 1]?
      next := live[k + 1]? }
  dead : ∀ i, i < numChars positions → i ∉ live → (symbols i).start = none

variable {enc piece positions}

theorem priority_eq_some {left right : Bytes} {p : Rank} : enc.priority left right = some p ↔
      enc.getPairPriority left right = p ∧ p ≠ MAX_RANK := by
  rw [priority]
  split_ifs with hmax
  · constructor
    · intro h
      cases h
    · intro h
      exact absurd (h.1 ▸ hmax) h.2
  · rw [Option.some.injEq]
    constructor
    · intro h
      exact ⟨h, h ▸ hmax⟩
    · intro h
      exact h.1

theorem position_strictMono (hpositions : positions.Pairwise (· < ·)) {i j : Nat} (hij : i < j)
    (hj : j < positions.length) : position positions i < position positions j := by
  have hlt := List.pairwise_iff_getElem.1 hpositions i j (Nat.lt_trans hij hj) hj hij
  rw [position, position, List.getD_eq_getElem _ _ (Nat.lt_trans hij hj), List.getD_eq_getElem _ _ hj]
  exact hlt

theorem substr_append {a b c : Nat} (hab : a ≤ b) (hbc : b ≤ c) :
    substr piece a b ++ substr piece b c = substr piece a c := by
  have hdrop : piece.drop b = (piece.drop a).drop (b - a) := by
    rw [List.drop_drop, Nat.add_sub_cancel' hab]
  have hsplit : c - a = (b - a) + (c - b) := by omega
  rw [substr, substr, substr, hdrop, hsplit, List.take_add]

theorem texts_getElem? (live : List Nat) (k : Nat) :
    (texts piece positions live)[k]? = live[k]?.map fun i =>
      substr piece (position positions i)
        (position positions (live[k + 1]?.getD (numChars positions))) := by
  induction live generalizing k with
  | nil => rfl
  | cons i rest ih =>
    cases k with
    | zero =>
      rw [texts, List.getElem?_cons_zero, List.getElem?_cons_zero, List.getElem?_cons_succ,
        List.head?_eq_getElem?]
      rfl
    | succ k =>
      rw [texts, List.getElem?_cons_succ, List.getElem?_cons_succ, List.getElem?_cons_succ]
      exact ih k

theorem texts_length (live : List Nat) : (texts piece positions live).length = live.length := by
  induction live with
  | nil => rfl
  | cons i rest ih => rw [texts, List.length_cons, List.length_cons, ih]

/-- Taking an index out merges its string into the one before it. -/
theorem texts_eraseIdx (hpositions : positions.Pairwise (· < ·)) :
    ∀ (k : Nat) (live : List Nat), live.Pairwise (· < ·) →
      (∀ i ∈ live, i < numChars positions) → k + 1 < live.length →
        texts piece positions (live.eraseIdx (k + 1)) =
          mergeAt (· ++ ·) k (texts piece positions live) := by
  intro k
  induction k with
  | zero =>
    intro live hsorted hbound hlength
    obtain _ | ⟨i, _ | ⟨j, rest⟩⟩ := live
    · simp at hlength
    · simp at hlength
    · have hij := List.rel_of_pairwise_cons hsorted List.mem_cons_self
      have hj := hbound j (by simp)
      have hpos : numChars positions < positions.length := by
        unfold numChars at hj ⊢
        omega
      have hafter : position positions j ≤
          position positions (rest.head?.getD (numChars positions)) := by
        cases rest with
        | nil => exact Nat.le_of_lt (position_strictMono hpositions hj hpos)
        | cons k rest =>
          have hjk := List.rel_of_pairwise_cons hsorted.of_cons List.mem_cons_self
          have hk := hbound k (by simp)
          exact Nat.le_of_lt (position_strictMono hpositions hjk (Nat.lt_trans hk hpos))
      have hbefore := position_strictMono hpositions hij (Nat.lt_trans hj hpos)
      rw [List.eraseIdx_cons_succ, List.eraseIdx_cons_zero, texts, texts, texts,
        mergeAt, List.head?_cons, Option.getD_some, substr_append (Nat.le_of_lt hbefore) hafter]
  | succ k ih =>
    intro live hsorted hbound hlength
    obtain _ | ⟨i, _ | ⟨j, rest⟩⟩ := live
    · simp at hlength
    · simp at hlength
    · rw [List.length_cons] at hlength
      have hrest := ih (j :: rest) hsorted.of_cons
        (fun k hk => hbound k (List.mem_cons_of_mem _ hk)) (by omega)
      rw [List.eraseIdx_cons_succ, texts, texts, mergeAt, hrest]
      rfl

end Merge

/-! ## One merge -/

section Relink

variable {positions : List Nat} {symbols : Nat → Symbol} {live : List Nat}

theorem Linked.index_unique (h : Linked positions symbols live) {k m i : Nat}
    (hk : live[k]? = some i) (hm : live[m]? = some i) : k = m := by
  have hnodup : live.Nodup := h.sorted.imp (fun hlt => Nat.ne_of_lt hlt)
  have hlt := (List.getElem?_eq_some_iff.1 hk).1
  exact (List.getElem?_inj hlt hnodup).1 (hk.trans hm.symm)

theorem eraseIdx_before {k m : Nat} (hm : m < k + 1) : (live.eraseIdx (k + 1))[m]? = live[m]? := by
  rw [List.getElem?_eraseIdx, if_pos hm]

theorem eraseIdx_after {k m : Nat} (hm : k + 1 ≤ m) :
    (live.eraseIdx (k + 1))[m]? = live[m + 1]? := by
  rw [List.getElem?_eraseIdx, if_neg (Nat.not_lt.2 hm)]

/-- What a merge writes: the symbol behind loses its start, the one after it gets a
new neighbour, and the merged one reaches further. -/
theorem Linked.mergeSymbols_apply (h : Linked positions symbols live) {k i j : Nat}
    (hi : live[k]? = some i) (hj : live[k + 1]? = some j) (x : Nat) :
    (x = j → (mergeSymbols symbols i x).start = none) ∧ (x ≠ j → mergeSymbols symbols i x =
        if live[k + 2]? = some x then { symbols x with prev := some i }
        else if x = i then
          { symbols i with
            stop := position positions (live[k + 2]?.getD (numChars positions))
            next := live[k + 2]? }
        else symbols x) := by
  have hnext : (symbols i).next = some j := by rw [h.symbol k i hi, hj]
  have hright := h.symbol (k + 1) j hj
  rw [mergeSymbols, hnext]
  simp only [hright]
  constructor
  · intro hx
    rw [hx, setSymbol, if_pos rfl]
  · intro hx
    rw [setSymbol, if_neg hx]
    cases hafter : live[k + 1 + 1]? with
    | none =>
      rw [if_neg (fun hsome => Option.some_ne_none x hsome.symm)]
      rfl
    | some a =>
      have hai : a ≠ i := by
        intro heq
        rw [heq] at hafter
        have hindex := h.index_unique hi hafter
        omega
      simp only [setSymbol, Option.some.injEq, if_neg hai]
      by_cases hxa : x = a
      · rw [if_pos hxa, if_pos hxa.symm, hxa]
      · have hax : ¬ a = x := fun heq => hxa heq.symm
        rw [if_neg hxa, if_neg hax]

theorem linked_merge (h : Linked positions symbols live) {k i j : Nat}
    (hi : live[k]? = some i) (hj : live[k + 1]? = some j) :
    Linked positions (mergeSymbols symbols i) (live.eraseIdx (k + 1)) where
  first := by
    rw [List.head?_eq_getElem?, eraseIdx_before (Nat.succ_pos k), ← List.head?_eq_getElem?]
    exact h.first
  sorted := h.sorted.sublist (List.eraseIdx_sublist _ _)
  bound := fun x hx => h.bound x (List.mem_of_mem_eraseIdx hx)
  symbol := by
    intro m x hx
    have hlookup := (h.mergeSymbols_apply hi hj x).2
    rcases Nat.lt_trichotomy m k with hless | heq | hmore
    · -- before the merged symbol nothing changes
      rw [eraseIdx_before (by omega)] at hx
      have hxj : x ≠ j := by
        intro heq
        have hindex := h.index_unique hx (heq ▸ hj)
        omega
      have hxa : live[k + 2]? ≠ some x := by
        intro ha
        have hindex := h.index_unique hx ha
        omega
      have hxi : x ≠ i := by
        intro heq
        have hindex := h.index_unique hx (heq ▸ hi)
        omega
      rw [hlookup hxj, if_neg hxa, if_neg hxi, h.symbol m x hx, eraseIdx_before (by omega),
        eraseIdx_before (by omega)]
    · subst heq
      rw [eraseIdx_before (by omega), hi, Option.some.injEq] at hx
      subst hx
      have hij : i ≠ j := by
        intro heq
        have hindex := h.index_unique hi (heq ▸ hj)
        omega
      have hia : live[m + 2]? ≠ some i := by
        intro ha
        have hindex := h.index_unique hi ha
        omega
      rw [hlookup hij, if_neg hia, if_pos rfl, h.symbol m i hi, eraseIdx_after (Nat.le_refl _),
        eraseIdx_before (by omega)]
    · rw [eraseIdx_after (by omega)] at hx
      have hxj : x ≠ j := by
        intro heq
        have hindex := h.index_unique hx (heq ▸ hj)
        omega
      have hxi : x ≠ i := by
        intro heq
        have hindex := h.index_unique hx (heq ▸ hi)
        omega
      rw [hlookup hxj, eraseIdx_after (by omega), h.symbol (m + 1) x hx]
      by_cases hnext : m = k + 1
      · -- the symbol after the pair: its neighbour is the merged symbol now
        subst hnext
        have hback : k + 1 - 1 = k := rfl
        rw [if_pos hx, eraseIdx_before (by omega), hback, hi]
        simp
      · have hxa : live[k + 2]? ≠ some x := by
          intro ha
          have hindex := h.index_unique hx ha
          omega
        have hprev : m - 1 + 1 = m + 1 - 1 := by omega
        rw [if_neg hxa, if_neg hxi, eraseIdx_after (by omega), if_neg (by omega),
          if_neg (by omega), hprev]
  dead := by
    intro x hx hnot
    by_cases hxj : x = j
    · exact (h.mergeSymbols_apply hi hj x).1 hxj
    · have hgone : x ∉ live := by
        intro hmem
        obtain ⟨m, hm⟩ := List.getElem?_of_mem hmem
        apply hnot
        by_cases hbefore : m < k + 1
        · rw [← eraseIdx_before hbefore] at hm
          exact List.mem_of_getElem? hm
        · have hne : m ≠ k + 1 := by
            intro heq
            rw [heq, hj, Option.some.injEq] at hm
            exact hxj hm.symm
          have hshift : m - 1 + 1 = m := by omega
          have hm' : (live.eraseIdx (k + 1))[m - 1]? = some x := by
            rw [eraseIdx_after (by omega), hshift]
            exact hm
          exact List.mem_of_getElem? hm'
      have hxa : live[k + 2]? ≠ some x := fun ha => hgone (List.mem_of_getElem? ha)
      have hxi : x ≠ i := fun heq => hgone (heq ▸ List.mem_of_getElem? hi)
      rw [(h.mergeSymbols_apply hi hj x).2 hxj, if_neg hxa, if_neg hxi]
      exact h.dead x hx hgone

end Relink

/-! ## The heap -/

section Heap

variable (enc : TokenEncoder) (piece : Bytes) (positions : List Nat)

/-- The entry is priced by the strings it was pushed for. -/
def Priced (c : Candidate) : Prop :=
  c.left < numChars positions ∧ c.start = position positions c.left ∧
    enc.priority (substr piece c.start c.leftEnd) (substr piece c.leftEnd c.rightEnd) = some c.rank

/-- The entry that a pair of neighbours has in the heap. -/
def candidateAt (live : List Nat) (k : Nat) (p : Rank) : Candidate where
  rank := p
  start := position positions (live[k]?.getD 0)
  left := live[k]?.getD 0
  leftEnd := position positions (live[k + 1]?.getD (numChars positions))
  rightEnd := position positions (live[k + 2]?.getD (numChars positions))

/-- The symbols are linked, the heap's entries are priced, and every pair of
neighbours with a priority has its entry. -/
structure Ready (s : MergeState) (live : List Nat) : Prop where
  linked : Linked positions s.symbols live
  priced : ∀ c ∈ s.heap, Priced enc piece positions c
  complete : ∀ k p, PairAt enc.priority (texts piece positions live) k p →
    candidateAt positions live k p ∈ s.heap

variable {enc piece positions} {s : MergeState} {live : List Nat}

theorem pairAt_texts {k : Nat} {p : Rank} : PairAt enc.priority (texts piece positions live) k p ↔
      ∃ i j, live[k]? = some i ∧ live[k + 1]? = some j ∧
        enc.priority (substr piece (position positions i) (position positions j))
          (substr piece (position positions j)
            (position positions (live[k + 2]?.getD (numChars positions)))) = some p := by
  constructor
  · intro h
    obtain ⟨l, r, hl, hr, hp⟩ := h
    rw [texts_getElem?, Option.map_eq_some_iff] at hl hr
    obtain ⟨i, hi, rfl⟩ := hl
    obtain ⟨j, hj, rfl⟩ := hr
    rw [hj] at hp
    exact ⟨i, j, hi, hj, hp⟩
  · intro h
    obtain ⟨i, j, hi, hj, hp⟩ := h
    refine ⟨_, _, by rw [texts_getElem?, hi]; rfl, by rw [texts_getElem?, hj]; rfl, ?_⟩
    rw [hj]
    exact hp

/-- The entry of a pair of neighbours is not stale. -/
theorem isStale_candidateAt (h : Linked positions s.symbols live) {k : Nat} {p : Rank}
    (hpair : PairAt enc.priority (texts piece positions live) k p) :
    isStale s (candidateAt positions live k p) = false := by
  obtain ⟨i, j, hi, hj, _⟩ := pairAt_texts.1 hpair
  have hleft := h.symbol k i hi
  have hright := h.symbol (k + 1) j hj
  rw [isStale, candidateAt, hi, Option.getD_some, hleft, hj]
  simp only [hright]
  simp

/-- An entry that is not stale is the entry of a pair of neighbours. -/
theorem candidateAt_of_not_stale (h : Linked positions s.symbols live) {c : Candidate}
    (hpriced : Priced enc piece positions c) (hfresh : isStale s c = false) :
    ∃ k, c = candidateAt positions live k c.rank ∧ live[k]? = some c.left ∧
      PairAt enc.priority (texts piece positions live) k c.rank := by
  obtain ⟨hbound, hstart, hpriority⟩ := hpriced
  have hlive : c.left ∈ live := by
    by_contra hnot
    rw [isStale, h.dead c.left hbound hnot] at hfresh
    cases hfresh
  obtain ⟨k, hk⟩ := List.getElem?_of_mem hlive
  have hleft := h.symbol k c.left hk
  rw [isStale, hleft] at hfresh
  cases hnext : live[k + 1]? with
  | none =>
    rw [hnext] at hfresh
    cases hfresh
  | some j =>
    have hright := h.symbol (k + 1) j hnext
    rw [hnext] at hfresh
    simp only [hright, Option.getD_some, Bool.or_eq_false_iff, decide_eq_false_iff_not,
      ne_eq, not_not] at hfresh
    obtain ⟨hleftEnd, hrightEnd⟩ := hfresh
    refine ⟨k, ?_, hk, ?_⟩
    · rw [candidateAt, hk, Option.getD_some, hnext, Option.getD_some, hleftEnd, ← hstart]
      rw [show live[k + 2]? = live[k + 1 + 1]? from rfl, hrightEnd]
    · apply pairAt_texts.2
      refine ⟨c.left, j, hk, hnext, ?_⟩
      rw [← hstart, hleftEnd, show live[k + 2]? = live[k + 1 + 1]? from rfl, hrightEnd]
      exact hpriority

/-- What a push leaves: the symbols, the old entries, and the pair's entry. -/
structure Pushed (enc : TokenEncoder) (piece : Bytes) (positions live : List Nat) (k : Nat)
    (s t : MergeState) : Prop where
  symbols : t.symbols = s.symbols
  keeps : ∀ c ∈ s.heap, c ∈ t.heap
  priced : ∀ c ∈ t.heap, c ∈ s.heap ∨ Priced enc piece positions c
  pushes : ∀ p, PairAt enc.priority (texts piece positions live) k p →
    candidateAt positions live k p ∈ t.heap
  length : t.heap.length ≤ s.heap.length + 1

theorem pushPair_spec (h : Linked positions s.symbols live) {k i : Nat} (hi : live[k]? = some i) :
    Pushed enc piece positions live k s (enc.pushPair piece s (some i)) := by
  have hleft := h.symbol k i hi
  have hunchanged : (∀ p, ¬ PairAt enc.priority (texts piece positions live) k p) →
      Pushed enc piece positions live k s s := by
    intro hnone
    exact ⟨rfl, fun _ hc => hc, fun _ hc => .inl hc, fun p hp => absurd hp (hnone p), Nat.le_succ _⟩
  rw [pushPair]
  simp only [hleft]
  cases hj : live[k + 1]? with
  | none =>
    apply hunchanged
    intro p hp
    obtain ⟨_, j, _, hj', _⟩ := pairAt_texts.1 hp
    rw [hj] at hj'
    cases hj'
  | some j =>
    have hright := h.symbol (k + 1) j hj
    simp only [hright, Option.getD_some, ne_eq]
    by_cases hmax : enc.getPairPriority (substr piece (position positions i) (position positions j))
        (substr piece (position positions j)
          (position positions (live[k + 1 + 1]?.getD (numChars positions)))) = MAX_RANK
    · rw [if_neg (not_not.2 hmax)]
      apply hunchanged
      intro p hp
      obtain ⟨i', j', hi', hj', hpriority⟩ := pairAt_texts.1 hp
      rw [hi, Option.some.injEq] at hi'
      rw [hj, Option.some.injEq] at hj'
      subst hi' hj'
      rw [priority, if_pos hmax] at hpriority
      cases hpriority
    · rw [if_pos hmax]
      refine ⟨rfl, fun c hc => List.mem_cons_of_mem _ hc, ?_, ?_, Nat.le_refl _⟩
      · intro c hc
        rcases List.mem_cons.1 hc with rfl | hold
        · refine .inr ⟨h.bound i (List.mem_of_getElem? hi), rfl, ?_⟩
          exact priority_eq_some.2 ⟨rfl, hmax⟩
        · exact .inl hold
      · intro p hp
        obtain ⟨i', j', hi', hj', hpriority⟩ := pairAt_texts.1 hp
        rw [hi, Option.some.injEq] at hi'
        rw [hj, Option.some.injEq] at hj'
        subst hi' hj'
        have hrank := (priority_eq_some.1 hpriority).1
        rw [candidateAt, hi, hj, ← hrank]
        exact List.mem_cons_self

end Heap

/-! ## One turn of the loop -/

section Turn

variable {enc : TokenEncoder} {piece : Bytes} {positions : List Nat} {s : MergeState}
  {live : List Nat}

/-- Skipping a stale entry loses no pair. -/
theorem Ready.skip (h : Ready enc piece positions s live) {c : Candidate} {rest : List Candidate}
    (hperm : (c :: rest).Perm s.heap) (hstale : isStale s c = true) :
    Ready enc piece positions { s with heap := rest } live where
  linked := h.linked
  priced := fun d hd => h.priced d (hperm.mem_iff.1 (List.mem_cons_of_mem _ hd))
  complete := by
    intro k p hpair
    rcases List.mem_cons.1 (hperm.mem_iff.2 (h.complete k p hpair)) with heq | hrest
    · rw [← heq, isStale_candidateAt h.linked hpair] at hstale
      cases hstale
    · exact hrest

/-- The first entry of the heap is not stale only if it is the lowest pair. -/
theorem Ready.lowest (h : Ready enc piece positions s live) (hpositions : positions.Pairwise (· < ·))
    {c : Candidate} {rest : List Candidate} (hperm : (c :: rest).Perm s.heap)
    (hfirst : ∀ d ∈ rest, later c d = false) {k : Nat} (hk : live[k]? = some c.left)
    (hc : c = candidateAt positions live k c.rank)
    (hpair : PairAt enc.priority (texts piece positions live) k c.rank) :
    Lowest enc.priority (texts piece positions live) c.rank k := by
  refine ⟨hpair, ?_⟩
  intro m q hm
  obtain ⟨i, _, hi, _⟩ := pairAt_texts.1 hm
  have hleft : (candidateAt positions live m q).left = i := by rw [candidateAt, hi, Option.getD_some]
  have hstart : (candidateAt positions live m q).start = position positions i := by
    rw [candidateAt, hi, Option.getD_some]
  have hcStart : c.start = position positions c.left := by
    conv_lhs => rw [hc, candidateAt, hk, Option.getD_some]
  rcases List.mem_cons.1 (hperm.mem_iff.2 (h.complete m q hm)) with heq | hrest
  · have hindex : i = c.left := by rw [← hleft, heq]
    have hrank : q = c.rank := congrArg Candidate.rank heq
    rw [hindex] at hi
    rw [h.linked.index_unique hk hi]
    exact .inr ⟨hrank.symm, Nat.le_refl m⟩
  · have hlater := hfirst _ hrest
    rw [later, hstart, hcStart] at hlater
    have hrank : (candidateAt positions live m q).rank = q := rfl
    rw [hrank] at hlater
    by_cases hne : c.rank ≠ q
    · rw [if_pos hne, decide_eq_false_iff_not, gt_iff_lt, not_lt] at hlater
      exact .inl (lt_of_le_of_ne hlater hne)
    · rw [if_neg hne, decide_eq_false_iff_not, gt_iff_lt, Nat.not_lt] at hlater
      refine .inr ⟨not_not.1 hne, ?_⟩
      apply Nat.le_of_not_lt
      intro hmk
      obtain ⟨hmLength, hmGet⟩ := List.getElem?_eq_some_iff.1 hi
      obtain ⟨hkLength, hkGet⟩ := List.getElem?_eq_some_iff.1 hk
      have hlt := List.pairwise_iff_getElem.1 h.linked.sorted m k hmLength hkLength hmk
      rw [hmGet, hkGet] at hlt
      have hbound := h.linked.bound c.left (List.mem_of_getElem? hk)
      have hpos := position_strictMono hpositions hlt (by unfold numChars at hbound; omega)
      omega

/-- Pairs that the merge does not touch keep their entries. -/
theorem candidateAt_erase {k m : Nat} {p : Rank} (hm : m + 1 < k ∨ k < m)
    (hpair : PairAt enc.priority (texts piece positions (live.eraseIdx (k + 1))) m p) :
    ∃ m', m' ≠ k ∧ PairAt enc.priority (texts piece positions live) m' p ∧
      candidateAt positions (live.eraseIdx (k + 1)) m p = candidateAt positions live m' p := by
  obtain ⟨i, j, hi, hj, hpriority⟩ := pairAt_texts.1 hpair
  rcases hm with hbefore | hafter
  · rw [eraseIdx_before (by omega)] at hi hj hpriority
    refine ⟨m, by omega, pairAt_texts.2 ⟨i, j, hi, hj, hpriority⟩, ?_⟩
    rw [candidateAt, candidateAt, eraseIdx_before (by omega), eraseIdx_before (by omega),
      eraseIdx_before (by omega)]
  · rw [eraseIdx_after (by omega)] at hi hj hpriority
    refine ⟨m + 1, by omega, pairAt_texts.2 ⟨i, j, hi, hj, hpriority⟩, ?_⟩
    rw [candidateAt, candidateAt, eraseIdx_after (by omega), eraseIdx_after (by omega),
      eraseIdx_after (by omega)]

theorem mergeCandidate_pushes {k : Nat} {c : Candidate}
    (h : Linked positions (mergeSymbols s.symbols c.left) (live.eraseIdx (k + 1)))
    (hk : (live.eraseIdx (k + 1))[k]? = some c.left) :
    (enc.mergeCandidate piece s c).symbols = mergeSymbols s.symbols c.left ∧
      (∀ d ∈ s.heap, d ∈ (enc.mergeCandidate piece s c).heap) ∧
      (∀ d ∈ (enc.mergeCandidate piece s c).heap, d ∈ s.heap ∨ Priced enc piece positions d) ∧
      (∀ m p, m + 1 = k ∨ m = k →
        PairAt enc.priority (texts piece positions (live.eraseIdx (k + 1))) m p →
          candidateAt positions (live.eraseIdx (k + 1)) m p ∈ (enc.mergeCandidate piece s c).heap) ∧
      (enc.mergeCandidate piece s c).heap.length ≤ s.heap.length + 2 := by
  have hprev : (mergeSymbols s.symbols c.left c.left).prev =
      if k = 0 then none else (live.eraseIdx (k + 1))[k - 1]? := by rw [h.symbol k c.left hk]
  rw [mergeCandidate]
  simp only [hprev]
  cases k with
  | zero =>
    rw [if_pos rfl, pushPair]
    have hpush : Pushed enc piece positions (live.eraseIdx (0 + 1)) 0
        { s with symbols := mergeSymbols s.symbols c.left } _ := pushPair_spec h hk
    refine ⟨hpush.symbols, hpush.keeps, hpush.priced, ?_, Nat.le_trans hpush.length (Nat.le_succ _)⟩
    intro m p hm hpair
    have hzero : m = 0 := by omega
    subst hzero
    exact hpush.pushes p hpair
  | succ k =>
    rw [if_neg (Nat.succ_ne_zero k), Nat.add_sub_cancel]
    have hlength : k < (live.eraseIdx (k + 1 + 1)).length := by
      have hlt := (List.getElem?_eq_some_iff.1 hk).1
      omega
    have hi := List.getElem?_eq_getElem hlength
    rw [hi]
    have hfirst : Pushed enc piece positions (live.eraseIdx (k + 1 + 1)) k
        { s with symbols := mergeSymbols s.symbols c.left } _ := pushPair_spec h hi
    have hsecond : Pushed enc piece positions (live.eraseIdx (k + 1 + 1)) (k + 1)
        (enc.pushPair piece { s with symbols := mergeSymbols s.symbols c.left }
          (some (live.eraseIdx (k + 1 + 1))[k])) _ :=
      pushPair_spec (by rw [hfirst.symbols]; exact h) hk
    refine ⟨hsecond.symbols.trans hfirst.symbols, ?_, ?_, ?_, ?_⟩
    · intro d hd
      exact hsecond.keeps d (hfirst.keeps d hd)
    · intro d hd
      rcases hsecond.priced d hd with hold | hnew
      · exact hfirst.priced d hold
      · exact .inr hnew
    · intro m p hm hpair
      rcases hm with hbefore | hsame
      · have hmk : m = k := by omega
        subst hmk
        exact hsecond.keeps _ (hfirst.pushes p hpair)
      · subst hsame
        exact hsecond.pushes p hpair
    · have hone := hfirst.length
      have htwo := hsecond.length
      simp only at hone
      omega

/-- Merging the first entry merges the lowest pair, and leaves the loop ready. -/
theorem Ready.merge (h : Ready enc piece positions s live)
    (hpositions : positions.Pairwise (· < ·)) {c : Candidate} {rest : List Candidate}
    (hperm : (c :: rest).Perm s.heap) (hfirst : ∀ d ∈ rest, later c d = false)
    (hfresh : isStale s c = false) :
    ∃ k, Lowest enc.priority (texts piece positions live) c.rank k ∧
      Ready enc piece positions (enc.mergeCandidate piece { s with heap := rest } c)
        (live.eraseIdx (k + 1)) ∧
      (enc.mergeCandidate piece { s with heap := rest } c).heap.length ≤ rest.length + 2 := by
  have hmem : c ∈ s.heap := hperm.mem_iff.1 List.mem_cons_self
  obtain ⟨k, hc, hk, hpair⟩ := candidateAt_of_not_stale h.linked (h.priced c hmem) hfresh
  obtain ⟨_, j, _, hj, _⟩ := pairAt_texts.1 hpair
  have hlinked := linked_merge h.linked hk hj
  have hk' : (live.eraseIdx (k + 1))[k]? = some c.left := by
    rw [eraseIdx_before (Nat.lt_succ_self k)]
    exact hk
  obtain ⟨hsymbols, hkeeps, hpriced, hpushes, hlength⟩ :=
    @mergeCandidate_pushes enc piece positions { s with heap := rest } live k c hlinked hk'
  refine ⟨k, h.lowest hpositions hperm hfirst hk hc hpair, ⟨?_, ?_, ?_⟩, hlength⟩
  · rw [hsymbols]
    exact hlinked
  · intro d hd
    rcases hpriced d hd with hold | hnew
    · exact h.priced d (hperm.mem_iff.1 (List.mem_cons_of_mem _ hold))
    · exact hnew
  · intro m p hm
    by_cases hnear : m + 1 = k ∨ m = k
    · exact hpushes m p hnear hm
    · obtain ⟨m', hne, hold, heq⟩ := candidateAt_erase (by omega) hm
      rw [heq]
      apply hkeeps
      rcases List.mem_cons.1 (hperm.mem_iff.2 (h.complete m' p hold)) with hcEq | hrest
      · obtain ⟨i, _, hi, _⟩ := pairAt_texts.1 hold
        have hleft : i = c.left := by rw [← hcEq, candidateAt, hi, Option.getD_some]
        rw [hleft] at hi
        exact absurd (h.linked.index_unique hi hk) hne
      · exact hrest

/-! ## The whole loop -/

/-- The final loop reads the strings of the list. -/
theorem collect_texts {symbols : Nat → Symbol} {live : List Nat}
    (h : Linked positions symbols live) :
    ∀ (fuel k i : Nat), live[k]? = some i → live.length ≤ k + fuel →
      collect piece symbols fuel i = some (texts piece positions (live.drop k)) := by
  intro fuel
  induction fuel with
  | zero =>
    intro k i hi hfuel
    have hlt := (List.getElem?_eq_some_iff.1 hi).1
    omega
  | succ fuel ih =>
    intro k i hi hfuel
    obtain ⟨hlt, hget⟩ := List.getElem?_eq_some_iff.1 hi
    rw [collect, h.symbol k i hi, List.drop_eq_getElem_cons hlt, hget, texts, List.head?_drop]
    cases hnext : live[k + 1]? with
    | none =>
      have hnil : live.drop (k + 1) = [] :=
        List.drop_eq_nil_of_le (List.getElem?_eq_none_iff.1 hnext)
      rw [hnil]
      rfl
    | some j =>
      simp only [Option.getD_some]
      rw [ih (k + 1) j hnext (by omega)]
      rfl

/-- A run of the loop in which every merge takes the lowest pair of the strings the
list has then. -/
inductive MergesLowest (enc : TokenEncoder) (heap : PopHeap) (piece : Bytes) (units : Nat) :
    Nat → MergeState → MergeState → Prop
  | done {s : MergeState} : heap.pop s.heap = none → MergesLowest enc heap piece units 0 s s
  | skip {n : Nat} {s t : MergeState} {c : Candidate} {rest : List Candidate} :
      heap.pop s.heap = some (c, rest) → isStale s c = true →
        MergesLowest enc heap piece units n { s with heap := rest } t →
          MergesLowest enc heap piece units n s t
  | merge {n i : Nat} {s t : MergeState} {c : Candidate} {rest : List Candidate}
      {strings : List Bytes} :
      heap.pop s.heap = some (c, rest) → isStale s c = false →
        collect piece s.symbols units 0 = some strings → Lowest enc.priority strings c.rank i →
          collect piece (enc.mergeCandidate piece { s with heap := rest } c).symbols units 0 =
              some (mergeAt (· ++ ·) i strings) →
            MergesLowest enc heap piece units n (enc.mergeCandidate piece { s with heap := rest } c) t →
              MergesLowest enc heap piece units (n + 1) s t

theorem Linked.length_le {symbols : Nat → Symbol} {live : List Nat}
    (h : Linked positions symbols live) : live.length ≤ numChars positions := by
  have hnodup : live.Nodup := h.sorted.imp (fun hlt => Nat.ne_of_lt hlt)
  have hsubset : live ⊆ List.range (numChars positions) :=
    fun i hi => List.mem_range.2 (h.bound i hi)
  have hlength := (List.subperm_of_subset hnodup hsubset).length_le
  rwa [List.length_range] at hlength

theorem Linked.collect_all {symbols : Nat → Symbol} {live : List Nat}
    (h : Linked positions symbols live) :
    collect piece symbols (numChars positions) 0 = some (texts piece positions live) := by
  have hzero : live[0]? = some 0 := by
    rw [← List.head?_eq_getElem?]
    exact h.first
  have hlength := h.length_le
  rw [collect_texts h _ 0 0 hzero (by omega), List.drop_zero]

/-- The loop ends; each of its merges takes the lowest pair, and no pair is left. -/
theorem mergeLoop_spec (heap : PopHeap) (hpositions : positions.Pairwise (· < ·)) :
    ∀ (fuel : Nat) (s : MergeState) (live : List Nat), Ready enc piece positions s live →
      s.heap.length + 2 * live.length < fuel →
        ∃ merges t live', enc.mergeLoop heap piece fuel s = some t ∧
          MergesLowest enc heap piece (numChars positions) merges s t ∧
          Linked positions t.symbols live' ∧ texts piece positions live' =
            mergePairs enc.priority (· ++ ·) merges (texts piece positions live) ∧
          lowestPair enc.priority (texts piece positions live') = none ∧
          live'.length + merges = live.length := by
  intro fuel
  induction fuel with
  | zero =>
    intro s live _ hfuel
    exact absurd hfuel (Nat.not_lt_zero _)
  | succ fuel ih =>
    intro s live hready hfuel
    rw [mergeLoop]
    cases hpop : heap.pop s.heap with
    | none =>
      refine ⟨0, s, live, rfl, .done hpop, hready.linked, rfl, ?_, rfl⟩
      rw [lowestPair_eq_none_iff]
      intro k p hpair
      have hmem := hready.complete k p hpair
      rw [heap.pop_none _ hpop] at hmem
      exact absurd hmem List.not_mem_nil
    | some popped =>
      obtain ⟨c, rest⟩ := popped
      obtain ⟨hperm, hfirst⟩ := heap.pop_some _ c rest hpop
      have hlength := hperm.length_eq
      rw [List.length_cons] at hlength
      simp only
      by_cases hstale : isStale s c = true
      · obtain ⟨merges, t, live', hloop, hrun, hrest⟩ :=
          ih { s with heap := rest } live (hready.skip hperm hstale) (by
            show rest.length + 2 * live.length < fuel
            omega)
        have hstale' : isStale { s with heap := rest } c = true := hstale
        rw [if_pos hstale']
        exact ⟨merges, t, live', hloop, .skip hpop hstale hrun, hrest⟩
      · have hfresh : isStale s c = false := by simpa using hstale
        have hfresh' : ¬ isStale { s with heap := rest } c = true := hstale
        obtain ⟨k, hlowest, hmerged, hheap⟩ :=
          hready.merge hpositions hperm hfirst hfresh
        have hk := hlowest.1.lt_length
        rw [texts_length] at hk
        have hshorter := List.length_eraseIdx_of_lt hk
        obtain ⟨merges, t, live', hloop, hrun, hlinked, htexts, hnone, hcount⟩ :=
          ih _ _ hmerged (by omega)
        have hstrings := @texts_eraseIdx piece positions hpositions k live
          hready.linked.sorted hready.linked.bound hk
        rw [if_neg hfresh']
        refine ⟨merges + 1, t, live', hloop, ?_, hlinked, ?_, hnone, by omega⟩
        · refine .merge hpop hfresh hready.linked.collect_all hlowest ?_ hrun
          rw [← hstrings]
          exact hmerged.linked.collect_all
        · rw [htexts, hstrings, mergePairs, lowestPair_eq_some_iff.2 hlowest]

theorem linked_initial (hunits : 0 < numChars positions) :
    Linked positions (initialSymbols positions) (List.range (numChars positions)) where
  first := by
    rw [List.head?_range, if_neg (Nat.ne_of_gt hunits)]
  sorted := List.pairwise_lt_range
  bound := fun i hi => List.mem_range.1 hi
  symbol := by
    intro k i hi
    obtain ⟨hlt, hget⟩ := List.getElem?_eq_some_iff.1 hi
    rw [List.getElem_range] at hget
    rw [List.length_range] at hlt
    subst hget
    have hnext : (List.range (numChars positions))[k + 1]? =
        if k + 1 < numChars positions then some (k + 1) else none := by
      split_ifs with hmore
      · exact List.getElem?_range hmore
      · exact List.getElem?_eq_none (by rw [List.length_range]; omega)
    have hstop : (if k + 1 < numChars positions then some (k + 1) else none).getD
        (numChars positions) = k + 1 := by
      split_ifs
      · rfl
      · rw [Option.getD_none]
        omega
    rw [hnext, hstop, initialSymbols]
    have hprev : (if k = 0 then none else (List.range (numChars positions))[k - 1]?) =
        if k = 0 then none else some (k - 1) := by
      split_ifs
      · rfl
      · rw [List.getElem?_range (by omega)]
    rw [hprev]
    rfl
  dead := fun i hi hnot => absurd (List.mem_range.2 hi) hnot

/-! ## The units of a text -/

theorem pushAll_spec (hunits : 0 < numChars positions) : ∀ m, m + 1 ≤ numChars positions →
      ∃ s, (List.range m).foldl (fun s i => enc.pushPair piece s (some i))
          { symbols := initialSymbols positions, heap := [] } = s ∧
        s.symbols = initialSymbols positions ∧ (∀ c ∈ s.heap, Priced enc piece positions c) ∧
        (∀ k p, k < m →
          PairAt enc.priority (texts piece positions (List.range (numChars positions))) k p →
            candidateAt positions (List.range (numChars positions)) k p ∈ s.heap) ∧
        s.heap.length ≤ m := by
  intro m
  induction m with
  | zero =>
    intro _
    refine ⟨_, rfl, rfl, fun c hc => absurd hc List.not_mem_nil, ?_, Nat.le_refl _⟩
    intro k p hk
    exact absurd hk (Nat.not_lt_zero k)
  | succ m ih =>
    intro hm
    obtain ⟨s, hs, hsymbols, hpriced, hcomplete, hlength⟩ := ih (by omega)
    have hlinked : Linked positions s.symbols (List.range (numChars positions)) := by
      rw [hsymbols]
      exact linked_initial hunits
    have hpush : Pushed enc piece positions (List.range (numChars positions)) m s _ :=
      pushPair_spec hlinked (List.getElem?_range (by omega))
    rw [List.range_succ, List.foldl_append, hs]
    refine ⟨_, rfl, hpush.symbols.trans hsymbols, ?_, ?_, ?_⟩
    · intro c hc
      rcases hpush.priced c hc with hold | hnew
      · exact hpriced c hold
      · exact hnew
    · intro k p hk hpair
      rcases Nat.lt_succ_iff_lt_or_eq.1 hk with hlt | rfl
      · exact hpush.keeps _ (hcomplete k p hlt hpair)
      · exact hpush.pushes p hpair
    · exact Nat.le_trans hpush.length (Nat.succ_le_succ hlength)

theorem ready_initial (hunits : 0 < numChars positions) :
    Ready enc piece positions (enc.initialState piece positions) (List.range (numChars positions)) ∧
      (enc.initialState piece positions).heap.length + 1 ≤ numChars positions := by
  have hcount : positions.length - 2 = numChars positions - 1 := by
    unfold numChars
    omega
  obtain ⟨s, hs, hsymbols, hpriced, hcomplete, hlength⟩ :=
    @pushAll_spec enc piece positions hunits (numChars positions - 1) (by omega)
  rw [initialState, hcount, hs]
  refine ⟨⟨?_, hpriced, ?_⟩, by omega⟩
  · rw [hsymbols]
    exact linked_initial hunits
  · intro k p hpair
    have hlt := hpair.lt_length
    rw [texts_length, List.length_range] at hlt
    exact hcomplete k p (by omega) hpair

/-- The strings between neighbouring boundaries. -/
def spans (piece : Bytes) : List Nat → List Bytes
  | [] => []
  | [_] => []
  | a :: b :: rest => substr piece a b :: spans piece (b :: rest)

theorem spans_getElem? (k : Nat) : (spans piece positions)[k]? = if k < numChars positions then
        some (substr piece (position positions k) (position positions (k + 1))) else none := by
  induction positions generalizing k with
  | nil => rfl
  | cons a rest ih =>
    cases rest with
    | nil => rfl
    | cons b rest =>
      have hcount : numChars (a :: b :: rest) = numChars (b :: rest) + 1 := by
        simp [numChars]
      rw [spans, hcount]
      cases k with
      | zero =>
        rw [if_pos (Nat.succ_pos _)]
        rfl
      | succ k =>
        rw [List.getElem?_cons_succ, ih]
        simp only [Nat.succ_lt_succ_iff, position, List.getD_cons_succ]

/-- The strings of all units are the spans of the boundaries. -/
theorem texts_range :
    texts piece positions (List.range (numChars positions)) = spans piece positions := by
  apply List.ext_getElem?
  intro k
  rw [texts_getElem?, spans_getElem?]
  by_cases hk : k < numChars positions
  · rw [if_pos hk, List.getElem?_range hk, Option.map_some]
    have hnext : (List.range (numChars positions))[k + 1]?.getD (numChars positions) = k + 1 := by
      by_cases hmore : k + 1 < numChars positions
      · rw [List.getElem?_range hmore, Option.getD_some]
      · rw [List.getElem?_eq_none (by rw [List.length_range]; omega), Option.getD_none]
        omega
    rw [hnext]
  · have hnone : (List.range (numChars positions))[k]? = none :=
      List.getElem?_eq_none (by rw [List.length_range]; omega)
    rw [if_neg hk, hnone, Option.map_none]

theorem charPositions_skip (enc : TokenEncoder) (tail rest : Bytes) (pos : Nat) :
    enc.charPositions pos tail.length (tail ++ rest) =
      enc.charPositions (pos + tail.length) 0 rest := by
  induction tail generalizing pos with
  | nil => rfl
  | cons b tail ih =>
    rw [List.length_cons, List.cons_append, charPositions, ih]
    congr 1
    omega

theorem charPositions_eq_cons (enc : TokenEncoder) (rest : Bytes) (pos : Nat) :
    ∃ more, enc.charPositions pos 0 rest = pos :: more := by
  cases rest with
  | nil => exact ⟨[], rfl⟩
  | cons c rest => exact ⟨_, rfl⟩

theorem substr_middle (before middle after : Bytes) :
    substr (before ++ (middle ++ after)) before.length (before.length + middle.length) = middle := by
  rw [substr, List.drop_left, Nat.add_sub_cancel_left, List.take_left]

/-- Units whose first byte tells their length are found as they are. -/
theorem spans_charPositions (enc : TokenEncoder) : ∀ (units : List Bytes) (before : Bytes),
      (∀ unit ∈ units, ∃ c tail, unit = c :: tail ∧ enc.unitLength c = tail.length + 1) →
        spans (before ++ units.flatten) (enc.charPositions before.length 0 units.flatten) =
          units := by
  intro units
  induction units with
  | nil =>
    intro before _
    rfl
  | cons unit units ih =>
    intro before hunits
    obtain ⟨hfirst, hothers⟩ := List.forall_mem_cons.1 hunits
    obtain ⟨c, tail, rfl, hlength⟩ := hfirst
    have hpos : before.length + 1 + tail.length = (before ++ c :: tail).length := by
      rw [List.length_append, List.length_cons]
      omega
    have hrest := ih (before ++ c :: tail) hothers
    obtain ⟨more, hmore⟩ := charPositions_eq_cons enc units.flatten (before ++ c :: tail).length
    rw [List.append_assoc] at hrest
    rw [List.flatten_cons, List.cons_append, charPositions, hlength, Nat.add_sub_cancel,
      charPositions_skip, hpos, hmore, spans, ← hmore, ← List.cons_append, hrest,
      List.length_append, substr_middle]

/-- The units of a text: its characters, or its bytes. -/
def units (enc : TokenEncoder) (chars : List Char) : List Bytes :=
  if enc.mUseMergePriorities then chars.map String.utf8EncodeChar
  else (chars.flatMap String.utf8EncodeChar).map fun b => [b]

theorem units_flatten (enc : TokenEncoder) (chars : List Char) :
    (units enc chars).flatten = chars.flatMap String.utf8EncodeChar := by
  rw [units]
  split_ifs
  · rw [List.flatMap_def]
  · rw [← List.flatMap_def, List.flatMap_singleton']

theorem unitLength_units (enc : TokenEncoder) (chars : List Char) :
    ∀ unit ∈ units enc chars, ∃ c tail, unit = c :: tail ∧ enc.unitLength c = tail.length + 1 := by
  intro unit hunit
  rw [units] at hunit
  split_ifs at hunit with huse
  · obtain ⟨ch, _, rfl⟩ := List.mem_map.1 hunit
    have hleader : ∀ c : UInt8, leaderByteLen c ≠ 0 →
        (if c < 0x80 then 1 else if c &&& 0xE0 = 0xC0 then 2
          else if c &&& 0xF0 = 0xE0 then 3 else 4) = leaderByteLen c := by
      apply forall_byte
      decide +kernel
    match hch : String.utf8EncodeChar ch with
    | [] => exact absurd ⟨ch, hch.symm⟩ Verified.Utf8Text.not_encodes_nil
    | c :: tail =>
      have hgood : Verified.Utf8Text.Encodes (c :: tail) := ⟨ch, hch.symm⟩
      have hlength : leaderByteLen c = tail.length + 1 := by
        rw [leaderByteLen_eq, hgood.shape.1]
      refine ⟨c, tail, rfl, ?_⟩
      rw [unitLength, if_pos huse, hleader c (by omega), hlength]
  · obtain ⟨b, _, rfl⟩ := List.mem_map.1 hunit
    refine ⟨b, [], rfl, ?_⟩
    rw [unitLength, if_neg huse]
    rfl

theorem spans_units (enc : TokenEncoder) (chars : List Char) :
    spans (chars.flatMap String.utf8EncodeChar)
        (enc.charPositions 0 0 (chars.flatMap String.utf8EncodeChar)) = units enc chars := by
  have hspans := spans_charPositions enc (units enc chars) [] (unitLength_units enc chars)
  rw [units_flatten] at hspans
  exact hspans

theorem numChars_units (enc : TokenEncoder) (chars : List Char) :
    numChars (enc.charPositions 0 0 (chars.flatMap String.utf8EncodeChar)) =
      (units enc chars).length := by
  rw [← spans_units, ← texts_range, texts_length, List.length_range]

/-- The reference algorithm on a text: merge the lowest pair, leftmost first, while
there is one. -/
def textbookSymbols (enc : TokenEncoder) (chars : List Char) : List Bytes :=
  mergePairs enc.priority (· ++ ·) (units enc chars).length (units enc chars)

/-- The ids by the reference algorithm.  As in the code, a piece that is a token is
that token, and a single unit is only looked up. -/
def textbookEncode (enc : TokenEncoder) (chars : List Char) : List Rank :=
  if chars = [] then []
  else
    match enc.mEncoder (chars.flatMap String.utf8EncodeChar) with
    | some rank => [rank]
    | none =>
      if (units enc chars).length ≤ 1 then []
      else enc.finalTokens (textbookSymbols enc chars)

/-- The heap's loop on a text of several units ends after fewer merges than there
are units, each of the lowest pair, in the reference's symbols. -/
theorem mergeLoop_textbook (enc : TokenEncoder) (heap : PopHeap) (chars : List Char)
    (hunits : 0 < (units enc chars).length) : ∃ merges t,
      enc.mergeLoop heap (chars.flatMap String.utf8EncodeChar) (3 * (units enc chars).length)
          (enc.initialState (chars.flatMap String.utf8EncodeChar)
            (enc.charPositions 0 0 (chars.flatMap String.utf8EncodeChar))) = some t ∧
        MergesLowest enc heap (chars.flatMap String.utf8EncodeChar) (units enc chars).length merges
          (enc.initialState (chars.flatMap String.utf8EncodeChar)
            (enc.charPositions 0 0 (chars.flatMap String.utf8EncodeChar))) t ∧
        merges + 1 ≤ (units enc chars).length ∧
        collect (chars.flatMap String.utf8EncodeChar) t.symbols (units enc chars).length 0 =
          some (textbookSymbols enc chars) ∧
        lowestPair enc.priority (textbookSymbols enc chars) = none := by
  have hcount := numChars_units enc chars
  rw [← hcount] at hunits
  obtain ⟨hready, hheap⟩ := @ready_initial enc (chars.flatMap String.utf8EncodeChar) _ hunits
  obtain ⟨merges, t, live, hloop, hrun, hlinked, htexts, hnone, hlength⟩ :=
    mergeLoop_spec heap (enc.charPositions_pairwise _ 0 0)
      (3 * numChars (enc.charPositions 0 0 (chars.flatMap String.utf8EncodeChar))) _ _ hready
      (by rw [List.length_range]; omega)
  rw [List.length_range] at hlength
  rw [texts_range, spans_units] at htexts
  have hlive : 0 < live.length := by
    have hfirst := hlinked.first
    cases live with
    | nil => cases hfirst
    | cons i live => exact Nat.succ_pos _
  have hsymbols : texts (chars.flatMap String.utf8EncodeChar)
      (enc.charPositions 0 0 (chars.flatMap String.utf8EncodeChar)) live =
        textbookSymbols enc chars := by
    have hsplit : (units enc chars).length = merges + live.length := by omega
    rw [htexts] at hnone ⊢
    rw [textbookSymbols, hsplit, mergePairs_add, mergePairs_of_none hnone]
  refine ⟨merges, t, ?_, ?_, by omega, ?_, ?_⟩
  · rw [← hcount]
    exact hloop
  · rw [← hcount]
    exact hrun
  · rw [← hcount, hlinked.collect_all, hsymbols]
  · rw [← hsymbols]
    exact hnone

end Turn

section Encoding

theorem utf8_eq_nil {chars : List Char} :
    chars.flatMap String.utf8EncodeChar = [] ↔ chars = [] := by
  constructor
  · intro h
    cases chars with
    | nil => rfl
    | cons ch chars =>
      rw [List.flatMap_cons, List.append_eq_nil_iff] at h
      exact absurd ⟨ch, h.1.symm⟩ Verified.Utf8Text.not_encodes_nil
  · intro h
    rw [h]
    rfl

/-- The ids of a text are the reference algorithm's. -/
theorem bytePairEncode_eq (enc : TokenEncoder) (heap : PopHeap) (chars : List Char) :
    enc.bytePairEncode heap (chars.flatMap String.utf8EncodeChar) =
      some (textbookEncode enc chars) := by
  rw [bytePairEncode, textbookEncode]
  by_cases hnil : chars = []
  · rw [if_pos hnil, if_pos (utf8_eq_nil.2 hnil)]
  rw [if_neg hnil, if_neg (fun h => hnil (utf8_eq_nil.1 h))]
  cases henc : enc.mEncoder (chars.flatMap String.utf8EncodeChar) with
  | some rank => rfl
  | none =>
    have hcount := numChars_units enc chars
    rw [numChars] at hcount
    simp only [hcount]
    by_cases hone : (units enc chars).length ≤ 1
    · rw [if_pos hone, if_pos hone]
    · obtain ⟨merges, t, hloop, _, _, hcollect, _⟩ :=
        mergeLoop_textbook enc heap chars (by omega)
      rw [if_neg hone, if_neg hone, hloop, Option.bind_some, hcollect, Option.map_some]

/-- The ids are the reference algorithm's; and the heap's loop on several units ends
after fewer merges than there are units, each of them of the pair that is lowest
when it is merged, with no pair left. -/
theorem bytePairEncode_textbook (enc : TokenEncoder) (heap : PopHeap) (chars : List Char) :
    enc.bytePairEncode heap (chars.flatMap String.utf8EncodeChar) =
        some (textbookEncode enc chars) ∧
      (1 < (units enc chars).length → ∃ merges t,
        enc.mergeLoop heap (chars.flatMap String.utf8EncodeChar) (3 * (units enc chars).length)
            (enc.initialState (chars.flatMap String.utf8EncodeChar)
              (enc.charPositions 0 0 (chars.flatMap String.utf8EncodeChar))) = some t ∧
          MergesLowest enc heap (chars.flatMap String.utf8EncodeChar) (units enc chars).length
            merges
            (enc.initialState (chars.flatMap String.utf8EncodeChar)
              (enc.charPositions 0 0 (chars.flatMap String.utf8EncodeChar))) t ∧
          merges + 1 ≤ (units enc chars).length ∧
          lowestPair enc.priority (textbookSymbols enc chars) = none) := by
  refine ⟨bytePairEncode_eq enc heap chars, ?_⟩
  intro hunits
  obtain ⟨merges, t, hloop, hrun, hcount, _, hnone⟩ := mergeLoop_textbook enc heap chars (by omega)
  exact ⟨merges, t, hloop, hrun, hcount, hnone⟩

end Encoding

end TokenEncoder

end EdgeLLM.Ports.Encoding
