import EdgeLLM.Verified.Checked
import EdgeLLM.Verified.Filling
import EdgeLLM.Verified.Moves
import Mathlib

/-!
# Reduced vocabularies

`reduce_vocab_size` selects the token ids that a reduced output vocabulary
keeps: the required ones, and as many others as fit, by their frequency in the
articles of a dataset or by the input-aware heuristic.  `setLogitBiasVocabMap`
inverts the resulting list at runtime.

The tokenizer is a parameter, and so is the order in which Python iterates over
a set.
-/

namespace EdgeLLM.Ports.VocabReduction

open Verified

/-! ## Inputs -/

/-- `eos_token_id` of a config: an id, a list of ids, or anything else. -/
inductive EosValue where
  | id (value : Int)
  | ids (values : List Int)
  | other

structure Tokenizer where
  eos_token_id : Option Int
  bos_token_id : Option Int
  pad_token_id : Option Int
  unk_token_id : Option Int
  /-- `encode(text, add_special_tokens=False)`. -/
  encode : String → List Int

structure Config where
  vocab_size : Option Int
  text_config_vocab_size : Option Int
  eos_token_id : EosValue

/-- The texts of a sample; a missing one is empty. -/
structure Sample where
  article : String
  highlights : String

/-- The order of the iteration over a set of ids. -/
structure SetOrder where
  order : Finset Int → List Int
  mem_order : ∀ {s : Finset Int} {t : Int}, t ∈ order s ↔ t ∈ s

def get_vocab_size (config : Config) : Except String Int :=
  config.vocab_size.elim
    (config.text_config_vocab_size.elim (.error "Could not find vocab_size") .ok) .ok

/-! ## Required tokens -/

/-- The ids that the draft positions of a `d2t` table stand for, read as offsets. -/
def offset_targets (raw : List Int) : List Int := raw.zipIdx.map fun r => (r.2 : Int) + r.1

def inVocab (vocab_size t : Int) : Bool := decide (0 ≤ t ∧ t < vocab_size)

def resolve_d2t_target_ids (raw : List Int) (vocab_size : Int) : Except String (List Int) := do
  let direct_valid := raw.all (inVocab vocab_size)
  let offset_valid := (offset_targets raw).all (inVocab vocab_size)
  requireThat (direct_valid = true ∨ offset_valid = true)
    "EAGLE d2t tensor is neither a valid direct map nor offset map"
  let use_offset_map := offset_valid &&
    (!direct_valid || decide (raw.toFinset.card < (offset_targets raw).toFinset.card))
  pure (if use_offset_map then offset_targets raw else raw)

def extract_d2t_required_tokens (d2t : List Int) (vocab_size : Int) :
    Except String (Finset Int) := do
  let target_ids ← resolve_d2t_target_ids d2t vocab_size
  pure (target_ids.filter (inVocab vocab_size)).toFinset

def eos_ids_from : EosValue → Finset Int
  | .id value => {value}
  | .ids values => values.toFinset
  | .other => ∅

def get_special_tokens (tokenizer : Tokenizer) (config : Config) : Except String (Finset Int) := do
  let eos_token_id ← (tokenizer.eos_token_id.or tokenizer.pad_token_id).elim
    (.error "Tokenizer must have eos_token_id or pad_token_id") .ok
  pure (insert eos_token_id (eos_ids_from config.eos_token_id ∪
    tokenizer.bos_token_id.toFinset ∪ tokenizer.pad_token_id.toFinset ∪
    tokenizer.unk_token_id.toFinset))

/-- The tokens of the articles, sample by sample; an empty text is not encoded. -/
def articleTokens (tokenizer : Tokenizer) (dataset : List Sample) : List Int :=
  dataset.flatMap fun sample =>
    if sample.article = "" then [] else tokenizer.encode sample.article

/-- The tokens of the summaries. -/
def summaryTokens (tokenizer : Tokenizer) (dataset : List Sample) : List Int :=
  dataset.flatMap fun sample =>
    if sample.highlights = "" then [] else tokenizer.encode sample.highlights

/-- `Counter.most_common`: by descending count, otherwise in the order of the
first occurrences. -/
def most_common (tokens : List Int) : List Int :=
  tokens.reverse.dedup.reverse.insertionSort fun a b => tokens.count b ≤ tokens.count a

/-! ## Selection -/

/-- Whether an id may be selected. -/
def selectable (exclude_tokens : Finset Int) (t : Int) : Bool := decide (t ∉ exclude_tokens)

def input_frequency_filter (tokenizer : Tokenizer) (dataset : List Sample) (target_size : Nat)
    (exclude_tokens : Finset Int) : Except String (Finset Int) := do
  let selected := pick target_size (selectable exclude_tokens) ∅
    (most_common (articleTokens tokenizer dataset))
  requireThat (target_size ≤ selected.card) "Not enough unique tokens available."
  pure selected

/-- `int(target_size * 0.1)`; the rounding of the product does not show below `2 ^ 50`. -/
def toleranceBudget (target_size : Nat) : Nat := target_size / 10

/-- Step 3 of `input_aware_filter`. -/
def coreVocab (tokenizer : Tokenizer) (dataset : List Sample) (target_size : Nat)
    (exclude_tokens : Finset Int) : Finset Int :=
  let output := summaryTokens tokenizer dataset
  let input := articleTokens tokenizer dataset
  let core_budget := target_size - toleranceBudget target_size
  let aware := fill core_budget (fun t => selectable exclude_tokens t && input.contains t) ∅
    (most_common output)
  let task := fill core_budget (selectable exclude_tokens) aware (most_common output)
  fill core_budget (selectable exclude_tokens) task (most_common input)

def tolerance_k : Int := 5

/-- The ids within `tolerance_k` of a core token, in the order of the offsets. -/
def neighbours (token_id : Int) : List Int :=
  (List.range 11).map fun offset => token_id + ((offset : Int) - tolerance_k)

/-- Whether step 4 may add the id. -/
def addable (vocab_size : Int) (core exclude_tokens : Finset Int) (t : Int) : Bool :=
  inVocab vocab_size t && decide (t ∉ core) && selectable exclude_tokens t

/-- Step 4 of `input_aware_filter`: the budget is looked at after a neighbour has
been added, and after each core token. -/
def toleranceTokens (vocab_size : Int) (budget : Nat) (core exclude_tokens : Finset Int) :
    Finset Int → List Int → Finset Int
  | tolerance, [] => tolerance
  | tolerance, token_id :: rest =>
    let next := pick budget (addable vocab_size core exclude_tokens) tolerance
      (neighbours token_id)
    if budget ≤ next.card then next
    else toleranceTokens vocab_size budget core exclude_tokens next rest

/-- `set(sorted(selected)[:target_size])`. -/
def trim (target_size : Nat) (selected : Finset Int) : Finset Int :=
  if target_size < selected.card then ((selected.sort (· ≤ ·)).take target_size).toFinset
  else selected

def input_aware_filter (setOrder : SetOrder) (tokenizer : Tokenizer) (config : Config)
    (dataset : List Sample) (target_size : Nat) (exclude_tokens : Finset Int) :
    Except String (Finset Int) := do
  let core := coreVocab tokenizer dataset target_size exclude_tokens
  let vocab_size ← get_vocab_size config
  let tolerance := toleranceTokens vocab_size (toleranceBudget target_size) core exclude_tokens ∅
    (setOrder.order core)
  let selected := fill target_size (selectable exclude_tokens)
    (fill target_size (selectable exclude_tokens)
      (fill target_size (selectable exclude_tokens) (core ∪ tolerance)
        (most_common (summaryTokens tokenizer dataset)))
      (most_common (articleTokens tokenizer dataset)))
    ((List.range vocab_size.toNat).map fun t : Nat => (t : Int))
  let final_selected := trim target_size selected
  requireThat (target_size ≤ final_selected.card) "Filter returned too few tokens"
  pure final_selected

/-- The required tokens of a `d2t` table, after the check of its size. -/
def d2tRequired (d2t_tensor : Option (List Int)) (reduced_vocab_size vocab_size : Int) :
    Except String (Finset Int) :=
  d2t_tensor.elim (.ok ∅) fun d2t => do
    requireThat ((d2t.length : Int) < reduced_vocab_size)
      "reduced_vocab_size must be greater than d2t_tensor size"
    extract_d2t_required_tokens d2t vocab_size

/-- The selection of the method. -/
def additionalTokens (setOrder : SetOrder) (tokenizer : Tokenizer) (config : Config)
    (dataset : List Sample) (method : String) (remaining_slots : Nat) (required : Finset Int) :
    Except String (Finset Int) :=
  if method = "frequency" then input_frequency_filter tokenizer dataset remaining_slots required
  else input_aware_filter setOrder tokenizer config dataset remaining_slots required

def reduce_vocab_size (setOrder : SetOrder) (tokenizer : Tokenizer) (config : Config)
    (dataset : List Sample) (reduced_vocab_size : Int) (d2t_tensor : Option (List Int))
    (method : String) (extra_required_tokens : List Int) : Except String (List Int) := do
  let vocab_size ← get_vocab_size config
  requireThat (reduced_vocab_size < vocab_size) "reduced_vocab_size must be less than vocab_size"
  requireThat (method = "frequency" ∨ method = "input_aware")
    "method must be 'frequency' or 'input_aware'"
  let special ← get_special_tokens tokenizer config
  let draft ← d2tRequired d2t_tensor reduced_vocab_size vocab_size
  let required := special ∪ (extra_required_tokens.filter (inVocab vocab_size)).toFinset ∪ draft
  let remaining_slots := reduced_vocab_size - required.card
  requireThat (0 ≤ remaining_slots) "Required tokens exceeds reduced_vocab_size"
  let additional ←
    additionalTokens setOrder tokenizer config dataset method remaining_slots.toNat required
  let final_tokens := required ∪ additional
  requireThat ((final_tokens.card : Int) = reduced_vocab_size)
    "Final vocabulary size does not match target"
  pure (final_tokens.sort (· ≤ ·))

/-- The loop of `setLogitBiasVocabMap`. -/
def fillVocabMap (fullVocabSize : Int) :
    Nat → List Int → Buffer Int → Except String (Buffer Int)
  | _, [], map => pure map
  | reducedTokenId, fullTokenId :: rest, map => do
    requireThat (0 ≤ fullTokenId ∧ fullTokenId < fullVocabSize)
      "Vocabulary map token ID is outside the full vocabulary"
    fillVocabMap fullVocabSize (reducedTokenId + 1) rest
      (map.store [(fullTokenId.toNat, (reducedTokenId : Int))])

/-- `setLogitBiasVocabMap` for a one-dimensional `int32` map on the device. -/
def setLogitBiasVocabMap (reducedToFullVocabMap : List Int) (fullVocabSize reducedVocabSize : Int) :
    Except String (Buffer Int) := do
  requireThat (0 < fullVocabSize) "Full vocabulary size must be positive"
  requireThat (0 < reducedVocabSize) "Reduced vocabulary size must be positive"
  requireThat ((reducedToFullVocabMap.length : Int) = reducedVocabSize)
    "Vocabulary map length must match the reduced vocabulary size"
  fillVocabMap fullVocabSize 0 reducedToFullVocabMap (Buffer.assign fullVocabSize.toNat (-1))

/-! ## Reduced vocabularies exist and are inverted

The list that `reduce_vocab_size` returns has the requested size and contains
the required ids, whatever the method; the rest is the most frequent ids of the
articles, or contains the core vocabulary.  Two greedy loops add an id before
they look at their budget, which shows where the budget is zero: where nothing
is left to select by frequency, and where the tolerance budget of a small
selection is zero. -/

/-! ## Counters -/

section Counters

variable {tokens : List Int} {t : Int}

theorem mem_most_common : t ∈ most_common tokens ↔ t ∈ tokens := by
  unfold most_common
  rw [List.mem_insertionSort, List.mem_reverse, List.mem_dedup, List.mem_reverse]

theorem nodup_most_common : (most_common tokens).Nodup := by
  unfold most_common
  rw [(List.perm_insertionSort _ _).nodup_iff, List.nodup_reverse]
  exact List.nodup_dedup _

theorem pairwise_most_common :
    (most_common tokens).Pairwise fun a b => tokens.count b ≤ tokens.count a := by
  unfold most_common
  have htotal : Std.Total fun a b : Int => tokens.count b ≤ tokens.count a :=
    ⟨fun a b => Nat.le_total _ _⟩
  have htrans : IsTrans Int fun a b => tokens.count b ≤ tokens.count a :=
    ⟨fun a b c hab hbc => Nat.le_trans hbc hab⟩
  exact List.pairwise_insertionSort _ _

end Counters

theorem selectable_iff {exclude_tokens : Finset Int} {t : Int} :
    selectable exclude_tokens t = true ↔ t ∉ exclude_tokens := decide_eq_true_iff

theorem inVocab_iff {vocab_size t : Int} :
    inVocab vocab_size t = true ↔ 0 ≤ t ∧ t < vocab_size := decide_eq_true_iff

/-! ## Frequency -/

/-- The ids of the articles that are not required. -/
def otherTokens (tokenizer : Tokenizer) (dataset : List Sample) (required : Finset Int) :
    Finset Int :=
  (articleTokens tokenizer dataset).toFinset.filter fun t => t ∉ required

section Frequency

variable {tokenizer : Tokenizer} {dataset : List Sample} {target : Nat} {required : Finset Int}

/-- The candidates of the frequency method, in the order of their counts. -/
def candidates (tokenizer : Tokenizer) (dataset : List Sample) (required : Finset Int) : List Int :=
  (most_common (articleTokens tokenizer dataset)).filter (selectable required)

theorem mem_candidates {t : Int} : t ∈ candidates tokenizer dataset required ↔
    t ∈ articleTokens tokenizer dataset ∧ t ∉ required := by
  unfold candidates
  rw [List.mem_filter, mem_most_common, selectable_iff]

theorem nodup_candidates : (candidates tokenizer dataset required).Nodup :=
  nodup_most_common.filter _

theorem length_candidates : (candidates tokenizer dataset required).length =
    (otherTokens tokenizer dataset required).card := by
  rw [← List.toFinset_card_of_nodup nodup_candidates]
  congr 1
  ext t
  rw [List.mem_toFinset, mem_candidates, otherTokens, Finset.mem_filter, List.mem_toFinset]

/-- Where there are enough ids, and none where none is asked for, the filter
returns the most frequent ones. -/
theorem input_frequency_filter_eq_ok
    (henough : target ≤ (otherTokens tokenizer dataset required).card)
    (hzero : target = 0 → otherTokens tokenizer dataset required = ∅) :
    input_frequency_filter tokenizer dataset target required =
      .ok ((candidates tokenizer dataset required).take target).toFinset := by
  have hpick : pick target (selectable required) ∅
      (most_common (articleTokens tokenizer dataset)) =
        ((candidates tokenizer dataset required).take target).toFinset := by
    rw [pick_eq nodup_most_common fun _ _ => Finset.notMem_empty _, Finset.empty_union,
      Finset.card_empty, Nat.sub_zero]
    show ((candidates tokenizer dataset required).take (max 1 target)).toFinset = _
    rcases Nat.eq_zero_or_pos target with htarget | hpositive
    · have hnil : candidates tokenizer dataset required = [] := by
        apply List.eq_nil_of_length_eq_zero
        rw [length_candidates, hzero htarget, Finset.card_empty]
      rw [hnil, List.take_nil, List.take_nil]
    · rw [Nat.max_eq_right hpositive]
  have hcard : target ≤ ((candidates tokenizer dataset required).take target).toFinset.card := by
    rw [List.toFinset_card_of_nodup ((List.take_sublist _ _).nodup nodup_candidates),
      List.length_take, length_candidates, Nat.min_eq_left henough]
  unfold input_frequency_filter
  rw [hpick]
  dsimp only
  rw [requireThat_of hcard]
  rfl

theorem card_take_candidates (henough : target ≤ (otherTokens tokenizer dataset required).card) :
    ((candidates tokenizer dataset required).take target).toFinset.card = target := by
  rw [List.toFinset_card_of_nodup ((List.take_sublist _ _).nodup nodup_candidates),
    List.length_take, length_candidates, Nat.min_eq_left henough]

/-- What is left out is no more frequent than what is taken. -/
theorem count_le_of_take {a b : Int} (ha : a ∈ (candidates tokenizer dataset required).take target)
    (hb : b ∈ candidates tokenizer dataset required)
    (hb' : b ∉ (candidates tokenizer dataset required).take target) :
    (articleTokens tokenizer dataset).count b ≤ (articleTokens tokenizer dataset).count a := by
  have hsorted : (candidates tokenizer dataset required).Pairwise fun a b =>
      (articleTokens tokenizer dataset).count b ≤ (articleTokens tokenizer dataset).count a :=
    pairwise_most_common.filter _
  rw [← List.take_append_drop target (candidates tokenizer dataset required)] at hsorted hb
  rcases List.mem_append.1 hb with htake | hdrop
  · exact absurd htake hb'
  · exact (List.pairwise_append.1 hsorted).2.2 a ha b hdrop

end Frequency

/-! ## The input-aware heuristic -/

section Tolerance

variable {vocab_size : Int} {budget : Nat} {core required s : Finset Int} {tokens : List Int}

theorem addable_iff {t : Int} : addable vocab_size core required t = true ↔
    inVocab vocab_size t = true ∧ t ∉ core ∧ t ∉ required := by
  unfold addable
  rw [Bool.and_eq_true, Bool.and_eq_true, decide_eq_true_iff, selectable_iff, and_assoc]

/-- A tolerance token is a neighbour of a core token that may be added. -/
theorem mem_toleranceTokens {t : Int}
    (h : t ∈ toleranceTokens vocab_size budget core required s tokens) :
    t ∈ s ∨ ∃ c ∈ tokens, t ∈ neighbours c ∧ addable vocab_size core required t = true := by
  induction tokens generalizing s with
  | nil => exact .inl h
  | cons c rest ih =>
    have hnext {t : Int} (hmem : t ∈ pick budget (addable vocab_size core required) s
        (neighbours c)) : t ∈ s ∨ ∃ c' ∈ c :: rest, t ∈ neighbours c' ∧
          addable vocab_size core required t = true := by
      rcases mem_pick hmem with hs | hadd
      · exact .inl hs
      · exact .inr ⟨c, List.mem_cons_self, hadd⟩
    unfold toleranceTokens at h
    dsimp only at h
    by_cases hfull : budget ≤ (pick budget (addable vocab_size core required) s
        (neighbours c)).card
    · rw [if_pos hfull] at h
      exact hnext h
    · rw [if_neg hfull] at h
      rcases ih h with hmem | hrest
      · exact hnext hmem
      · obtain ⟨c', hc', hadd⟩ := hrest
        exact .inr ⟨c', List.mem_cons_of_mem c hc', hadd⟩

theorem card_toleranceTokens_le (h : s.card < max 1 budget) :
    (toleranceTokens vocab_size budget core required s tokens).card ≤ max 1 budget := by
  induction tokens generalizing s with
  | nil => exact Nat.le_of_lt h
  | cons c rest ih =>
    unfold toleranceTokens
    dsimp only
    by_cases hfull : budget ≤ (pick budget (addable vocab_size core required) s
        (neighbours c)).card
    · rw [if_pos hfull]
      exact card_pick_le h
    · rw [if_neg hfull]
      exact ih (by omega)

end Tolerance

section InputAware

variable {setOrder : SetOrder} {tokenizer : Tokenizer} {config : Config} {dataset : List Sample}
  {vocab_size : Int} {target : Nat} {required : Finset Int}

theorem mem_coreVocab {t : Int} (h : t ∈ coreVocab tokenizer dataset target required) :
    t ∉ required ∧ (t ∈ summaryTokens tokenizer dataset ∨ t ∈ articleTokens tokenizer dataset) := by
  unfold coreVocab at h
  cases mem_fill h with
  | inr hinput => exact ⟨selectable_iff.1 hinput.2, .inr (mem_most_common.1 hinput.1)⟩
  | inl htask =>
    cases mem_fill htask with
    | inr houtput => exact ⟨selectable_iff.1 houtput.2, .inl (mem_most_common.1 houtput.1)⟩
    | inl haware =>
      cases mem_fill haware with
      | inr houtput =>
        rw [Bool.and_eq_true] at houtput
        exact ⟨selectable_iff.1 houtput.2.1, .inl (mem_most_common.1 houtput.1)⟩
      | inl hempty => exact absurd hempty (Finset.notMem_empty t)

theorem card_coreVocab_le :
    (coreVocab tokenizer dataset target required).card ≤ target - toleranceBudget target := by
  unfold coreVocab
  exact card_fill_le (card_fill_le (card_fill_le (by
    rw [Finset.card_empty]
    exact Nat.zero_le _)))

/-- The tolerance tokens leave the core vocabulary its room: the budget for them is
positive, the core vocabulary is smaller than the selection, or there are none. -/
def CoreHasRoom (vocab_size : Int) (target : Nat) (core required : Finset Int) : Prop :=
  10 ≤ target ∨ core.card < target ∨
    ∀ c ∈ core, ∀ t ∈ neighbours c, addable vocab_size core required t = false

theorem trim_subset {selected : Finset Int} : trim target selected ⊆ selected := by
  unfold trim
  by_cases h : target < selected.card
  · rw [if_pos h]
    intro t ht
    rw [List.mem_toFinset] at ht
    exact (Finset.mem_sort _).1 (List.mem_of_mem_take ht)
  · rw [if_neg h]

theorem card_trim {selected : Finset Int} (h : target ≤ selected.card) :
    (trim target selected).card = target := by
  unfold trim
  by_cases hlt : target < selected.card
  · rw [if_pos hlt, List.toFinset_card_of_nodup
      ((List.take_sublist _ _).nodup (Finset.sort_nodup _ _)), List.length_take,
      Finset.length_sort, Nat.min_eq_left h]
  · rw [if_neg hlt]
    omega

/-- The selection before it is trimmed. -/
def untrimmed (setOrder : SetOrder) (tokenizer : Tokenizer) (dataset : List Sample)
    (vocab_size : Int) (target : Nat) (required : Finset Int) : Finset Int :=
  let core := coreVocab tokenizer dataset target required
  fill target (selectable required)
    (fill target (selectable required)
      (fill target (selectable required)
        (core ∪ toleranceTokens vocab_size (toleranceBudget target) core required ∅
          (setOrder.order core))
        (most_common (summaryTokens tokenizer dataset)))
      (most_common (articleTokens tokenizer dataset)))
    ((List.range vocab_size.toNat).map fun t : Nat => (t : Int))

theorem mem_untrimmed (hsummary : ∀ t ∈ summaryTokens tokenizer dataset, inVocab vocab_size t = true)
    (harticle : ∀ t ∈ articleTokens tokenizer dataset, inVocab vocab_size t = true) {t : Int}
    (h : t ∈ untrimmed setOrder tokenizer dataset vocab_size target required) :
    t ∉ required ∧ inVocab vocab_size t = true := by
  unfold untrimmed at h
  cases mem_fill h with
  | inr hrange =>
    obtain ⟨n, hn, rfl⟩ := List.mem_map.1 hrange.1
    rw [List.mem_range] at hn
    refine ⟨selectable_iff.1 hrange.2, inVocab_iff.2 ⟨Int.natCast_nonneg n, ?_⟩⟩
    omega
  | inl hinput =>
    cases mem_fill hinput with
    | inr harticles =>
      exact ⟨selectable_iff.1 harticles.2, harticle t (mem_most_common.1 harticles.1)⟩
    | inl houtput =>
      cases mem_fill houtput with
      | inr hsummaries =>
        exact ⟨selectable_iff.1 hsummaries.2, hsummary t (mem_most_common.1 hsummaries.1)⟩
      | inl hstart =>
        rcases Finset.mem_union.1 hstart with hcore | htolerance
        · obtain ⟨hfresh, htokens⟩ := mem_coreVocab hcore
          exact ⟨hfresh, htokens.elim (hsummary t) (harticle t)⟩
        · cases mem_toleranceTokens htolerance with
          | inl hempty => exact absurd hempty (Finset.notMem_empty t)
          | inr hadd =>
            obtain ⟨_, -, -, haddable⟩ := hadd
            obtain ⟨hvocab, -, hfresh⟩ := addable_iff.1 haddable
            exact ⟨hfresh, hvocab⟩

/-- There are enough ids: the last loop goes through the whole vocabulary. -/
theorem le_card_untrimmed (henough : required.card + target ≤ vocab_size.toNat) :
    target ≤ (untrimmed setOrder tokenizer dataset vocab_size target required).card := by
  by_contra hless
  rw [Nat.not_le] at hless
  have hall : ((List.range vocab_size.toNat).map fun t : Nat => (t : Int)).toFinset ⊆
      required ∪ untrimmed setOrder tokenizer dataset vocab_size target required := by
    intro t ht
    rw [List.mem_toFinset] at ht
    by_cases hmem : t ∈ required
    · exact Finset.mem_union_left _ hmem
    · exact Finset.mem_union_right _ (fill_full hless ht (selectable_iff.2 hmem))
  have hnodup : ((List.range vocab_size.toNat).map fun t : Nat => (t : Int)).Nodup :=
    List.nodup_range.map fun _ _ h => Int.ofNat_inj.1 h
  have hcard := Finset.card_le_card hall
  rw [List.toFinset_card_of_nodup hnodup, List.length_map, List.length_range] at hcard
  have hunion := Finset.card_union_le required
    (untrimmed setOrder tokenizer dataset vocab_size target required)
  omega

/-- With room for it the core vocabulary is selected and nothing is trimmed. -/
theorem coreVocab_subset_trim
    (hroom : CoreHasRoom vocab_size target (coreVocab tokenizer dataset target required) required) :
    coreVocab tokenizer dataset target required ⊆
      trim target (untrimmed setOrder tokenizer dataset vocab_size target required) := by
  have hcore := @card_coreVocab_le tokenizer dataset target required
  set core := coreVocab tokenizer dataset target required
  have htolerance := @card_toleranceTokens_le vocab_size (toleranceBudget target) core required ∅
    (setOrder.order core) (by rw [Finset.card_empty]; omega)
  have hunion := Finset.card_union_le core
    (toleranceTokens vocab_size (toleranceBudget target) core required ∅ (setOrder.order core))
  have hstart : (core ∪ toleranceTokens vocab_size (toleranceBudget target) core required ∅
      (setOrder.order core)).card ≤ target := by
    unfold toleranceBudget at hcore htolerance hunion ⊢
    rcases hroom with hten | hless | hnone
    · omega
    · omega
    · have hempty : toleranceTokens vocab_size (target / 10) core required ∅
          (setOrder.order core) = ∅ := by
        apply Finset.eq_empty_of_forall_notMem
        intro t ht
        rcases mem_toleranceTokens ht with hmem | hadd
        · exact Finset.notMem_empty t hmem
        · obtain ⟨c, hc, hneighbour, haddable⟩ := hadd
          have hnot := hnone c (setOrder.mem_order.1 hc) t hneighbour
          rw [haddable] at hnot
          cases hnot
      rw [hempty, Finset.union_empty]
      omega
  have hcard : (untrimmed setOrder tokenizer dataset vocab_size target required).card ≤ target :=
    card_fill_le (card_fill_le (card_fill_le hstart))
  unfold trim
  rw [if_neg (Nat.not_lt.2 hcard)]
  exact Finset.subset_union_left.trans (subset_fill.trans (subset_fill.trans subset_fill))

/-- The heuristic selects as many ids as it is asked for. -/
theorem input_aware_filter_eq_ok (hvocab : get_vocab_size config = .ok vocab_size)
    (henough : required.card + target ≤ vocab_size.toNat) :
    input_aware_filter setOrder tokenizer config dataset target required =
      .ok (trim target (untrimmed setOrder tokenizer dataset vocab_size target required)) := by
  have hcard := @card_trim target _ (@le_card_untrimmed setOrder tokenizer dataset vocab_size target
    required henough)
  unfold input_aware_filter
  rw [hvocab]
  show (requireThat (target ≤ (trim target (untrimmed setOrder tokenizer dataset vocab_size target
    required)).card) _ >>= fun _ => _) = (Except.ok _ : Except String _)
  rw [requireThat_of (Nat.le_of_eq hcard.symm)]
  rfl

end InputAware

/-- The writes of the loop of `setLogitBiasVocabMap`. -/
def mapWrites (reducedTokenId : Nat) (ids : List Int) : List (Nat × Int) :=
  (ids.zipIdx reducedTokenId).map fun w => (w.1.toNat, (w.2 : Int))

section VocabMap

variable {fullVocabSize : Int} {ids : List Int}

theorem fillVocabMap_eq_ok (hinside : ∀ t ∈ ids, 0 ≤ t ∧ t < fullVocabSize) (k : Nat)
    (map : Buffer Int) : fillVocabMap fullVocabSize k ids map = .ok (map.store (mapWrites k ids)) := by
  induction ids generalizing k map with
  | nil => rfl
  | cons t rest ih =>
    unfold fillVocabMap
    rw [requireThat_of (hinside t List.mem_cons_self)]
    show fillVocabMap _ _ _ _ = _
    rw [ih (fun t' ht' => hinside t' (List.mem_cons_of_mem t ht')), Buffer.store_store]
    rfl

/-- The map sends every id of the list to its index and all others to −1. -/
structure Inverts (ids : List Int) (fullVocabSize : Int) (map : Buffer Int) : Prop where
  size : map.size = fullVocabSize.toNat
  index : ∀ i (hi : i < ids.length), map.cell (ids[i]).toNat = i
  other : ∀ t, 0 ≤ t → t < fullVocabSize → t ∉ ids → map.cell t.toNat = -1

/-- The map is the inverse of the list. -/
theorem setLogitBiasVocabMap_eq_ok (hinside : ∀ t ∈ ids, 0 ≤ t ∧ t < fullVocabSize)
    (hnodup : ids.Nodup) (hnonempty : ids ≠ []) :
    ∃ map, setLogitBiasVocabMap ids fullVocabSize ids.length = .ok map ∧
      Inverts ids fullVocabSize map := by
  obtain ⟨first, hfirst⟩ := List.exists_mem_of_ne_nil ids hnonempty
  have hpositive : 0 < fullVocabSize := Int.lt_of_le_of_lt (hinside first hfirst).1
    (hinside first hfirst).2
  have hlength : (0 : Int) < ids.length := Int.ofNat_lt.2 (List.length_pos_iff.2 hnonempty)
  have hkeys : ((mapWrites 0 ids).map Prod.fst).Nodup := by
    have hmap : (mapWrites 0 ids).map Prod.fst = ids.map Int.toNat := by
      unfold mapWrites
      rw [List.map_map]
      conv =>
        rhs
        rw [← List.zipIdx_map_fst 0 ids, List.map_map]
      rfl
    rw [hmap]
    apply hnodup.map_on
    intro a ha b hb hab
    have hanonneg := (hinside a ha).1
    have hbnonneg := (hinside b hb).1
    omega
  refine ⟨(Buffer.assign fullVocabSize.toNat (-1)).store (mapWrites 0 ids), ?_, rfl, ?_, ?_⟩
  · unfold setLogitBiasVocabMap
    rw [requireThat_of hpositive, requireThat_of hlength, requireThat_of rfl]
    exact fillVocabMap_eq_ok hinside 0 _
  · intro i hi
    have hmem : ((ids[i]).toNat, (i : Int)) ∈ mapWrites 0 ids := by
      apply List.mem_map.2 ⟨(ids[i], i), _, rfl⟩
      rw [List.mk_mem_zipIdx_iff_getElem?]
      exact List.getElem?_eq_getElem hi
    exact @writeAll_of_nodup _ _ _ _ _ hkeys ((ids[i]).toNat, (i : Int)) hmem
  · intro t hnonneg _ hfresh
    apply writeAll_of_notMem
    intro w hw hkey
    obtain ⟨p, hp, rfl⟩ := List.mem_map.1 hw
    have hid : p.1 ∈ ids := List.fst_mem_of_mem_zipIdx hp
    have hpnonneg := (hinside p.1 hid).1
    dsimp only at hkey
    have heq : p.1 = t := by omega
    exact hfresh (heq ▸ hid)

end VocabMap

/-! ## `reduce_vocab_size` -/

/-- The required ids of a request: the special ones, the extra ones of the
vocabulary and those of the draft table. -/
def requiredTokens (tokenizer : Tokenizer) (config : Config) (d2t_tensor : Option (List Int))
    (extra_required_tokens : List Int) (vocab_size : Int) : Except String (Finset Int) := do
  let special ← get_special_tokens tokenizer config
  let draft ← d2t_tensor.elim (.ok ∅) fun d2t => extract_d2t_required_tokens d2t vocab_size
  pure (special ∪ (extra_required_tokens.filter (inVocab vocab_size)).toFinset ∪ draft)

/-- A strictly increasing list of ids of the vocabulary, of the requested size and
with the required ids. -/
structure IsReduction (vocab_size reduced_vocab_size : Int) (required : Finset Int)
    (ids : List Int) : Prop where
  increasing : ids.Pairwise (· < ·)
  length : (ids.length : Int) = reduced_vocab_size
  inside : ∀ t ∈ ids, 0 ≤ t ∧ t < vocab_size
  required : ∀ t ∈ required, t ∈ ids

/-- The ids beyond the required ones occur in the articles, and no other id occurs
more often. -/
def MostFrequent (tokenizer : Tokenizer) (dataset : List Sample) (required : Finset Int)
    (ids : List Int) : Prop :=
  ∀ a ∈ ids, a ∉ required → a ∈ articleTokens tokenizer dataset ∧
    ∀ b ∈ articleTokens tokenizer dataset, b ∉ ids →
      (articleTokens tokenizer dataset).count b ≤ (articleTokens tokenizer dataset).count a

section Reduce

variable {setOrder : SetOrder} {tokenizer : Tokenizer} {config : Config} {dataset : List Sample}
  {vocab_size reduced_vocab_size : Int} {d2t_tensor : Option (List Int)}
  {extra_required_tokens : List Int} {required additional : Finset Int} {method : String}

/-- A draft table below the size limit. -/
theorem d2tRequired_eq (hdraft : ∀ d2t ∈ d2t_tensor, (d2t.length : Int) < reduced_vocab_size) :
    d2tRequired d2t_tensor reduced_vocab_size vocab_size =
      d2t_tensor.elim (.ok ∅) fun d2t => extract_d2t_required_tokens d2t vocab_size := by
  unfold d2tRequired
  cases d2t_tensor with
  | none => rfl
  | some d2t =>
    show (requireThat _ _ >>= fun _ => _) = _
    rw [requireThat_of (hdraft d2t rfl)]
    rfl

/-- From a selection of the right size the list is made. -/
theorem reduce_vocab_size_eq_ok (hvocab : get_vocab_size config = .ok vocab_size)
    (hreduced : reduced_vocab_size < vocab_size)
    (hmethod : method = "frequency" ∨ method = "input_aware")
    (hrequired : requiredTokens tokenizer config d2t_tensor extra_required_tokens vocab_size =
      .ok required) (hdraft : ∀ d2t ∈ d2t_tensor, (d2t.length : Int) < reduced_vocab_size)
    (hcard : (required.card : Int) ≤ reduced_vocab_size)
    (hadditional : additionalTokens setOrder tokenizer config dataset method
      (reduced_vocab_size - required.card).toNat required = .ok additional)
    (htotal : ((required ∪ additional).card : Int) = reduced_vocab_size) :
    reduce_vocab_size setOrder tokenizer config dataset reduced_vocab_size d2t_tensor method
        extra_required_tokens = .ok ((required ∪ additional).sort (· ≤ ·)) := by
  have hremaining : 0 ≤ reduced_vocab_size - required.card := by omega
  unfold requiredTokens at hrequired
  rw [bind_eq_ok] at hrequired
  obtain ⟨special, hspecial, hrest⟩ := hrequired
  rw [bind_eq_ok] at hrest
  obtain ⟨draft, hdraftOk, hunion⟩ := hrest
  rw [← d2tRequired_eq hdraft] at hdraftOk
  cases hunion
  unfold reduce_vocab_size
  rw [hvocab]
  show (requireThat (reduced_vocab_size < vocab_size) _ >>= fun _ => _) =
    (Except.ok _ : Except String _)
  rw [requireThat_of hreduced]
  show (requireThat (method = "frequency" ∨ method = "input_aware") _ >>= fun _ => _) =
    (Except.ok _ : Except String _)
  rw [requireThat_of hmethod]
  show (get_special_tokens tokenizer config >>= fun _ => _) = (Except.ok _ : Except String _)
  rw [hspecial]
  show (d2tRequired d2t_tensor reduced_vocab_size vocab_size >>= fun _ => _) =
    (Except.ok _ : Except String _)
  rw [hdraftOk]
  show (requireThat _ _ >>= fun _ => _) = (Except.ok _ : Except String _)
  rw [requireThat_of hremaining]
  show (additionalTokens setOrder tokenizer config dataset method _ _ >>= fun _ => _) =
    (Except.ok _ : Except String _)
  rw [hadditional]
  show (requireThat _ _ >>= fun _ => _) = (Except.ok _ : Except String _)
  rw [requireThat_of htotal]
  rfl

theorem isReduction_sort (hinside : ∀ t ∈ required, inVocab vocab_size t = true)
    (hadditional : ∀ t ∈ additional, inVocab vocab_size t = true)
    (htotal : ((required ∪ additional).card : Int) = reduced_vocab_size) :
    IsReduction vocab_size reduced_vocab_size required ((required ∪ additional).sort (· ≤ ·)) where
  increasing := (Finset.sortedLT_sort _).pairwise
  length := by
    rw [Finset.length_sort]
    exact htotal
  inside := by
    intro t ht
    rcases Finset.mem_union.1 ((Finset.mem_sort _).1 ht) with hrequired | hmem
    · exact inVocab_iff.1 (hinside t hrequired)
    · exact inVocab_iff.1 (hadditional t hmem)
  required := by
    intro t ht
    exact (Finset.mem_sort _).2 (Finset.mem_union_left _ ht)

theorem required_nonempty (hrequired : requiredTokens tokenizer config d2t_tensor
    extra_required_tokens vocab_size = .ok required) : required.Nonempty := by
  unfold requiredTokens get_special_tokens at hrequired
  simp only [bind_eq_ok] at hrequired
  obtain ⟨special, ⟨eos, -, hspecial⟩, draft, -, hunion⟩ := hrequired
  cases hspecial
  cases hunion
  exact ⟨eos, Finset.mem_union_left _ (Finset.mem_union_left _ (Finset.mem_insert_self _ _))⟩

/-- A reduced vocabulary exists whenever there are enough ids, and its map at
runtime is the inverse of the list. -/
theorem reduce_vocab_size_reduces (setOrder : SetOrder)
    (hvocab : get_vocab_size config = .ok vocab_size) (hreduced : reduced_vocab_size < vocab_size)
    (hrequired : requiredTokens tokenizer config d2t_tensor extra_required_tokens vocab_size =
      .ok required)
    (hinside : ∀ t ∈ required, inVocab vocab_size t = true)
    (harticle : ∀ t ∈ articleTokens tokenizer dataset, inVocab vocab_size t = true)
    (hsummary : ∀ t ∈ summaryTokens tokenizer dataset, inVocab vocab_size t = true)
    (hcard : (required.card : Int) ≤ reduced_vocab_size)
    (hdraft : ∀ d2t ∈ d2t_tensor, (d2t.length : Int) < reduced_vocab_size)
    (hmethod : method = "frequency" ∨ method = "input_aware")
    (hfrequency : method = "frequency" →
      reduced_vocab_size - required.card ≤ (otherTokens tokenizer dataset required).card ∧
        ((required.card : Int) = reduced_vocab_size →
          otherTokens tokenizer dataset required = ∅)) :
    ∃ ids, reduce_vocab_size setOrder tokenizer config dataset reduced_vocab_size d2t_tensor method
        extra_required_tokens = .ok ids ∧
      IsReduction vocab_size reduced_vocab_size required ids ∧
      (method = "frequency" → MostFrequent tokenizer dataset required ids) ∧
      (method = "input_aware" →
        CoreHasRoom vocab_size (reduced_vocab_size - required.card).toNat
          (coreVocab tokenizer dataset (reduced_vocab_size - required.card).toNat required)
          required →
        ∀ t ∈ coreVocab tokenizer dataset (reduced_vocab_size - required.card).toNat required,
          t ∈ ids) ∧
      ∃ map, setLogitBiasVocabMap ids vocab_size reduced_vocab_size = .ok map ∧
        Inverts ids vocab_size map := by
  generalize htarget : (reduced_vocab_size - required.card).toNat = target
  have hsize : (required.card : Int) + target = reduced_vocab_size := by omega
  -- The map inverts any list of this kind.
  have hinverts {ids : List Int} (hids : IsReduction vocab_size reduced_vocab_size required ids) :
      ∃ map, setLogitBiasVocabMap ids vocab_size reduced_vocab_size = .ok map ∧
        Inverts ids vocab_size map := by
    obtain ⟨t, ht⟩ := required_nonempty hrequired
    rw [← hids.length]
    exact setLogitBiasVocabMap_eq_ok hids.inside (hids.increasing.imp fun h => Int.ne_of_lt h)
      (List.ne_nil_of_mem (hids.required t ht))
  by_cases hfreq : method = "frequency"
  · obtain ⟨henough, hzero⟩ := hfrequency hfreq
    have henough' : target ≤ (otherTokens tokenizer dataset required).card := by omega
    have hselected := input_frequency_filter_eq_ok henough' fun htargetZero => hzero (by omega)
    have hfresh : Disjoint required
        ((candidates tokenizer dataset required).take target).toFinset := by
      rw [Finset.disjoint_left]
      intro t ht hmem
      rw [List.mem_toFinset] at hmem
      exact (mem_candidates.1 (List.mem_of_mem_take hmem)).2 ht
    have htotal : ((required ∪
        ((candidates tokenizer dataset required).take target).toFinset).card : Int) =
          reduced_vocab_size := by
      rw [Finset.card_union_of_disjoint hfresh, card_take_candidates henough']
      omega
    have hids := @isReduction_sort vocab_size reduced_vocab_size required _ hinside
      (fun t ht => harticle t
        (mem_candidates.1 (List.mem_of_mem_take (List.mem_toFinset.1 ht))).1) htotal
    refine ⟨_, reduce_vocab_size_eq_ok hvocab hreduced hmethod hrequired hdraft hcard
      (by rw [additionalTokens, if_pos hfreq, htarget]; exact hselected) htotal, hids, fun _ => ?_, ?_,
      hinverts hids⟩
    · intro a ha hnot
      have hunion := Finset.mem_union.1 ((Finset.mem_sort _).1 ha)
      have htake := List.mem_toFinset.1 (hunion.resolve_left hnot)
      refine ⟨(mem_candidates.1 (List.mem_of_mem_take htake)).1, ?_⟩
      intro b hb hout
      rw [Finset.mem_sort, Finset.mem_union, not_or, List.mem_toFinset] at hout
      exact count_le_of_take htake (mem_candidates.2 ⟨hb, hout.1⟩) hout.2
    · intro haware
      rw [hfreq] at haware
      exact absurd haware (by decide)
  · have henough : required.card + target ≤ vocab_size.toNat := by omega
    have hselected := @input_aware_filter_eq_ok setOrder tokenizer config dataset vocab_size target
      required hvocab henough
    have hmem {t : Int} (ht : t ∈ trim target
        (untrimmed setOrder tokenizer dataset vocab_size target required)) :
        t ∉ required ∧ inVocab vocab_size t = true :=
      mem_untrimmed hsummary harticle (trim_subset ht)
    have hfresh : Disjoint required
        (trim target (untrimmed setOrder tokenizer dataset vocab_size target required)) :=
      Finset.disjoint_left.2 fun t ht hselect => (hmem hselect).1 ht
    have htotal : ((required ∪
        trim target (untrimmed setOrder tokenizer dataset vocab_size target required)).card :
          Int) = reduced_vocab_size := by
      rw [Finset.card_union_of_disjoint hfresh, card_trim (le_card_untrimmed henough)]
      omega
    have hids := @isReduction_sort vocab_size reduced_vocab_size required _ hinside
      (fun t ht => (hmem ht).2) htotal
    refine ⟨_, reduce_vocab_size_eq_ok hvocab hreduced hmethod hrequired hdraft hcard
      (by rw [additionalTokens, if_neg hfreq, htarget]; exact hselected) htotal, hids, fun h => absurd h hfreq, ?_,
      hinverts hids⟩
    intro _ hroom t ht
    exact (Finset.mem_sort _).2 (Finset.mem_union_right _ (coreVocab_subset_trim hroom ht))

end Reduce

/-! ## A small vocabulary -/

/-- A tokenizer of letters: `a` is token 1. -/
def letterTokenizer : Tokenizer where
  eos_token_id := some 0
  bos_token_id := none
  pad_token_id := none
  unk_token_id := none
  encode := fun text => text.toList.map fun c => (c.toNat : Int) - 96

/-- A config with a vocabulary of six tokens. -/
def letterConfig : Config := ⟨some 6, none, .id 0⟩

def sortedOrder : SetOrder where
  order := fun s => s.sort (· ≤ ·)
  mem_order := Finset.mem_sort _

/-- Two of the three letters of the article are kept beside the end of text. -/
theorem reduce_vocab_size_letters :
    ∃ ids, reduce_vocab_size sortedOrder letterTokenizer letterConfig [⟨"aabbc", "ab"⟩] 3 none
        "frequency" [] = .ok ids ∧ IsReduction 6 3 {0} ids ∧
      MostFrequent letterTokenizer [⟨"aabbc", "ab"⟩] {0} ids := by
  obtain ⟨ids, hids, hreduction, hfrequent, -⟩ :=
    @reduce_vocab_size_reduces letterTokenizer letterConfig [⟨"aabbc", "ab"⟩] 6 3 none [] {0}
      "frequency" sortedOrder rfl (by decide) rfl (by decide) (by decide) (by decide) (by decide)
      (fun _ h => by cases h) (.inl rfl) fun _ => ⟨by decide, by decide⟩
  exact ⟨ids, hids, hreduction, hfrequent rfl⟩

/-- A draft table of as many ids as the reduced vocabulary has is refused, though the
required ids are no more than those. -/
theorem reduce_vocab_size_refuses_draft :
    requiredTokens letterTokenizer letterConfig (some [0, 1]) [] 6 = .ok {0, 1} ∧
      (∀ t ∈ ({0, 1} : Finset Int), inVocab 6 t = true) ∧
      ((({0, 1} : Finset Int).card : Int) ≤ 2 ∧ (2 : Int) < 6) ∧
      (2 : Int) - ({0, 1} : Finset Int).card ≤ (otherTokens letterTokenizer [] {0, 1}).card ∧
      (¬∃ ids, reduce_vocab_size sortedOrder letterTokenizer letterConfig [] 2 (some [0, 1])
        "frequency" [] = .ok ids) ∧
      ¬∃ ids, reduce_vocab_size sortedOrder letterTokenizer letterConfig [] 2 (some [0, 1])
        "input_aware" [] = .ok ids := by
  refine ⟨rfl, by decide, by decide, by decide, ?_, ?_⟩
  · rintro ⟨ids, hids⟩
    have herror : reduce_vocab_size sortedOrder letterTokenizer letterConfig [] 2 (some [0, 1])
        "frequency" [] = .error "reduced_vocab_size must be greater than d2t_tensor size" := rfl
    rw [herror] at hids
    cases hids
  · rintro ⟨ids, hids⟩
    have herror : reduce_vocab_size sortedOrder letterTokenizer letterConfig [] 2 (some [0, 1])
        "input_aware" [] = .error "reduced_vocab_size must be greater than d2t_tensor size" := rfl
    rw [herror] at hids
    cases hids

end EdgeLLM.Ports.VocabReduction
