import EdgeLLM.Verified.Writes

/-!
# The activation permutation of a GPTQ checkpoint

With activation order the group of an input channel is given by `g_idx`, and
the channels are gathered group by group.  The runtime has one block of
threads per group find the channels of its group, 256 at a time, and write
each at its rank; the exporter concatenates the positions of each group.
-/

namespace EdgeLLM.Ports.Int4

open Verified

/-- One round of a block: the shared match count and the permutation. -/
def permutationRound (groupIndex : Nat → Nat) (K groupSize group : Nat)
    (state : Nat × (Nat → Nat)) (base : Nat) : Nat × (Nat → Nat) :=
  let groupMatches := state.1
  let matched thread := decide (base + thread < K ∧ groupIndex (base + thread) = group)
  -- the lanes set in the ballot of a warp
  let mask warp := (List.range 32).filter fun lane => matched (warp * 32 + lane)
  let warpMatches warp := (mask warp).length
  let writes := (List.range 256).filterMap fun thread =>
    let lane := thread % 32
    let warp := thread / 32
    let source := base + thread
    let priorMatches := (List.range warp).foldl (fun sum prior => sum + warpMatches prior)
      groupMatches
    let destination := priorMatches + ((mask warp).filter fun lower => lower < lane).length
    if matched thread ∧ destination < groupSize then
      some (group * groupSize + destination, source)
    else none
  ((List.range 8).foldl (fun sum current => sum + warpMatches current) groupMatches,
    writeAll writes state.2)

/-- A block per group; the rounds start at the multiples of 256 below `K`. -/
def gptqActivationPermutationKernel (groupIndex : Nat → Nat) (K numGroups groupSize : Nat)
    (permutation : Nat → Nat) : Nat → Nat :=
  (List.range numGroups).foldl (fun permutation group =>
    (((List.range ((K + 255) / 256)).map (· * 256)).foldl
      (permutationRound groupIndex K groupSize group) (0, permutation)).2) permutation

/-- The concatenated positions of each group, `permute_idx`. -/
def permuteIdx (groupIndex : Nat → Nat) (K groupNum : Nat) : List Nat :=
  (List.range groupNum).flatMap fun i => (List.range K).filter fun k => groupIndex k = i

/-! ## Ranks -/

section Ranks

variable {p : Nat → Bool} {K : Nat}

/-- How many channels below `m` match. -/
def matchesBelow (p : Nat → Bool) (m : Nat) : Nat := (List.range m).countP p

theorem matchesBelow_add (m n : Nat) :
    matchesBelow p (m + n) = matchesBelow p m + (List.range n).countP fun i => p (m + i) := by
  unfold matchesBelow
  rw [List.range_add, List.countP_append, List.countP_map]
  rfl

theorem matchesBelow_succ (m : Nat) :
    matchesBelow p (m + 1) = matchesBelow p m + if p m then 1 else 0 := by
  unfold matchesBelow
  rw [List.range_succ, List.countP_append, List.countP_singleton]

theorem matchesBelow_mono {m n : Nat} (h : m ≤ n) : matchesBelow p m ≤ matchesBelow p n := by
  obtain ⟨d, rfl⟩ := Nat.exists_eq_add_of_le h
  rw [matchesBelow_add]
  exact Nat.le_add_right _ _

theorem eq_of_matchesBelow_eq {m n : Nat} (hm : p m) (hn : p n)
    (h : matchesBelow p m = matchesBelow p n) : m = n := by
  have hlt : ∀ {a b}, p a → a < b → matchesBelow p a < matchesBelow p b := by
    intro a b ha hab
    have hsucc := matchesBelow_succ (p := p) a
    rw [if_pos ha] at hsucc
    have hmono := matchesBelow_mono (p := p) (Nat.succ_le_of_lt hab)
    rw [Nat.succ_eq_add_one] at hmono
    omega
  rcases Nat.lt_trichotomy m n with hmn | hmn | hmn
  · have := hlt hm hmn
    omega
  · exact hmn
  · have := hlt hn hmn
    omega

/-- The matching channel at a position of their list has that position as rank. -/
theorem matchesBelow_filter_getElem {r k : Nat} (h : ((List.range K).filter p)[r]? = some k) :
    k < K ∧ p k ∧ matchesBelow p k = r := by
  induction K with
  | zero => simp at h
  | succ K ih =>
    rw [List.range_succ, List.filter_append] at h
    rcases Nat.lt_or_ge r ((List.range K).filter p).length with hr | hr
    · rw [List.getElem?_append_left hr] at h
      obtain ⟨hk, hrest⟩ := ih h
      exact ⟨by omega, hrest⟩
    · rw [List.getElem?_append_right hr] at h
      by_cases hp : p K
      · have hlast : ([K].filter p) = [K] := by simp [hp]
        rw [hlast] at h
        obtain ⟨hlt, hget⟩ := List.getElem?_eq_some_iff.1 h
        rw [List.length_singleton] at hlt
        have hr' : r - ((List.range K).filter p).length = 0 := by omega
        simp only [hr', List.getElem_cons_zero] at hget
        subst hget
        refine ⟨Nat.lt_succ_self K, hp, ?_⟩
        rw [matchesBelow, List.countP_eq_length_filter]
        omega
      · have hnone : ([K].filter p) = [] := by simp [hp]
        rw [hnone] at h
        cases h

end Ranks

/-! ## What the kernel writes -/

section Kernel

variable {groupIndex : Nat → Nat} {K groupSize group base : Nat} {permutation : Nat → Nat}

/-- The channel belongs to the group. -/
def inGroup (groupIndex : Nat → Nat) (K group k : Nat) : Bool :=
  decide (k < K ∧ groupIndex k = group)

/-- The writes for `n` channels from `base`: each channel of the group at its rank. -/
def groupWrites (groupIndex : Nat → Nat) (K groupSize group base n : Nat) : List (Nat × Nat) :=
  (List.range n).filterMap fun i =>
    let k := base + i
    let rank := matchesBelow (inGroup groupIndex K group) k
    if inGroup groupIndex K group k ∧ rank < groupSize then some (group * groupSize + rank, k)
    else none

theorem groupWrites_add (m n : Nat) : groupWrites groupIndex K groupSize group base (m + n) =
      groupWrites groupIndex K groupSize group base m ++
        groupWrites groupIndex K groupSize group (base + m) n := by
  unfold groupWrites
  rw [List.range_add, List.filterMap_append, List.filterMap_map]
  simp only [Function.comp_def, Nat.add_assoc]

/-- The population counts of the first warps, added up. -/
theorem foldl_warps {p : Nat → Bool} (w : Nat) : (List.range w).foldl (fun sum prior =>
      sum + ((List.range 32).filter fun lane => p (base + (prior * 32 + lane))).length)
      (matchesBelow p base) = matchesBelow p (base + w * 32) := by
  induction w with
  | zero => simp
  | succ w ih =>
    rw [List.range_succ (n := w), List.foldl_append, ih, Nat.add_mul, Nat.one_mul,
      ← Nat.add_assoc, matchesBelow_add (base + w * 32), List.countP_eq_length_filter]
    simp only [List.foldl_cons, List.foldl_nil, Nat.add_assoc]

theorem lower_lanes {p : Nat → Bool} {lane : Nat} (h : lane ≤ 32) :
    (((List.range 32).filter p).filter fun lower => lower < lane).length =
      (List.range lane).countP p := by
  rw [List.filter_filter, ← List.countP_eq_length_filter,
    show 32 = lane + (32 - lane) by omega, List.range_add, List.countP_append]
  have hlow : (List.range lane).countP (fun a => decide (a < lane) && p a) =
      (List.range lane).countP p := by
    apply List.countP_congr
    intro a ha
    simp [List.mem_range.1 ha]
  have hhigh : ((List.range (32 - lane)).map (lane + ·)).countP
      (fun a => decide (a < lane) && p a) = 0 := by
    apply List.countP_eq_zero.2
    intro a ha
    obtain ⟨i, -, rfl⟩ := List.mem_map.1 ha
    have hnot : ¬lane + i < lane := by omega
    simp [hnot]
  rw [hlow, hhigh, Nat.add_zero]

/-- A round from the matches below its base writes the ranks of its channels. -/
theorem permutationRound_eq : permutationRound groupIndex K groupSize group
        (matchesBelow (inGroup groupIndex K group) base, permutation) base =
      (matchesBelow (inGroup groupIndex K group) (base + 256),
        writeAll (groupWrites groupIndex K groupSize group base 256) permutation) := by
  set p := inGroup groupIndex K group with hp
  unfold permutationRound
  apply Prod.ext
  · exact foldl_warps (p := p) 8
  · change writeAll _ permutation = writeAll _ permutation
    congr 1
    apply List.filterMap_congr
    intro thread hthread
    have hlane : thread % 32 ≤ 32 := by omega
    have hrank : (List.range (thread / 32)).foldl (fun sum prior =>
        sum + ((List.range 32).filter fun lane => p (base + (prior * 32 + lane))).length)
        (matchesBelow p base) + (((List.range 32).filter fun lane =>
          p (base + (thread / 32 * 32 + lane))).filter fun lower => lower < thread % 32).length =
        matchesBelow p (base + thread) := by
      have hsplit : base + thread = base + thread / 32 * 32 + thread % 32 := by omega
      rw [foldl_warps, lower_lanes hlane, hsplit, matchesBelow_add (base + thread / 32 * 32)]
      simp only [Nat.add_assoc]
    have hwrite : ∀ destination, destination = matchesBelow p (base + thread) →
        (if p (base + thread) ∧ destination < groupSize then
          some (group * groupSize + destination, base + thread) else none) =
        if p (base + thread) ∧ matchesBelow p (base + thread) < groupSize then
          some (group * groupSize + matchesBelow p (base + thread), base + thread) else none := by
      rintro _ rfl
      rfl
    exact hwrite _ hrank

theorem rounds_eq (rounds : Nat) :
    ((List.range rounds).map (· * 256)).foldl (permutationRound groupIndex K groupSize group)
        (0, permutation) = (matchesBelow (inGroup groupIndex K group) (rounds * 256),
        writeAll (groupWrites groupIndex K groupSize group 0 (rounds * 256)) permutation) := by
  induction rounds with
  | zero => rfl
  | succ rounds ih =>
    rw [List.range_succ, List.map_append, List.foldl_append, ih, List.map_singleton,
      List.foldl_cons, List.foldl_nil, permutationRound_eq, Nat.add_mul, Nat.one_mul,
      groupWrites_add, writeAll_append, Nat.zero_add]

/-- The kernel writes each channel at its rank in its group. -/
theorem kernel_eq_writes (numGroups : Nat) :
    gptqActivationPermutationKernel groupIndex K numGroups groupSize permutation =
      writeAll ((List.range numGroups).flatMap fun group =>
        groupWrites groupIndex K groupSize group 0 ((K + 255) / 256 * 256)) permutation := by
  unfold gptqActivationPermutationKernel
  induction numGroups with
  | zero => rfl
  | succ numGroups ih =>
    rw [List.range_succ, List.foldl_append, ih, List.flatMap_append, writeAll_append,
      List.foldl_cons, List.foldl_nil, rounds_eq, List.flatMap_singleton]

end Kernel

/-! ## Groups of one size -/

/-- An element of a concatenation of lists of one length. -/
theorem flatMap_getElem? {α : Type} {f : Nat → List α} {m n i r : Nat}
    (hf : ∀ i < n, (f i).length = m) (hi : i < n) (hr : r < m) :
    ((List.range n).flatMap f)[i * m + r]? = (f i)[r]? := by
  have hlength : ∀ n' ≤ n, ((List.range n').flatMap f).length = n' * m := by
    intro n'
    induction n' with
    | zero => simp
    | succ n' ih =>
      intro hle
      rw [List.range_succ, List.flatMap_append, List.length_append, ih (by omega),
        List.flatMap_singleton, hf n' (by omega), Nat.add_mul, Nat.one_mul]
  induction n with
  | zero => omega
  | succ n ih =>
    rw [List.range_succ, List.flatMap_append, List.flatMap_singleton]
    rcases Nat.lt_or_ge i n with hlt | hge
    · have hle : (i + 1) * m ≤ n * m := Nat.mul_le_mul_right m hlt
      rw [Nat.add_mul] at hle
      rw [List.getElem?_append_left (by rw [hlength n (by omega)]; omega)]
      exact ih (fun i hi => hf i (by omega)) hlt fun n' hn' => hlength n' (by omega)
    · obtain rfl : i = n := by omega
      rw [List.getElem?_append_right (by rw [hlength i (by omega)]; omega),
        hlength i (by omega), Nat.add_sub_cancel_left]

/-- Every group of channels has the same size. -/
structure EqualGroups (groupIndex : Nat → Nat) (K numGroups groupSize : Nat) : Prop where
  total : numGroups * groupSize = K
  bound : ∀ k < K, groupIndex k < numGroups
  size : ∀ group < numGroups,
    ((List.range K).filter fun k => groupIndex k = group).length = groupSize

section Groups

variable {groupIndex : Nat → Nat} {K numGroups groupSize j : Nat} {permutation : Nat → Nat}

/-- The exporter's permutation holds each channel once. -/
theorem permuteIdx_perm (hbound : ∀ k < K, groupIndex k < numGroups) :
    (permuteIdx groupIndex K numGroups).Perm (List.range K) := by
  apply (List.perm_ext_iff_of_nodup ?_ List.nodup_range).2
  · intro k
    unfold permuteIdx
    rw [List.mem_flatMap, List.mem_range]
    constructor
    · rintro ⟨i, -, hk⟩
      exact List.mem_range.1 (List.mem_filter.1 hk).1
    · intro hk
      exact ⟨groupIndex k, List.mem_range.2 (hbound k hk),
        List.mem_filter.2 ⟨List.mem_range.2 hk, by simp⟩⟩
  · unfold permuteIdx
    apply List.nodup_flatMap.2
    refine ⟨fun i _ => List.nodup_range.filter _, List.nodup_range.imp fun hne => ?_⟩
    intro k hk hk'
    have hi := (List.mem_filter.1 hk).2
    have hj := (List.mem_filter.1 hk').2
    exact hne ((of_decide_eq_true hi).symm.trans (of_decide_eq_true hj))

/-- The exporter's permutation orders the channels by group, and within a
group by index. -/
theorem permuteIdx_stable : (permuteIdx groupIndex K numGroups).Pairwise fun a b =>
    groupIndex a < groupIndex b ∨ groupIndex a = groupIndex b ∧ a < b := by
  unfold permuteIdx
  rw [List.pairwise_flatMap]
  constructor
  · intro i _
    have hsorted : ((List.range K).filter fun k => groupIndex k = i).Pairwise (· < ·) :=
      List.pairwise_lt_range.filter _
    apply hsorted.imp_of_mem
    intro a b ha hb hab
    have ha' := of_decide_eq_true (List.mem_filter.1 ha).2
    have hb' := of_decide_eq_true (List.mem_filter.1 hb).2
    exact Or.inr ⟨ha'.trans hb'.symm, hab⟩
  · apply List.pairwise_lt_range.imp
    intro i i' hlt a ha b hb
    have ha' := of_decide_eq_true (List.mem_filter.1 ha).2
    have hb' := of_decide_eq_true (List.mem_filter.1 hb).2
    exact Or.inl (by omega)

theorem EqualGroups.pos (h : EqualGroups groupIndex K numGroups groupSize) (hj : j < K) :
    0 < groupSize := by
  have := h.total
  rcases Nat.eq_zero_or_pos groupSize with hzero | hpos
  · rw [hzero, Nat.mul_zero] at this
    omega
  · exact hpos

/-- The channel at a position of the exporter's permutation is the one of that
rank in the position's group. -/
theorem EqualGroups.getElem? (h : EqualGroups groupIndex K numGroups groupSize) (hj : j < K) :
    (permuteIdx groupIndex K numGroups)[j]? =
      ((List.range K).filter fun k => groupIndex k = j / groupSize)[j % groupSize]? := by
  have hgroup : j / groupSize < numGroups :=
    Nat.div_lt_of_lt_mul (by rw [Nat.mul_comm, h.total]; exact hj)
  have hsplit : j = j / groupSize * groupSize + j % groupSize := by
    rw [Nat.mul_comm]
    exact (Nat.div_add_mod j groupSize).symm
  conv_lhs => rw [hsplit]
  exact flatMap_getElem? h.size hgroup (Nat.mod_lt j (h.pos hj))

/-- Each position of the exporter's permutation holds a channel of its group. -/
theorem EqualGroups.exists_getElem? (h : EqualGroups groupIndex K numGroups groupSize)
    (hj : j < K) : ∃ k, (permuteIdx groupIndex K numGroups)[j]? = some k ∧ k < K ∧
      groupIndex k = j / groupSize ∧
      matchesBelow (inGroup groupIndex K (j / groupSize)) k = j % groupSize := by
  have hgroup : j / groupSize < numGroups :=
    Nat.div_lt_of_lt_mul (by rw [Nat.mul_comm, h.total]; exact hj)
  have hsame : (List.range K).filter (fun k => groupIndex k = j / groupSize) =
      (List.range K).filter (inGroup groupIndex K (j / groupSize)) := by
    apply List.filter_congr
    intro k hk
    simp [inGroup, List.mem_range.1 hk]
  have hrank : j % groupSize <
      ((List.range K).filter (inGroup groupIndex K (j / groupSize))).length := by
    rw [← hsame, h.size _ hgroup]
    exact Nat.mod_lt j (h.pos hj)
  have hfound := List.getElem?_eq_getElem hrank
  obtain ⟨hk, hin, hmatches⟩ := matchesBelow_filter_getElem hfound
  refine ⟨_, ?_, hk, (of_decide_eq_true hin).2, hmatches⟩
  rw [h.getElem? hj, hsame, hfound]

/-- The kernel's permutation is the exporter's. -/
theorem EqualGroups.kernel_getElem? (h : EqualGroups groupIndex K numGroups groupSize)
    (hj : j < K) : (permuteIdx groupIndex K numGroups)[j]? =
      some (gptqActivationPermutationKernel groupIndex K numGroups groupSize permutation j) := by
  have hgroup : j / groupSize < numGroups :=
    Nat.div_lt_of_lt_mul (by rw [Nat.mul_comm, h.total]; exact hj)
  obtain ⟨k, hk, hlt, hin, hrank⟩ := h.exists_getElem? hj
  rw [hk, kernel_eq_writes]
  congr 1
  symm
  apply writeAll_of_mem
  · refine ⟨(j, k), List.mem_flatMap.2 ⟨j / groupSize, List.mem_range.2 hgroup, ?_⟩, rfl⟩
    refine List.mem_filterMap.2 ⟨k, List.mem_range.2 (by omega), ?_⟩
    have hmatch : inGroup groupIndex K (j / groupSize) k := decide_eq_true ⟨hlt, hin⟩
    have hsplit : j / groupSize * groupSize + j % groupSize = j := by
      rw [Nat.mul_comm]
      exact Nat.div_add_mod j groupSize
    simp only [Nat.zero_add, hrank, hmatch, hsplit, Nat.mod_lt j (h.pos hj), and_self, if_true]
  · intro w hw hkey
    obtain ⟨group, hg, hw⟩ := List.mem_flatMap.1 hw
    obtain ⟨i, -, hi⟩ := List.mem_filterMap.1 hw
    simp only [Nat.zero_add] at hi
    split at hi
    · rename_i hwrite
      obtain rfl := Option.some.inj hi
      -- the address gives the group and the rank back
      have hkey' : group * groupSize + matchesBelow (inGroup groupIndex K group) i = j := hkey
      have hdiv : j / groupSize = group := by
        rw [← hkey', Nat.mul_comm, Nat.mul_add_div (h.pos hj), Nat.div_eq_of_lt hwrite.2,
          Nat.add_zero]
      have hmod : j % groupSize = matchesBelow (inGroup groupIndex K group) i := by
        rw [← hkey', Nat.mul_comm, Nat.mul_add_mod, Nat.mod_eq_of_lt hwrite.2]
      rw [hdiv, hmod] at hrank
      exact eq_of_matchesBelow_eq hwrite.1 (decide_eq_true ⟨hlt, hin.trans hdiv⟩) hrank.symm
    · cases hi

theorem EqualGroups.sequential (h : EqualGroups groupIndex K numGroups groupSize)
    (hseq : ∀ k < K, groupIndex k = k / groupSize) :
    permuteIdx groupIndex K numGroups = List.range K := by
  have hperm := permuteIdx_perm h.bound
  have hsorted : (permuteIdx groupIndex K numGroups).Pairwise (· < ·) := by
    apply permuteIdx_stable.imp_of_mem
    intro a b ha hb hab
    have ha' := List.mem_range.1 (hperm.mem_iff.1 ha)
    have hb' := List.mem_range.1 (hperm.mem_iff.1 hb)
    rw [hseq a ha', hseq b hb'] at hab
    rcases hab with hlt | ⟨-, hlt⟩
    · exact Nat.lt_of_div_lt_div hlt
    · exact hlt
  exact hperm.eq_of_pairwise (fun a b _ _ hab hba => absurd hab (Nat.lt_asymm hba)) hsorted
    List.pairwise_lt_range

end Groups

end EdgeLLM.Ports.Int4
