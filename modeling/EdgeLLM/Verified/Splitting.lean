import EdgeLLM.Verified.WordSearch

/-!
# Splitting a text that comes in chunks

`partition marker text` cuts a text at the first occurrence of a marker. A
splitter that must decide before the whole text has come gives out a part `e`
of what it holds once no occurrence of the marker can start in it any more
(`Settled`), and keeps the rest.
-/

namespace EdgeLLM.Verified.Splitting

open Verified

variable {α : Type*}

section Cuts

variable [DecidableEq α]

omit [DecidableEq α] in
theorem prefix_drop_left (a marker b : List α) : marker <+: (a ++ (marker ++ b)).drop a.length := by
  rw [List.drop_left]
  exact List.prefix_append _ _

omit [DecidableEq α] in
/-- The text behind does not matter where a marker does not reach it. -/
theorem prefix_drop_of_append {marker a b : List α} {j : Nat} (h : marker <+: (a ++ b).drop j)
    (hin : j + marker.length ≤ a.length) : marker <+: a.drop j := by
  rw [List.drop_append_of_le_length (by omega)] at h
  apply List.prefix_of_prefix_length_le h (List.prefix_append _ _)
  rw [List.length_drop]
  omega

/-- The text before the first occurrence of `marker` and the text behind it. -/
def partition (marker text : List α) : Option (List α × List α) :=
  (find marker text).map fun k => (text.take k, text.drop (k + marker.length))

theorem partition_eq_some {marker text a b : List α} : partition marker text = some (a, b) ↔
      text = a ++ (marker ++ b) ∧ ∀ j < a.length, ¬ marker <+: text.drop j := by
  rw [partition, Option.map_eq_some_iff]
  constructor
  · intro h
    obtain ⟨k, hk, hab⟩ := h
    obtain ⟨hle, hpre, hfirst⟩ := find_eq_some.1 hk
    obtain ⟨rfl, rfl⟩ := Prod.mk.inj hab
    have hlen : (text.take k).length = k := List.length_take_of_le hle
    refine ⟨?_, by rwa [hlen]⟩
    obtain ⟨r, hr⟩ := hpre
    have hdrop : text.drop (k + marker.length) = r := by
      rw [← List.drop_drop, ← hr, List.drop_left]
    rw [hdrop, hr, List.take_append_drop]
  · intro h
    obtain ⟨htext, hfirst⟩ := h
    have hk : find marker text = some a.length := by
      rw [find_eq_some]
      refine ⟨?_, ?_, hfirst⟩
      · rw [htext, List.length_append]
        omega
      · rw [htext]
        exact prefix_drop_left a marker b
    refine ⟨a.length, hk, ?_⟩
    rw [htext, List.take_left, ← List.drop_drop, List.drop_left, List.drop_left]

omit [DecidableEq α] in
theorem infix_iff_exists_drop {marker text : List α} :
    marker <:+: text ↔ ∃ k, marker <+: text.drop k := by
  constructor
  · intro h
    obtain ⟨a, b, rfl⟩ := h
    refine ⟨a.length, b, ?_⟩
    rw [List.append_assoc, List.drop_left]
  · intro h
    obtain ⟨k, hk⟩ := h
    exact hk.isInfix.trans (List.drop_suffix k text).isInfix

theorem partition_eq_none {marker text : List α} (hmarker : marker ≠ []) :
    partition marker text = none ↔ ¬ marker <:+: text := by
  rw [partition, Option.map_eq_none_iff, find_eq_none hmarker, infix_iff_exists_drop]
  simp

theorem partition_of_begins (marker b : List α) : partition marker (marker ++ b) = some ([], b) :=
  partition_eq_some.2 ⟨rfl, fun j hj => absurd hj (Nat.not_lt_zero j)⟩

/-- More text behind a cut stays behind it. -/
theorem partition_append_of_some {marker text a b : List α}
    (h : partition marker text = some (a, b)) (more : List α) :
    partition marker (text ++ more) = some (a, b ++ more) := by
  obtain ⟨rfl, hfirst⟩ := partition_eq_some.1 h
  rw [partition_eq_some]
  refine ⟨by simp, ?_⟩
  intro j hj hpre
  exact hfirst j hj (prefix_drop_of_append hpre (by simp; omega))

theorem partition_length {marker text a b : List α} (h : partition marker text = some (a, b)) :
    a.length + marker.length + b.length = text.length := by
  rw [(partition_eq_some.1 h).1]
  simp
  omega

/-- No occurrence of `marker` starts in `e`, whatever comes behind `e ++ k`. -/
def Settled (marker e k : List α) : Prop :=
  ∀ u, ∀ j < e.length, ¬ marker <+: (e ++ (k ++ u)).drop j

omit [DecidableEq α] in
omit [DecidableEq α] in
/-- Keeping all but one symbol of a marker settles the rest. -/
theorem Settled.of_length {marker e k : List α} (hno : ¬ marker <:+: e ++ k)
    (hk : marker.length ≤ k.length + 1) : Settled marker e k := by
  intro u j hj hpre
  apply hno
  rw [infix_iff_exists_drop]
  rw [← List.append_assoc] at hpre
  exact ⟨j, prefix_drop_of_append hpre (by simp; omega)⟩

/-- Giving out a settled part does not move the cut. -/
theorem Settled.partition_append {marker e k : List α} (h : Settled marker e k)
    (hmarker : marker ≠ []) (u : List α) : partition marker (e ++ (k ++ u)) =
      (partition marker (k ++ u)).map fun p => (e ++ p.1, p.2) := by
  cases hcut : partition marker (k ++ u) with
  | none =>
    rw [Option.map_none, partition_eq_none hmarker, infix_iff_exists_drop]
    intro hex
    obtain ⟨j, hj⟩ := hex
    by_cases hlt : j < e.length
    · exact h u j hlt hj
    · apply (partition_eq_none hmarker).1 hcut
      rw [infix_iff_exists_drop]
      refine ⟨j - e.length, ?_⟩
      rwa [List.drop_append, List.drop_eq_nil_of_le (Nat.le_of_not_lt hlt), List.nil_append] at hj
  | some p =>
    obtain ⟨a, b⟩ := p
    obtain ⟨hku, hfirst⟩ := partition_eq_some.1 hcut
    rw [Option.map_some, partition_eq_some]
    refine ⟨by rw [hku, List.append_assoc], ?_⟩
    intro j hj hpre
    by_cases hlt : j < e.length
    · exact h u j hlt hpre
    · rw [List.drop_append, List.drop_eq_nil_of_le (Nat.le_of_not_lt hlt), List.nil_append] at hpre
      apply hfirst (j - e.length) _ hpre
      have hlt' : j < e.length + a.length := by simpa using hj
      omega

/-- The largest `size` with `best < size ≤ high` that passes, and `best` if none
does. -/
def scanDown (p : Nat → Bool) : Nat → Nat → Nat
  | 0, best => best
  | high + 1, best =>
    if high + 1 ≤ best then best
    else if p (high + 1) then high + 1
    else scanDown p high best

omit [DecidableEq α] in
theorem le_scanDown (p : Nat → Bool) (high best : Nat) : best ≤ scanDown p high best := by
  induction high with
  | zero => exact Nat.le_refl best
  | succ high ih =>
    rw [scanDown]
    split
    · exact Nat.le_refl best
    split
    · omega
    · exact ih

omit [DecidableEq α] in
theorem le_scanDown_of {p : Nat → Bool} {high best size : Nat} (hsize : size ≤ high)
    (hp : p size = true) : size ≤ scanDown p high best := by
  induction high with
  | zero =>
    rw [Nat.le_zero.1 hsize]
    exact Nat.zero_le _
  | succ high ih =>
    rw [scanDown]
    split
    · omega
    split
    · exact hsize
    · next hno =>
        apply ih
        have hne : size ≠ high + 1 := by
          intro heq
          rw [heq] at hp
          exact hno hp
        omega

omit [DecidableEq α] in
theorem scanDown_cases (p : Nat → Bool) (high best : Nat) : scanDown p high best = best ∨
      scanDown p high best ≤ high ∧ p (scanDown p high best) = true := by
  induction high with
  | zero => exact Or.inl rfl
  | succ high ih =>
    rw [scanDown]
    split
    · exact Or.inl rfl
    split
    · next hp => exact Or.inr ⟨Nat.le_refl _, hp⟩
    · cases ih with
      | inl h => exact Or.inl h
      | inr h => exact Or.inr ⟨Nat.le_succ_of_le h.1, h.2⟩

/-- The last `size` symbols of the text are a proper beginning of the marker. -/
def EndsWithin (marker text : List α) (size : Nat) : Prop :=
  size ≤ text.length ∧ size < marker.length ∧ marker.take size <:+ text

omit [DecidableEq α] in
/-- Keeping the longest beginning of the marker that the text ends with settles
the rest. -/
theorem Settled.of_partial {marker text : List α} {keep : Nat} (hno : ¬ marker <:+: text)
    (hkeep : ∀ size, EndsWithin marker text size → size ≤ keep) :
    Settled marker (text.take (text.length - keep)) (text.drop (text.length - keep)) := by
  intro u j hj hpre
  rw [← List.append_assoc, List.take_append_drop] at hpre
  have hlt : j < text.length - keep := by
    rw [List.length_take] at hj
    omega
  by_cases hin : j + marker.length ≤ text.length
  · apply hno
    rw [infix_iff_exists_drop]
    exact ⟨j, prefix_drop_of_append hpre hin⟩
  · -- the marker would start with the end of the text
    have hends : EndsWithin marker text (text.length - j) := by
      refine ⟨Nat.sub_le _ _, by omega, ?_⟩
      rw [List.drop_append_of_le_length (by omega)] at hpre
      have hlen : (text.drop j).length = text.length - j := List.length_drop
      have hbegin : text.drop j <+: marker := by
        apply List.prefix_of_prefix_length_le (List.prefix_append _ _) hpre
        omega
      rw [← hlen, List.prefix_iff_eq_take.1 hbegin |>.symm]
      exact List.drop_suffix j text
    have hle := hkeep _ hends
    omega

end Cuts

/-- The symbol `c` starts the word and does not come again in it. -/
def Headed (c : α) (word : List α) : Prop := ∃ tail, word = c :: tail ∧ c ∉ tail

theorem Headed.ne_nil {c : α} {word : List α} (h : Headed c word) : word ≠ [] := by
  obtain ⟨tail, rfl, -⟩ := h
  exact List.cons_ne_nil c tail

/-- Two such words do not overlap. -/
theorem Headed.apart {c : α} {v w text : List α} (hv : Headed c v) (hw : Headed c w) {i j : Nat}
    (hi : v <+: text.drop i) (hj : w <+: text.drop j) (hij : i < j) : i + v.length ≤ j := by
  obtain ⟨vtail, rfl, hvtail⟩ := hv
  obtain ⟨wtail, rfl, -⟩ := hw
  apply Nat.le_of_not_lt
  intro hlt
  apply hvtail
  have hhead : text[j]? = some c := by
    obtain ⟨r, hr⟩ := hj
    have hget := congrArg (·[0]?) hr
    simpa using hget.symm
  obtain ⟨r, hr⟩ := hi
  have hget := congrArg (·[j - i]?) hr
  simp only [List.getElem?_drop] at hget
  rw [Nat.add_sub_of_le (Nat.le_of_lt hij), hhead, List.getElem?_append_left (by omega)] at hget
  obtain ⟨n, hn⟩ := Nat.exists_eq_succ_of_ne_zero (Nat.sub_ne_zero_of_lt hij)
  rw [hn, Nat.succ_eq_add_one, List.getElem?_cons_succ] at hget
  exact List.mem_of_getElem? hget

section Chunks

variable {σ β γ φ : Type*}

/-- What is given out over the chunks, and at the end. -/
def run (feed : σ → List α → List β × σ) (flush : σ → List β) (s : σ) : List (List α) → List β
  | [] => flush s
  | chunk :: chunks => (feed s chunk).1 ++ run feed flush (feed s chunk).2 chunks

/-- Each call gives out a first part of what the text that is held and still to
come gives as a whole, field by field. -/
structure Online (feed : σ → List α → List β × σ) (flush : σ → List β)
    (out : List β → φ → List γ) (Inv : σ → Prop) (whole : σ → List α → φ → List γ) : Prop where
  out_append : ∀ xs ys f, out (xs ++ ys) f = out xs f ++ out ys f
  feed_inv : ∀ {s} c, Inv s → Inv (feed s c).2
  feed_whole : ∀ {s} c u f, Inv s →
    whole s (c ++ u) f = out (feed s c).1 f ++ whole (feed s c).2 u f
  flush_whole : ∀ {s} f, Inv s → out (flush s) f = whole s [] f

/-- The division into chunks does not matter. -/
theorem Online.run_eq {feed : σ → List α → List β × σ} {flush : σ → List β}
    {out : List β → φ → List γ} {Inv : σ → Prop} {whole : σ → List α → φ → List γ}
    (h : Online feed flush out Inv whole) (chunks : List (List α)) :
    ∀ {s : σ}, Inv s → ∀ f, out (run feed flush s chunks) f = whole s chunks.flatten f := by
  induction chunks with
  | nil => exact fun hs f => h.flush_whole f hs
  | cons chunk chunks ih =>
    intro s hs f
    rw [run, h.out_append, ih (h.feed_inv chunk hs), List.flatten_cons, h.feed_whole chunk _ f hs]

end Chunks

end EdgeLLM.Verified.Splitting
