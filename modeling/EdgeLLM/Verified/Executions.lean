import Mathlib.Algebra.BigOperators.Fin
import Mathlib.Algebra.Order.BigOperators.Group.Finset

/-!
# Executions of a partial step function

A concurrent system is a partial function: an action names who moves and what
the environment answers, `none` means that the move is not enabled.  An
execution is a list of actions, performed in order.
-/

namespace EdgeLLM.Verified

/-! ## Executions -/

section Execute

variable {σ α : Type*} {step : σ → α → Option σ} {s t : σ} {a : α} {as bs : List α}

/-- Perform the actions in order. -/
def execute (step : σ → α → Option σ) (s : σ) : List α → Option σ
  | [] => some s
  | a :: as => (step s a).bind fun t => execute step t as

@[simp] theorem execute_nil : execute step s [] = some s := rfl

theorem execute_cons : execute step s (a :: as) = (step s a).bind fun t => execute step t as := rfl

/-- An execution that takes one more action first. -/
theorem execute_cons_eq_some :
    execute step s (a :: as) = some t ↔ ∃ u, step s a = some u ∧ execute step u as = some t := by
  rw [execute_cons, Option.bind_eq_some_iff]

theorem execute_append : execute step s (as ++ bs) = (execute step s as).bind
    fun t => execute step t bs := by
  induction as generalizing s with
  | nil => rfl
  | cons a as ih =>
    rw [List.cons_append, execute_cons, execute_cons, Option.bind_assoc]
    apply congrArg
    funext u
    exact ih

/-- What every action preserves holds of every state reached. -/
theorem execute_invariant (allowed : α → Prop) (Inv : σ → Prop)
    (hstep : ∀ s a t, allowed a → Inv s → step s a = some t → Inv t)
    (hallowed : ∀ a ∈ as, allowed a) (hs : Inv s) (h : execute step s as = some t) : Inv t := by
  induction as generalizing s with
  | nil =>
    rw [execute_nil] at h
    exact Option.some.inj h ▸ hs
  | cons a as ih =>
    obtain ⟨u, hu, hrest⟩ := execute_cons_eq_some.1 h
    apply ih (fun b hb => hallowed b (List.mem_cons_of_mem a hb)) _ hrest
    exact hstep s a u (hallowed a List.mem_cons_self) hs hu

/-- What every action leaves as it is. -/
theorem execute_constant {β : Type*} (f : σ → β) (Inv : σ → Prop)
    (hstep : ∀ s a t, Inv s → step s a = some t → Inv t ∧ f t = f s) (hs : Inv s)
    (h : execute step s as = some t) : f t = f s := by
  refine (execute_invariant (fun _ => True) (fun u => Inv u ∧ f u = f s) ?_ (fun _ _ => trivial)
    ⟨hs, rfl⟩ h).2
  intro u a v _ hu hnext
  obtain ⟨hv, hsame⟩ := hstep u a v hu.1 hnext
  exact ⟨hv, hsame.trans hu.2⟩

/-- A step that is taken only under a guard. -/
theorem of_guard {p : Prop} [Decidable p] (h : (if p then some s else none) = some t) :
    p ∧ t = s := by
  obtain ⟨hp, hsame⟩ := Option.ite_none_right_eq_some.1 h
  exact ⟨hp, (Option.some.inj hsame).symm⟩

/-- The steps that the guard allows where they are taken. -/
def guarded (allowed : σ → α → Bool) (step : σ → α → Option σ) (s : σ) (a : α) : Option σ :=
  if allowed s a then step s a else none

variable {allowed : σ → α → Bool}

theorem guarded_eq_some : guarded allowed step s a = some t ↔ allowed s a ∧ step s a = some t :=
  Option.ite_none_right_eq_some

/-- A guarded execution is an execution. -/
theorem execute_of_guarded (h : execute (guarded allowed step) s as = some t) :
    execute step s as = some t := by
  induction as generalizing s with
  | nil => exact h
  | cons a as ih =>
    obtain ⟨u, hu, hrest⟩ := execute_cons_eq_some.1 h
    exact execute_cons_eq_some.2 ⟨u, (guarded_eq_some.1 hu).2, ih hrest⟩

theorem guarded_invariant (Inv : σ → Prop)
    (hstep : ∀ s a t, allowed s a → Inv s → step s a = some t → Inv t)
    (hs : Inv s) (h : execute (guarded allowed step) s as = some t) : Inv t := by
  apply execute_invariant (fun _ => True) Inv _ (fun _ _ => trivial) hs h
  intro s a t _ hinv hguarded
  obtain ⟨hallowed, hnext⟩ := guarded_eq_some.1 hguarded
  exact hstep s a t hallowed hinv hnext

end Execute

/-! ## Counting parties -/

section Count

variable {n : Nat} {β : Type*} {f : β → Nat} {parties : Fin n → β} {i : Fin n} {b : β}

/-- The measure of all parties together. -/
def total (f : β → Nat) (parties : Fin n → β) : Nat := ∑ i, f (parties i)

/-- A move of one party changes the total by its own change. -/
theorem total_update (f : β → Nat) (parties : Fin n → β) (i : Fin n) (b : β) :
    total f (Function.update parties i b) + f (parties i) = total f parties + f b := by
  have hrest : ∑ j ∈ Finset.univ.erase i, f (Function.update parties i b j) =
      ∑ j ∈ Finset.univ.erase i, f (parties j) := by
    apply Finset.sum_congr rfl
    intro j hj
    rw [Function.update_of_ne (Finset.ne_of_mem_erase hj)]
  have hnew := Finset.add_sum_erase Finset.univ (fun j => f (Function.update parties i b j))
    (Finset.mem_univ i)
  have hold := Finset.add_sum_erase Finset.univ (fun j => f (parties j)) (Finset.mem_univ i)
  simp only [Function.update_self] at hnew
  unfold total
  omega

theorem total_congr {parties' : Fin n → β} (h : ∀ j, f (parties' j) = f (parties j)) :
    total f parties' = total f parties := Finset.sum_congr rfl fun j _ => h j

theorem total_eq_zero : total f parties = 0 ↔ ∀ j, f (parties j) = 0 := by
  simp [total]

theorem le_total (f : β → Nat) (parties : Fin n → β) (i : Fin n) : f (parties i) ≤ total f parties :=
  Finset.single_le_sum (f := fun j => f (parties j)) (fun _ _ => Nat.zero_le _)
    (Finset.mem_univ i)

theorem total_le_card (hle : ∀ j, f (parties j) ≤ 1) : total f parties ≤ n := by
  have hsum : total f parties ≤ ∑ _j : Fin n, 1 := Finset.sum_le_sum fun j _ => hle j
  rwa [Fin.sum_const, smul_eq_mul, Nat.mul_one] at hsum

/-- A measure that is at most one everywhere reaches the number of parties only
when it is one everywhere. -/
theorem total_eq_card (hle : ∀ j, f (parties j) ≤ 1) (h : total f parties = n) (j : Fin n) :
    f (parties j) = 1 := by
  by_contra hne
  have hlt : total f parties < ∑ _j : Fin n, 1 :=
    Finset.sum_lt_sum (fun k _ => hle k) ⟨j, Finset.mem_univ j, lt_of_le_of_ne (hle j) hne⟩
  rw [Fin.sum_const, smul_eq_mul, Nat.mul_one] at hlt
  omega

theorem total_const {c : Nat} (h : ∀ j, f (parties j) = c) : total f parties = n * c := by
  unfold total
  simp only [h]
  rw [Fin.sum_const, smul_eq_mul]

end Count

end EdgeLLM.Verified
