import Mathlib.Data.List.Forall2

/-!
# Checked computations: state that survives a throw

A C++ member function that throws half way keeps every mutation made before
the `throw`.  `Checked ε σ α` is that reading of a stateful computation: a
final state comes back on both exits.  `Except` over a state would lose the
partial mutation and with it every question about rollback.

The module gives the primitives the models are written in (`check`, `read`,
`modify`, `update`, `zoom`, `attempt`, `onThrow`, `forEach`) and one proof rule each for
`Ensures`, the weakest-precondition reading of a computation with one
postcondition for the normal exit and one for the throwing exit.  `Keeps` is
the special case of one invariant on both.
-/

namespace EdgeLLM.Verified

/-- A computation over mutable state `σ` that either returns an `α` or throws
an `ε`; the state is returned on both exits. -/
def Checked (ε σ α : Type) : Type := σ → Except ε α × σ

/-! ## Pure checks -/

/-- The assertion macro of a computation that mutates nothing. -/
def requireThat {ε : Type} (p : Prop) [Decidable p] (e : ε) : Except ε Unit :=
  if p then .ok ⟨⟩ else .error e

variable {ε α β : Type} {p : Prop}

theorem requireThat_eq_ok [Decidable p] {e : ε} {u : Unit} : requireThat p e = .ok u ↔ p := by
  unfold requireThat
  by_cases hp : p <;> simp [hp]

theorem requireThat_of [Decidable p] {e : ε} (h : p) :
    requireThat p e = .ok () := requireThat_eq_ok.2 h

variable {f : α → Except ε β} {xs : List α} {ys : List β}

theorem bind_eq_ok {x : Except ε α} {b : β} :
    (x >>= f) = .ok b ↔ ∃ a, x = .ok a ∧ f a = .ok b := by
  cases x with
  | error e => simp [bind, Except.bind]
  | ok a => simp [bind, Except.bind]

/-- `bind_eq_ok` after a check. -/
theorem check_bind_eq_ok {x : Except ε Unit} {f : Unit → Except ε β} {b : β} :
    (x >>= f) = .ok b ↔ x = .ok () ∧ f () = .ok b := by
  cases x with
  | error e => simp [bind, Except.bind]
  | ok a => simp [bind, Except.bind]

/-- A loop of checks passes when each of them does. -/
theorem forM_eq_ok {f : α → Except ε Unit} :
    xs.forM f = .ok () ↔ ∀ x ∈ xs, f x = .ok () := by
  induction xs with
  | nil => exact ⟨fun _ _ hx => absurd hx List.not_mem_nil, fun _ => rfl⟩
  | cons x xs ih =>
    show (f x >>= fun _ => xs.forM f) = .ok () ↔ _
    rw [check_bind_eq_ok, ih, List.forall_mem_cons]

/-- A loop that collects the results of `f`. -/
theorem mapM_forall₂ (h : xs.mapM f = .ok ys) :
    List.Forall₂ (fun x y => f x = .ok y) xs ys := by
  induction xs generalizing ys with
  | nil =>
    cases h
    exact List.Forall₂.nil
  | cons x xs ih =>
    rw [List.mapM_cons, bind_eq_ok] at h
    obtain ⟨y, hy, hrest⟩ := h
    rw [bind_eq_ok] at hrest
    obtain ⟨rest, hmap, hpure⟩ := hrest
    cases hpure
    exact List.Forall₂.cons hy (ih hmap)

theorem exists_of_mem_mapM {y : β}
    (h : xs.mapM f = .ok ys) (hy : y ∈ ys) : ∃ x ∈ xs, f x = .ok y := by
  have hresults := mapM_forall₂ h
  clear h
  induction hresults with
  | nil => cases hy
  | cons hx _ ih =>
    cases hy with
    | head => exact ⟨_, List.mem_cons_self, hx⟩
    | tail _ hrest =>
      obtain ⟨x, hmem, hfx⟩ := ih hrest
      exact ⟨x, List.mem_cons_of_mem _ hmem, hfx⟩

theorem exists_of_mapM {x : α}
    (h : xs.mapM f = .ok ys) (hx : x ∈ xs) : ∃ y ∈ ys, f x = .ok y := by
  have hresults := mapM_forall₂ h
  clear h
  induction hresults with
  | nil => cases hx
  | cons hhead _ ih =>
    cases hx with
    | head => exact ⟨_, List.mem_cons_self, hhead⟩
    | tail _ hrest =>
      obtain ⟨y, hmem, hfy⟩ := ih hrest
      exact ⟨y, List.mem_cons_of_mem _ hmem, hfy⟩

/-- A counting loop that goes through the accumulators `acc`. -/
theorem foldlM_range_eq_ok {ε σ : Type} {f : σ → Nat → Except ε σ} {n : Nat} (acc : Nat → σ)
    (hstep : ∀ i < n, f (acc i) i = .ok (acc (i + 1))) :
    (List.range n).foldlM f (acc 0) = .ok (acc n) := by
  induction n with
  | zero => rfl
  | succ n ih =>
    rw [List.range_succ, List.foldlM_append, ih fun i hi => hstep i (Nat.lt_succ_of_lt hi)]
    show List.foldlM f (acc n) [n] = _
    rw [List.foldlM_cons, hstep n (Nat.lt_succ_self n)]
    rfl

/-- The same for a loop that cannot throw. -/
theorem foldl_range_eq {σ : Type} {f : σ → Nat → σ} {n : Nat} (acc : Nat → σ)
    (hstep : ∀ i < n, f (acc i) i = acc (i + 1)) : (List.range n).foldl f (acc 0) = acc n := by
  induction n with
  | zero => rfl
  | succ n ih =>
    rw [List.range_succ, List.foldl_append, ih fun i hi => hstep i (Nat.lt_succ_of_lt hi)]
    exact hstep n (Nat.lt_succ_self n)

/-- A pure computation returns a value satisfying `ok` or throws an exception
satisfying `bad`. -/
def Outcome {ε α : Type} (x : Except ε α) (ok : α → Prop) (bad : ε → Prop) : Prop :=
  match x with
  | .ok a => ok a
  | .error e => bad e

section Outcome

variable {ε α β : Type} {ok : α → Prop} {bad : ε → Prop}

@[simp] theorem outcome_ok {a : α} : Outcome (.ok a : Except ε α) ok bad ↔ ok a := Iff.rfl

@[simp] theorem outcome_error {e : ε} : Outcome (.error e : Except ε α) ok bad ↔ bad e := Iff.rfl

variable {x : Except ε α}

theorem outcome_bind {f : α → Except ε β} {ok : β → Prop} :
    Outcome (x >>= f) ok bad ↔ Outcome x (fun a => Outcome (f a) ok bad) bad := by
  cases x <;> rfl

@[simp] theorem outcome_requireThat {p : Prop} [Decidable p] {e : ε} {ok : Unit → Prop} :
    Outcome (requireThat p e) ok bad ↔ (p → ok ⟨⟩) ∧ (¬p → bad e) := by
  unfold requireThat
  by_cases hp : p <;> simp [hp]

theorem outcome_ite {p : Prop} [Decidable p] {y : Except ε α} :
    Outcome (if p then x else y) ok bad ↔ (p → Outcome x ok bad) ∧ (¬p → Outcome y ok bad) := by
  by_cases hp : p <;> simp [hp]

theorem Outcome.mono {ok' : α → Prop} {bad' : ε → Prop}
    (h : Outcome x ok bad) (hok : ∀ a, ok a → ok' a) (hbad : ∀ e, bad e → bad' e) :
    Outcome x ok' bad' := by
  cases x with
  | ok a => exact hok a h
  | error e => exact hbad e h

theorem Outcome.bind {f : α → Except ε β} {ok : β → Prop} {mid : α → Prop}
    (h : Outcome x mid bad) (hf : ∀ a, mid a → Outcome (f a) ok bad) : Outcome (x >>= f) ok bad :=
  outcome_bind.2 (h.mono hf fun _ he => he)

end Outcome

namespace Checked

variable {ε σ τ α β : Type}

instance : Monad (Checked ε σ) where
  pure a := fun s => (.ok a, s)
  bind m f := fun s =>
    match m s with
    | (.ok a, s') => f a s'
    | (.error e, s') => (.error e, s')

/-- Throw `e`, leaving the state as it is. -/
def fail (e : ε) : Checked ε σ α := fun s => (.error e, s)

/-- The assertion macro: throw `e` unless `p` holds. -/
def check (p : Prop) [Decidable p] (e : ε) : Checked ε σ Unit :=
  if p then pure ⟨⟩ else fail e

/-- Read a part of the state. -/
def read (f : σ → α) : Checked ε σ α := fun s => (.ok (f s), s)

/-- Mutate the state; cannot throw. -/
def modify (f : σ → σ) : Checked ε σ Unit := fun s => (.ok ⟨⟩, f s)

/-- Run a pure computation that may throw. -/
def ofExcept (x : Except ε α) : Checked ε σ α := fun s => (x, s)

/-- A mutation with the strong exception guarantee: on a throw the state is
untouched. -/
def update (f : σ → Except ε (α × σ)) : Checked ε σ α := fun s =>
  match f s with
  | .ok (a, s') => (.ok a, s')
  | .error e => (.error e, s)

/-- `update` for mutations without a result. -/
def mutate (f : σ → Except ε σ) : Checked ε σ Unit := fun s =>
  match f s with
  | .ok s' => (.ok ⟨⟩, s')
  | .error e => (.error e, s)

/-- Run a computation on a component of the state. -/
def zoom (get : σ → τ) (set : τ → σ → σ) (m : Checked ε τ α) : Checked ε σ α := fun s =>
  match m (get s) with
  | (r, t) => (r, set t s)

/-- A scope guard: when `body` throws, run `cleanup` and rethrow.  A cleanup
that throws itself leaves a `noexcept` destructor, which ends in `dead`. -/
def onThrow (dead : ε) (body : Checked ε σ α) (cleanup : Checked ε σ Unit) :
    Checked ε σ α := fun s =>
  match body s with
  | (.ok a, s') => (.ok a, s')
  | (.error e, s') =>
    match cleanup s' with
    | (.ok _, s'') => (.error e, s'')
    | (.error _, s'') => (.error dead, s'')

/-- A catch-all handler: the exception becomes a value. -/
def attempt (m : Checked ε σ α) : Checked ε σ (Except ε α) := fun s =>
  match m s with
  | (r, s') => (.ok r, s')

/-- A `noexcept` function: a throw out of it ends in `dead`. -/
def noexcept (dead : ε) (body : Checked ε σ α) : Checked ε σ α := onThrow dead body (fail dead)

/-- The range-for loop. -/
def forEach (f : β → Checked ε σ Unit) : List β → Checked ε σ Unit
  | [] => pure ⟨⟩
  | x :: xs => do
    f x
    forEach f xs

/-! ## Postconditions -/

/-- `m` started in `s` either returns a value and state satisfying `ok`, or
throws leaving an exception and state satisfying `bad`. -/
def Ensures (m : Checked ε σ α) (ok : α → σ → Prop) (bad : ε → σ → Prop) (s : σ) : Prop :=
  match m s with
  | (.ok a, s') => ok a s'
  | (.error e, s') => bad e s'

variable {ok : α → σ → Prop} {bad : ε → σ → Prop} {s : σ}

variable {a : α} {e dead : ε} {m body : Checked ε σ α} {s' : σ}

@[simp] theorem ensures_pure : Ensures (pure a : Checked ε σ α) ok bad s ↔ ok a s := Iff.rfl

@[simp] theorem ensures_fail : Ensures (fail e : Checked ε σ α) ok bad s ↔ bad e s := Iff.rfl

@[simp] theorem ensures_read {f : σ → α} :
    Ensures (read f : Checked ε σ α) ok bad s ↔ ok (f s) s := Iff.rfl

@[simp] theorem ensures_modify {f : σ → σ} {ok : Unit → σ → Prop} :
    Ensures (modify f : Checked ε σ Unit) ok bad s ↔ ok ⟨⟩ (f s) := Iff.rfl

variable {f : α → Checked ε σ β}

theorem ensures_bind {ok : β → σ → Prop} : Ensures (m >>= f) ok bad s ↔
      Ensures m (fun a s' => Ensures (f a) ok bad s') bad s := by
  unfold Ensures
  show (match (match m s with
      | (.ok a, s') => f a s'
      | (.error e, s') => (.error e, s')) with
    | (.ok a, s') => ok a s'
    | (.error e, s') => bad e s') ↔ _
  rcases m s with ⟨_ | _, _⟩ <;> rfl

@[simp] theorem ensures_check {p : Prop} [Decidable p] {ok : Unit → σ → Prop} :
    Ensures (check p e) ok bad s ↔ (p → ok ⟨⟩ s) ∧ (¬p → bad e s) := by
  by_cases hp : p <;> simp [check, hp]

/-- A check in front of `f`, which the computation leaves when it fails. -/
theorem Ensures.checked {p : Prop} [Decidable p] {f : Unit → Checked ε σ α} (hbad : bad e s)
    (hf : p → Ensures (f ⟨⟩) ok bad s) : Ensures (check p e >>= f) ok bad s :=
  ensures_bind.2 (ensures_check.2 ⟨hf, fun _ => hbad⟩)

theorem ensures_ofExcept {x : Except ε α} :
    Ensures (ofExcept x) ok bad s ↔ Outcome x (fun a => ok a s) (fun e => bad e s) := by
  cases x <;> rfl

theorem ensures_update {f : σ → Except ε (α × σ)} :
    Ensures (update f) ok bad s ↔ Outcome (f s) (fun r => ok r.1 r.2) (fun e => bad e s) := by
  unfold Ensures update
  rcases f s with e | ⟨a, s'⟩ <;> rfl

theorem ensures_mutate {f : σ → Except ε σ} {ok : Unit → σ → Prop} :
    Ensures (mutate f) ok bad s ↔ Outcome (f s) (fun s' => ok ⟨⟩ s') (fun e => bad e s) := by
  unfold Ensures mutate
  rcases f s with e | s' <;> rfl

theorem ensures_zoom {get : σ → τ} {set : τ → σ → σ} {m : Checked ε τ α} :
    Ensures (zoom get set m) ok bad s ↔
      Ensures m (fun a t => ok a (set t s)) (fun e t => bad e (set t s)) (get s) := by
  unfold Ensures zoom
  rcases m (get s) with ⟨_ | _, _⟩ <;> rfl

theorem ensures_attempt {ok : Except ε α → σ → Prop} : Ensures (attempt m) ok bad s ↔
      Ensures m (fun a s' => ok (.ok a) s') (fun e s' => ok (.error e) s') s := by
  unfold Ensures attempt
  rcases m s with ⟨_ | _, _⟩ <;> rfl

theorem ensures_onThrow {cleanup : Checked ε σ Unit} :
    Ensures (onThrow dead body cleanup) ok bad s ↔ Ensures body ok (fun e s' =>
        Ensures cleanup (fun _ s'' => bad e s'') (fun _ s'' => bad dead s'') s') s := by
  unfold Ensures onThrow
  rcases body s with ⟨_ | _, s'⟩
  · rcases h : cleanup s' with ⟨_ | _, _⟩ <;> simp [h]
  · rfl

theorem ensures_noexcept :
    Ensures (noexcept dead body) ok bad s ↔ Ensures body ok (fun _ s' => bad dead s') s := by
  rw [noexcept, ensures_onThrow]
  rfl

theorem ensures_ite {p : Prop} [Decidable p] {n : Checked ε σ α} :
    Ensures (if p then m else n) ok bad s ↔
      (p → Ensures m ok bad s) ∧ (¬p → Ensures n ok bad s) := by
  by_cases hp : p <;> simp [hp]

/-- Weakening both postconditions. -/
theorem Ensures.mono {ok' : α → σ → Prop} {bad' : ε → σ → Prop} (h : Ensures m ok bad s)
    (hok : ∀ a s', ok a s' → ok' a s') (hbad : ∀ e s', bad e s' → bad' e s') :
    Ensures m ok' bad' s := by
  unfold Ensures at h ⊢
  rcases hm : m s with ⟨e | a, s'⟩
  · rw [hm] at h
    exact hbad e s' h
  · rw [hm] at h
    exact hok a s' h

/-- Nothing is asked of either exit. -/
theorem ensures_true (m : Checked ε σ α) (s : σ) :
    Ensures m (fun _ _ => True) (fun _ _ => True) s := by
  unfold Ensures
  rcases m s with ⟨e | a, s'⟩ <;> trivial

/-- Two readings of one computation. -/
theorem Ensures.and {ok' : α → σ → Prop} {bad' : ε → σ → Prop} (h : Ensures m ok bad s)
    (h' : Ensures m ok' bad' s) :
    Ensures m (fun a s' => ok a s' ∧ ok' a s') (fun e s' => bad e s' ∧ bad' e s') s := by
  unfold Ensures at h h' ⊢
  rcases hm : m s with ⟨e | a, s'⟩
  · rw [hm] at h h'
    exact ⟨h, h'⟩
  · rw [hm] at h h'
    exact ⟨h, h'⟩

/-- What a computation that returned has established. -/
theorem Ensures.of_ok (h : Ensures m ok bad s) (hm : m s = (.ok a, s')) : ok a s' := by
  unfold Ensures at h
  rw [hm] at h
  exact h

theorem Ensures.of_error (h : Ensures m ok bad s) (hm : m s = (.error e, s')) : bad e s' := by
  unfold Ensures at h
  rw [hm] at h
  exact h

/-- Sequencing with an intermediate assertion. -/
theorem Ensures.bind {ok : β → σ → Prop} {mid : α → σ → Prop}
    (hm : Ensures m mid bad s) (hf : ∀ a s', mid a s' → Ensures (f a) ok bad s') :
    Ensures (m >>= f) ok bad s :=
  ensures_bind.2 (hm.mono hf fun _ _ h => h)

/-- Loop rule: `inv rest s` holds of the elements still to visit. -/
theorem Ensures.forEach {f : β → Checked ε σ Unit} {bad : ε → σ → Prop} (inv : List β → σ → Prop)
    (hstep : ∀ x xs s, inv (x :: xs) s → Ensures (f x) (fun _ s' => inv xs s') bad s) :
    ∀ (xs : List β) (s : σ), inv xs s →
      Ensures (Checked.forEach f xs) (fun _ s' => inv [] s') bad s := by
  intro xs
  induction xs with
  | nil => intro s h; exact h
  | cons x xs ih =>
    intro s h
    exact Ensures.bind (hstep x xs s h) fun _ s' h' => ih s' h'

/-- Loop rule for a loop that is rolled back: `prog done s` holds after the
elements `done`, also when the next one throws. -/
theorem Ensures.forEachProgress {f : β → Checked ε σ Unit} {bad : ε → Prop}
    (prog : List β → σ → Prop) (all : List β)
    (hstep : ∀ done x rest s, all = done ++ x :: rest → prog done s →
      Ensures (f x) (fun _ s' => prog (done ++ [x]) s') (fun e s' => bad e ∧ prog done s') s)
    (s : σ) (hs : prog [] s) : Ensures (Checked.forEach f all) (fun _ s' => prog all s')
      (fun e s' => bad e ∧ ∃ k, prog (all.take k) s') s := by
  have hloop : ∀ (rest done : List β) (s : σ), all = done ++ rest → prog done s →
      Ensures (Checked.forEach f rest) (fun _ s' => prog all s')
        (fun e s' => bad e ∧ ∃ k, prog (all.take k) s') s := by
    intro rest
    induction rest with
    | nil =>
      intro done s hall hp
      rw [List.append_nil] at hall
      exact hall ▸ hp
    | cons x rest ih =>
      intro done s hall hp
      have hx := hstep done x rest s hall hp
      refine ensures_bind.2 (hx.mono ?_ ?_)
      · intro _ s' hp'
        exact ih (done ++ [x]) s' (by simp [hall]) hp'
      · rintro e s' ⟨he, hp'⟩
        exact ⟨he, done.length, by simpa [hall] using hp'⟩
  exact hloop all [] s rfl hs

/-! ## Invariants

`Keeps inv m`: a computation that neither exit of which breaks `inv`.  The
rules follow the primitives, so an invariant of a few mutations spreads to
everything built from them. -/

/-- `m` preserves `inv`, returning or throwing. -/
def Keeps (inv : σ → Prop) (m : Checked ε σ α) : Prop :=
  ∀ s, inv s → Ensures m (fun _ s' => inv s') (fun _ s' => inv s') s

section Keeps

variable {inv : σ → Prop}

theorem keeps_pure (a : α) : Keeps inv (pure a : Checked ε σ α) := fun _ h => h

theorem keeps_fail (e : ε) : Keeps inv (fail e : Checked ε σ α) := fun _ h => h

theorem keeps_read (f : σ → α) : Keeps inv (read f : Checked ε σ α) := fun _ h => h

theorem keeps_check (p : Prop) [Decidable p] (e : ε) : Keeps inv (check p e : Checked ε σ Unit) :=
  fun _ h => ensures_check.2 ⟨fun _ => h, fun _ => h⟩

theorem keeps_ofExcept (x : Except ε α) : Keeps inv (ofExcept x : Checked ε σ α) := by
  intro s h
  rw [ensures_ofExcept]
  cases x <;> exact h

theorem Keeps.modify {f : σ → σ} (hf : ∀ s, inv s → inv (f s)) :
    Keeps inv (Checked.modify f : Checked ε σ Unit) := hf

theorem Keeps.update {f : σ → Except ε (α × σ)}
    (hf : ∀ s a s', inv s → f s = .ok (a, s') → inv s') :
    Keeps inv (Checked.update f : Checked ε σ α) := by
  intro s h
  rw [ensures_update]
  cases hs : f s with
  | error e => exact h
  | ok r => exact hf s r.1 r.2 h hs

theorem Keeps.bind {m : Checked ε σ α} {f : α → Checked ε σ β} (hm : Keeps inv m)
    (hf : ∀ a, Keeps inv (f a)) : Keeps inv (m >>= f) :=
  fun s h => Ensures.bind (hm s h) fun a s' h' => hf a s' h'

/-- A check in front of `m`. -/
theorem Keeps.checked {p : Prop} [Decidable p] {f : Unit → Checked ε σ α} (hf : Keeps inv (f ⟨⟩)) :
    Keeps inv (check p e >>= f) :=
  (keeps_check p e).bind fun _ => hf

theorem Keeps.ite {p : Prop} [Decidable p] {m n : Checked ε σ α} (hm : Keeps inv m)
    (hn : Keeps inv n) : Keeps inv (if p then m else n) :=
  fun s h => ensures_ite.2 ⟨fun _ => hm s h, fun _ => hn s h⟩

theorem Keeps.zoom {get : σ → τ} {set : τ → σ → σ} (part : τ → Prop) {m : Checked ε τ α}
    (hm : Keeps part m) (hget : ∀ s, inv s → part (get s))
    (hset : ∀ s t, inv s → part t → inv (set t s)) : Keeps inv (Checked.zoom get set m) := by
  intro s h
  rw [ensures_zoom]
  exact (hm (get s) (hget s h)).mono (fun _ t ht => hset s t h ht) fun _ t ht => hset s t h ht

/-- Mutating a component the invariant does not read. -/
theorem Keeps.zoom_frame {get : σ → τ} {set : τ → σ → σ} (m : Checked ε τ α)
    (hset : ∀ s t, inv s → inv (set t s)) : Keeps inv (Checked.zoom get set m) :=
  Keeps.zoom (fun _ => True) (fun s _ => ensures_true m s) (fun _ _ => trivial)
    fun s t h _ => hset s t h

theorem Keeps.forEach {f : β → Checked ε σ Unit} (hf : ∀ x, Keeps inv (f x)) (xs : List β) :
    Keeps inv (Checked.forEach f xs) :=
  Ensures.forEach (fun _ => inv) (fun x _ s h => hf x s h) xs

theorem Keeps.onThrow {dead : ε} {body : Checked ε σ α} {cleanup : Checked ε σ Unit}
    (hb : Keeps inv body) (hc : Keeps inv cleanup) : Keeps inv (Checked.onThrow dead body cleanup) :=
  fun s h => ensures_onThrow.2 ((hb s h).mono (fun _ _ h' => h') fun _ s' h' =>
    (hc s' h').mono (fun _ _ h'' => h'') fun _ _ h'' => h'')

theorem Keeps.noexcept {dead : ε} {body : Checked ε σ α} (hb : Keeps inv body) :
    Keeps inv (Checked.noexcept dead body) := Keeps.onThrow hb (keeps_fail dead)

/-- The state behind either exit. -/
theorem Keeps.state {m : Checked ε σ α} (hm : Keeps inv m) {s : σ} (h : inv s) : inv (m s).2 := by
  have hs := hm s h
  unfold Ensures at hs
  rcases heq : m s with ⟨e | a, s'⟩
  · rw [heq] at hs
    exact hs
  · rw [heq] at hs
    exact hs

end Keeps

/-- A computation that returned hands its state to the next one. -/
theorem bind_of_ok {s : σ} (h : m s = (.ok a, s')) :
    (m >>= f) s = f a s' := by
  show (match m s with
    | (.ok a, s') => f a s'
    | (.error e, s') => (.error e, s')) = _
  rw [h]

/-- A computation that establishes a postcondition and cannot throw returns. -/
theorem Ensures.returns (h : Ensures m ok (fun _ _ => False) s) :
    ∃ a s', m s = (.ok a, s') ∧ ok a s' := by
  unfold Ensures at h
  rcases hm : m s with ⟨e | a, s'⟩
  · rw [hm] at h
    exact h.elim
  · rw [hm] at h
    exact ⟨a, s', rfl, h⟩

end Checked

end EdgeLLM.Verified
