import Mathlib.Data.Nat.Factorization.Basic
import EdgeLLM.Verified.Checked
import EdgeLLM.Ports.CommandQueueInvariant

/-!
# The command ring refines a bounded queue

The abstract queue holds the commands that are claimed and not popped.  A claim
inserts, the hand-over of a cell removes, every other step is invisible.

Masking a position finds a cell of its own for each position of a lap only in a
ring of a power of two of cells; in a single cell a published command reads as
free.  The rings that behave as a queue are the ones that the constructor builds.
-/

namespace EdgeLLM.Ports.CommandQueue

open Verified

variable {ι α : Type}

/-! ## The abstract queue -/

/-- What is seen of a step. -/
inductive Event (α : Type) where
  | insert (command : α)
  | remove (command : α)

/-- A step of a queue of at most `capacity` commands, oldest first. -/
def FifoStep (capacity : Nat) : Option (Event α) → List α → List α → Prop
  | none, q, q' => q' = q
  | some (.insert command), q, q' => q.length < capacity ∧ q' = q ++ [command]
  | some (.remove command), q, q' => q = command :: q'

namespace Ring

/-- The commands that are claimed and not popped. -/
def contents (s : Ring ι α) : List α := s.claims.drop s.popped.length

/-- A claim that succeeds inserts; `pop` removes when it hands the cell back. -/
def visible (s : Ring ι α) : Action ι α → Option (Event α)
  | .claim i spurious =>
    match s.producers i with
    | .claiming command position =>
      if s.enqueuePos = position ∧ spurious = false then some (.insert command) else none
    | _ => none
  | .release =>
    match s.consumer with
    | .advanced _ (some command) => some (.remove command)
    | _ => none
  | _ => none

/-- Where the command of a position is: with its producer, in the cell, or with the
actor. -/
def Located (s : Ring ι α) (position : Nat) (command : α) : Prop :=
  (∃ i, s.producers i = .claimed command position) ∨
    s.command (s.index position) = some command ∨ s.consumer.Holds position (some command)

/-- What the protocol promises in a state. -/
structure Fifo [DecidableEq ι] (s : Ring ι α) : Prop where
  /-- Commands are popped in the order of their claims, each at most once. -/
  order : s.popped <+: s.claims
  /-- A producer that has claimed is recorded, and no other has its position. -/
  recorded : ∀ i command p, s.producers i = .claimed command p → s.claims[p]? = some command
  unique : ∀ i j p, (s.producers i).Holds p → (s.producers j).Holds p → i = j
  /-- No command is lost, and none is overwritten: a claimed cell is empty. -/
  kept : ∀ p command, s.popped.length ≤ p → s.claims[p]? = some command → s.Located p command
  empty : ∀ i command p, s.producers i = .claimed command p → s.command (s.index p) = none
  /-- Every step is one of the bounded queue. -/
  refines : ∀ a t, s.step a = some t →
    FifoStep s.capacity (s.visible a) s.contents t.contents
  /-- When `push` returns false, every cell has a command that is not popped. -/
  refused : ∀ i t, s.step (.readSequence i) = some t → t.producers i = .idle →
    s.claims.length = s.popped.length + s.capacity ∧
      ∀ cell, cell < s.capacity → ∃ p command, s.popped.length ≤ p ∧
        s.claims[p]? = some command ∧ s.index p = cell
  /-- When `pop` returns the null pointer, the ring is empty or a producer is between
  the claim and the publication of the oldest command. -/
  missed : ∀ t, s.step .pop = some t → t.consumer = .idle →
    s.claims.length = s.popped.length ∨ ∃ i, (s.producers i).Holds s.popped.length

/-- A ring of that many cells works over any interleaving. -/
def Sound (ι α : Type) [DecidableEq ι] (cells : Nat) : Prop :=
  ∀ actions s, execute step (start ι α cells) actions = some s → Fifo s

/-! ## Powers of two -/

section Pow

variable [DecidableEq ι] {s t : Ring ι α}

omit [DecidableEq ι] in
theorem Inv.kept {p : Nat} {command : α} (h : Inv s) (hlow : s.popped.length ≤ p)
    (hclaim : s.claims[p]? = some command) : s.Located p command := by
  have hlt := (List.getElem?_eq_some_iff.1 hclaim).1
  rw [h.claims_length] at hlt
  have hroom := h.room
  rcases h.cell p hlow (by omega) with hcell | ⟨-, -, i, hheld⟩ | ⟨-, -, ⟨taken, htaken⟩, -⟩ | hcell
  · omega
  · have hknown := h.producer i
    rcases hheld with ⟨command', hphase⟩ | hphase
    · rw [hphase] at hknown
      have hsame := hknown.2.1
      rw [hclaim, Option.some.injEq] at hsame
      exact Or.inl ⟨i, hsame ▸ hphase⟩
    · rw [hphase] at hknown
      exact Or.inr (Or.inl (hknown.2.2.2.trans hclaim))
  · have hfront := (h.consumer_front htaken).2.2
    rw [hfront, hclaim] at htaken
    exact Or.inr (Or.inr htaken)
  · exact Or.inr (Or.inl (hcell.2.2.2.trans hclaim))

theorem Inv.refines {a : Action ι α} (h : Inv s) (hstep : s.step a = some t) :
    FifoStep s.capacity (s.visible a) s.contents t.contents := by
  have hpopped := h.popped_prefix.length_le
  cases a with
  | claim i spurious =>
    simp only [step, stepProducer] at hstep
    split at hstep
    · rename_i command position hphase
      have hknown := h.producer i
      rw [hphase] at hknown
      split at hstep
      · rename_i hclaims
        cases hstep
        simp only [visible, hphase, if_pos hclaims]
        obtain ⟨rfl, -⟩ := hclaims
        have hlength := h.claims_length
        constructor
        · rw [contents, List.length_drop]
          have := hknown.2
          omega
        · show (s.claims ++ [command]).drop s.popped.length = _
          rw [List.drop_append_of_le_length hpopped]
          rfl
      · rename_i hfails
        cases hstep
        simp only [visible, hphase, if_neg hfails]
        rfl
    · cases hstep
  | release =>
    simp only [step, stepConsumer] at hstep
    split at hstep
    · rename_i position command hphase
      have htwo := h.two_le
      obtain ⟨hp, hread, hcommand⟩ := h.consumer_front (Or.inr hphase)
      have hlt := h.published_lt hp.ge (by omega) hread
      rw [← h.claims_length] at hlt
      rw [List.getElem?_eq_getElem hlt] at hcommand
      cases hstep
      simp only [visible, hphase, hcommand]
      show s.claims.drop s.popped.length =
        s.claims[position] :: s.claims.drop (s.popped ++ [s.claims[position]]).length
      rw [List.length_append, List.length_singleton, ← hp]
      exact List.drop_eq_getElem_cons hlt
    · cases hstep
  | push i command | load i | fill i | publish i =>
    simp only [step, stepProducer] at hstep
    split at hstep
    · cases hstep
      rfl
    · cases hstep
  | readSequence i =>
    simp only [step, stepProducer] at hstep
    split at hstep
    · split at hstep
      · cases hstep
        rfl
      · split at hstep
        · cases hstep
          rfl
        · cases hstep
          rfl
    · cases hstep
  | pop =>
    simp only [step, stepConsumer] at hstep
    split at hstep
    · split at hstep
      · cases hstep
        rfl
      · cases hstep
        rfl
    · cases hstep
  | take | advance =>
    simp only [step, stepConsumer] at hstep
    split at hstep
    · cases hstep
      rfl
    · cases hstep

theorem Inv.refused {i : ι} (h : Inv s) (hstep : s.step (.readSequence i) = some t)
    (hfalse : t.producers i = .idle) : s.claims.length = s.popped.length + s.capacity ∧
      ∀ cell, cell < s.capacity → ∃ p command, s.popped.length ≤ p ∧
        s.claims[p]? = some command ∧ s.index p = cell := by
  have hfull : s.enqueuePos = s.popped.length + s.capacity := by
    simp only [step, stepProducer] at hstep
    split at hstep
    · rename_i command position hphase
      have hknown := h.producer i
      rw [hphase] at hknown
      split at hstep
      · rename_i hbehind
        exact h.full_of_behind hknown (by omega)
      · split at hstep
        · cases hstep
          have hmoved : Function.update s.producers i (.claiming command position) i = .idle := hfalse
          rw [Function.update_self] at hmoved
          cases hmoved
        · cases hstep
          have hmoved : Function.update s.producers i (.loading command) i = .idle := hfalse
          rw [Function.update_self] at hmoved
          cases hmoved
    · cases hstep
  refine ⟨h.claims_length.trans hfull, ?_⟩
  intro cell hcell
  obtain ⟨q, hlow, hhigh, hindex, -⟩ := h.exists_window cell
  have hlt : q < s.claims.length := by
    rw [h.claims_length]
    omega
  refine ⟨q, s.claims[q], hlow, List.getElem?_eq_getElem hlt, ?_⟩
  rw [hindex, h.index_eq, Nat.mod_eq_of_lt hcell]

theorem Inv.missed (h : Inv s) (hstep : s.step .pop = some t) (hnull : t.consumer = .idle) :
    s.claims.length = s.popped.length ∨ ∃ i, (s.producers i).Holds s.popped.length := by
  have htwo := h.two_le
  simp only [step, stepConsumer] at hstep
  split at hstep
  · rename_i hphase
    have hdeq := h.consumer
    rw [hphase] at hdeq
    have hdeq : s.dequeuePos = s.popped.length := hdeq
    split at hstep
    · rename_i hunread
      rw [hdeq] at hunread
      rcases h.cell s.popped.length (Nat.le_refl _) (by omega) with hcell | hcell | hcell | hcell
      · have hle := h.popped_length_le
        rw [h.claims_length]
        exact Or.inl (by omega)
      · exact Or.inr hcell.2.2
      · omega
      · omega
    · cases hstep
      cases hnull
  · cases hstep

/-- What the invariant means for the producers and the actor. -/
theorem fifo_of_inv (h : Inv s) : Fifo s where
  order := h.popped_prefix
  recorded := by
    intro i command p hphase
    have hknown := h.producer i
    rw [hphase] at hknown
    exact hknown.2.1
  unique := h.unique
  kept := fun _ _ hlow hclaim => h.kept hlow hclaim
  empty := by
    intro i command p hphase
    have hknown := h.producer i
    rw [hphase] at hknown
    exact hknown.2.2.2
  refines := fun _ _ hstep => h.refines hstep
  refused := fun _ _ hstep hfalse => h.refused hstep hfalse
  missed := fun _ hstep hnull => h.missed hstep hnull

omit [DecidableEq ι] in
theorem start_inv {cells : Nat} (hpow : ∃ k, 1 ≤ k ∧ cells = 2 ^ k) : Inv (start ι α cells) where
  pow := hpow
  claims_length := rfl
  popped_prefix := List.prefix_refl _
  room := Nat.zero_le _
  producer := fun _ => trivial
  unique := fun _ _ q hq _ => absurd hq (Holds_idle q)
  cell := by
    intro q _ hhigh
    obtain ⟨k, -, hcells⟩ := hpow
    have hlt : q < 2 ^ k := by
      rw [← hcells]
      exact (Nat.zero_add cells) ▸ hhigh
    refine Or.inl ⟨?_, Nat.zero_le q, rfl⟩
    show q &&& (cells - 1) = q
    rw [hcells, Nat.and_two_pow_sub_one_eq_mod, Nat.mod_eq_of_lt hlt]
  consumer := rfl

/-- Over any interleaving a ring of a power of two of at least two cells is a
bounded queue. -/
theorem sound_of_pow {cells : Nat} (hpow : ∃ k, 1 ≤ k ∧ cells = 2 ^ k) : Sound ι α cells := by
  intro actions s hrun
  apply fifo_of_inv
  exact execute_invariant (fun _ => True) Inv (fun _ _ _ _ h hstep => step_inv h hstep)
    (fun _ _ => trivial) (start_inv hpow) hrun

end Pow

/-! ## Other numbers of cells -/

section Moves

variable [DecidableEq ι] {s : Ring ι α} {i : ι} {command : α} {p : Nat}

theorem producers_setProducer (s : Ring ι α) (i : ι) (x : Producer α) :
    (s.setProducer i x).producers i = x :=
  Function.update_self ..

theorem setProducer_setProducer (s : Ring ι α) (i : ι) (x y : Producer α) :
    (s.setProducer i x).setProducer i y = s.setProducer i y := by
  unfold setProducer
  rw [Function.update_idem]

theorem step_push (h : s.producers i = .idle) :
    s.step (.push i command) = some (s.setProducer i (.loading command)) := by
  simp only [step, stepProducer, h]

theorem step_load (h : s.producers i = .loading command) :
    s.step (.load i) = some (s.setProducer i (.reading command s.enqueuePos)) := by
  simp only [step, stepProducer, h]

theorem step_read_free (h : s.producers i = .reading command p)
    (hseq : s.sequence (s.index p) = p) :
    s.step (.readSequence i) = some (s.setProducer i (.claiming command p)) := by
  simp only [step, stepProducer, h, hseq]
  rw [if_neg (by omega), if_pos (by omega)]

theorem step_read_behind (h : s.producers i = .reading command p)
    (hseq : s.sequence (s.index p) < p) :
    s.step (.readSequence i) = some (s.setProducer i .idle) := by
  simp only [step, stepProducer, h]
  rw [if_pos (by omega)]

theorem step_claim (h : s.producers i = .claiming command s.enqueuePos) :
    s.step (.claim i false) = some { s.setProducer i (.claimed command s.enqueuePos) with
      enqueuePos := s.enqueuePos + 1, claims := s.claims ++ [command] } := by
  simp only [step, stepProducer, h]
  rw [if_pos ⟨trivial, trivial⟩]

end Moves

section Other

variable [DecidableEq ι] [Inhabited ι] [Inhabited α]

/-- A ring after pushes that found their cells free. -/
def filledRing (ι α : Type) [Inhabited α] (cells pushed : Nat) : Ring ι α where
  capacity := cells
  sequence := fun c => if c < pushed then c + 1 else c
  command := fun c => if c < pushed then some default else none
  enqueuePos := pushed
  dequeuePos := 0
  producers := fun _ => .idle
  consumer := .idle
  claims := List.replicate pushed default
  popped := []

theorem execute_loading (s : Ring ι α) (hidle : s.producers default = .idle) :
    execute step s [.push default default, .load default] =
      some (s.setProducer default (.reading default s.enqueuePos)) := by
  rw [execute_cons_eq_some]
  refine ⟨_, step_push hidle, ?_⟩
  rw [execute_cons_eq_some]
  refine ⟨_, step_load (producers_setProducer s default _), ?_⟩
  rw [setProducer_setProducer, execute_nil]
  rfl

/-- A push that finds its cell free claims the next position. -/
theorem execute_claiming (s : Ring ι α) (hidle : s.producers default = .idle)
    (hfree : s.sequence (s.index s.enqueuePos) = s.enqueuePos) :
    execute step s ([.push default default, .load default] ++
        [.readSequence default, .claim default false]) =
      some { s.setProducer default (.claimed default s.enqueuePos) with
        enqueuePos := s.enqueuePos + 1, claims := s.claims ++ [default] } := by
  rw [execute_append, execute_loading s hidle, Option.bind_some, execute_cons_eq_some]
  refine ⟨_, step_read_free (producers_setProducer s default _) hfree, ?_⟩
  rw [setProducer_setProducer, execute_cons_eq_some]
  refine ⟨_, step_claim (producers_setProducer s default _), ?_⟩
  rw [setProducer_setProducer, execute_nil]
  rfl

theorem update_threshold {β : Type} (f g : Nat → β) (n : Nat) :
    Function.update (fun c => if c < n then f c else g c) n (f n) =
      fun c => if c < n + 1 then f c else g c := by
  funext c
  by_cases hc : c = n
  · rw [hc, Function.update_self, if_pos (Nat.lt_succ_self n)]
  · rw [Function.update_of_ne hc]
    by_cases hlt : c < n
    · rw [if_pos hlt, if_pos (by omega)]
    · rw [if_neg hlt, if_neg (by omega)]

/-- One more push into a ring whose next position has a cell of its own. -/
theorem execute_filling {cells pushed : Nat} (hindex : pushed &&& (cells - 1) = pushed) :
    ∃ actions, execute step (filledRing ι α cells pushed) actions =
      some (filledRing ι α cells (pushed + 1)) := by
  have hfree : (filledRing ι α cells pushed).sequence
      ((filledRing ι α cells pushed).index pushed) = pushed := by
    rw [show (filledRing ι α cells pushed).index pushed = pushed from hindex]
    exact if_neg (Nat.lt_irrefl _)
  refine ⟨([.push default default, .load default] ++
    [.readSequence default, .claim default false]) ++ [.fill default, .publish default], ?_⟩
  rw [execute_append, execute_claiming _ rfl hfree, Option.bind_some]
  simp only [execute, step, stepProducer, setProducer, Function.update_self, Option.bind_some,
    Function.update_idem, index]
  have hproducers : Function.update (filledRing ι α cells pushed).producers default .idle =
      fun _ => .idle := by
    funext j
    by_cases hj : j = default
    · rw [hj, Function.update_self]
    · rw [Function.update_of_ne hj]
      rfl
  rw [hproducers, show (filledRing ι α cells pushed).enqueuePos &&&
    (filledRing ι α cells pushed).capacity - 1 = pushed from hindex]
  congr 2
  · exact update_threshold (fun c => c + 1) (fun c => c) pushed
  · exact update_threshold (fun _ => some default) (fun _ => none) pushed
  · exact (List.replicate_succ').symm

/-- As many pushes as there are positions with cells of their own. -/
theorem execute_filled {cells : Nat} (n : Nat) (hindex : ∀ p, p < n → p &&& (cells - 1) = p) :
    ∃ actions, execute step (start ι α cells) actions = some (filledRing ι α cells n) := by
  induction n with
  | zero =>
    refine ⟨[], ?_⟩
    rw [execute_nil]
    rfl
  | succ n ih =>
    obtain ⟨before, hbefore⟩ := ih fun p hp => hindex p (by omega)
    obtain ⟨more, hmore⟩ := execute_filling (ι := ι) (α := α) (hindex n (Nat.lt_succ_self n))
    exact ⟨before ++ more, by rw [execute_append, hbefore, Option.bind_some, hmore]⟩

/-- A lap is cut short where a position falls onto the first cell. -/
theorem not_sound_of_refused {cells n : Nat} (hindex : ∀ p, p < n → p &&& (cells - 1) = p)
    (hfirst : n &&& (cells - 1) = 0) (hn : 1 < n) (hlt : n < cells) : ¬Sound ι α cells := by
  intro hsound
  obtain ⟨actions, hactions⟩ := execute_filled (ι := ι) (α := α) n hindex
  have hloading := execute_loading (filledRing ι α cells n) rfl
  have hrun := hsound (actions ++ [.push default default, .load default]) _
    (by rw [execute_append, hactions, Option.bind_some, hloading])
  have hseq : ((filledRing ι α cells n).setProducer default (.reading default n)).sequence
      (((filledRing ι α cells n).setProducer default (.reading default n)).index n) < n := by
    rw [show ((filledRing ι α cells n).setProducer default (.reading default n)).index n = 0
      from hfirst]
    show (if 0 < n then 0 + 1 else 0) < n
    rw [if_pos (by omega)]
    omega
  have hfull := (hrun.refused default _
    (step_read_behind (producers_setProducer _ _ _) hseq) (producers_setProducer _ _ _)).1
  have hlength : (List.replicate n (default : α)).length = 0 + cells := hfull
  rw [List.length_replicate] at hlength
  omega

/-- A published command is overwritten where the next position falls onto its cell. -/
theorem not_sound_of_overwritten {cells : Nat} (hfirst : 1 &&& (cells - 1) = 0) :
    ¬Sound ι α cells := by
  intro hsound
  obtain ⟨actions, hactions⟩ := @execute_filled ι α _ _ _ cells 1 (by
    intro p hp
    rw [Nat.lt_one_iff.1 hp, Nat.zero_and])
  have hfree : (filledRing ι α cells 1).sequence
      ((filledRing ι α cells 1).index (filledRing ι α cells 1).enqueuePos) =
        (filledRing ι α cells 1).enqueuePos := by
    rw [show (filledRing ι α cells 1).index (filledRing ι α cells 1).enqueuePos = 0 from hfirst]
    rfl
  have hclaiming := execute_claiming (filledRing ι α cells 1) rfl hfree
  have hrun := hsound (actions ++ _) _ (by rw [execute_append, hactions, Option.bind_some, hclaiming])
  have hempty := hrun.empty default default 1 (Function.update_self ..)
  have hholds : (if 1 &&& (cells - 1) < 1 then some (default : α) else none) = none := hempty
  rw [hfirst, if_pos Nat.zero_lt_one] at hholds
  cases hholds

/-- Below the lowest bit of the number of cells the mask keeps a position; the bit
itself it drops. -/
theorem and_mask {b m : Nat} (hm : Odd m) :
    (∀ p, p < 2 ^ b → p &&& (2 ^ b * m - 1) = p) ∧ 2 ^ b &&& (2 ^ b * m - 1) = 0 := by
  obtain ⟨k, rfl⟩ := hm
  have hpos := Nat.two_pow_pos b
  have hmask : 2 ^ b * (2 * k + 1) - 1 = 2 ^ b * (2 * k) + (2 ^ b - 1) := by
    rw [Nat.mul_add, Nat.mul_one, Nat.add_sub_assoc hpos]
  have hbits : ∀ j, (2 ^ b * (2 * k + 1) - 1).testBit j =
      if j < b then true else (2 * k).testBit (j - b) := by
    intro j
    rw [hmask, Nat.testBit_two_pow_mul_add _ (by omega)]
    split
    · rename_i hj
      rw [Nat.testBit_two_pow_sub_one, decide_eq_true hj]
    · rfl
  constructor
  · intro p hp
    apply Nat.eq_of_testBit_eq
    intro j
    rw [Nat.testBit_and, hbits]
    split
    · exact Bool.and_true _
    · rename_i hj
      have hhigh : p.testBit j = false := by
        apply Nat.testBit_lt_two_pow
        exact hp.trans_le (Nat.pow_le_pow_right Nat.zero_lt_two (by omega))
      rw [hhigh, Bool.false_and]
  · apply Nat.eq_of_testBit_eq
    intro j
    rw [Nat.testBit_and, hbits, Nat.testBit_two_pow, Nat.zero_testBit]
    by_cases hj : b = j
    · rw [if_neg (by omega), hj, Nat.sub_self, Nat.testBit_zero, Nat.mul_mod_right]
      exact Bool.and_false _
    · rw [decide_eq_false hj, Bool.false_and]

/-- The protocol works exactly in rings of a power of two of at least two cells. -/
theorem sound_iff {cells : Nat} (hcells : 0 < cells) :
    Sound ι α cells ↔ ∃ k, 1 ≤ k ∧ cells = 2 ^ k := by
  refine ⟨?_, sound_of_pow⟩
  intro hsound
  by_contra hpow
  obtain ⟨b, m, hm, hsplit⟩ := Nat.exists_eq_two_pow_mul_odd hcells.ne'
  obtain ⟨hkeeps, hdrops⟩ := @and_mask b m hm
  rw [← hsplit] at hkeeps hdrops
  cases b with
  | zero => exact not_sound_of_overwritten hdrops hsound
  | succ b =>
    have hbit : 1 < 2 ^ (b + 1) := Nat.one_lt_two_pow (by omega)
    have hmore : m ≠ 1 := by
      intro hone
      exact hpow ⟨b + 1, by omega, by rw [hsplit, hone, Nat.mul_one]⟩
    have hmpos := hm.pos
    have hlt : 2 ^ (b + 1) < cells := by
      rw [hsplit]
      exact (Nat.lt_mul_iff_one_lt_right (by omega)).2 (by omega)
    exact not_sound_of_refused hkeeps hdrops hbit hlt hsound

end Other

/-! ## The constructor -/

/-- The loop ends at a power of two that is large enough. -/
theorem doubleUntil_spec (value : Nat) (fuel : Nat) : ∀ k, value ≤ 2 ^ (k + fuel) →
      ∃ n, doubleUntil value fuel (2 ^ k) = 2 ^ n ∧ value ≤ 2 ^ n := by
  induction fuel with
  | zero =>
    intro k hvalue
    exact ⟨k, rfl, hvalue⟩
  | succ fuel ih =>
    intro k hvalue
    unfold doubleUntil
    split
    · rw [Nat.shiftLeft_eq, Nat.pow_one, ← Nat.pow_succ]
      exact ih (k + 1) (by rwa [Nat.add_right_comm])
    · exact ⟨k, rfl, by omega⟩

theorem ceilToPowerOfTwo_spec (value : Int) :
    (∀ rounded, ceilToPowerOfTwo value = .ok rounded → value ≤ rounded ∧ ∃ k, rounded = 2 ^ k) ∧
    (value ≤ 2 ^ 30 → ∃ rounded, ceilToPowerOfTwo value = .ok rounded) := by
  unfold ceilToPowerOfTwo
  by_cases hone : value ≤ 1
  · rw [if_pos hone]
    refine ⟨?_, fun _ => ⟨1, rfl⟩⟩
    intro rounded hrounded
    cases hrounded
    exact ⟨hone, 0, rfl⟩
  · have hlimit : ((kMaxPowerOfTwo : Nat) : Int) = 2 ^ 30 := rfl
    rw [if_neg hone, hlimit]
    by_cases hlarge : value > 2 ^ 30
    · rw [if_pos hlarge]
      refine ⟨?_, fun hle => absurd hlarge (by omega)⟩
      intro rounded hrounded
      cases hrounded
    · rw [if_neg hlarge]
      refine ⟨?_, fun _ => ⟨_, rfl⟩⟩
      intro rounded hrounded
      obtain ⟨n, hn, hle⟩ := doubleUntil_spec value.toNat 30 0 (by omega)
      rw [Nat.pow_zero] at hn
      rw [hn, Except.ok.injEq] at hrounded
      exact ⟨by omega, n, hrounded.symm⟩

/-- The cells that the constructor makes of a capacity. -/
theorem ringCapacity_spec (capacity : Int) : (∀ cells, ringCapacity capacity = .ok cells →
      capacity ≤ cells ∧ ∃ k, 1 ≤ k ∧ cells = 2 ^ k) ∧
    (0 < capacity → capacity ≤ 2 ^ 30 → ∃ cells, ringCapacity capacity = .ok cells) := by
  obtain ⟨hspec, htotal⟩ := ceilToPowerOfTwo_spec capacity
  constructor
  · intro cells hcells
    unfold ringCapacity at hcells
    obtain ⟨rounded, hrounded, hcells⟩ := bind_eq_ok.1 hcells
    obtain ⟨hle, k, hk⟩ := hspec rounded hrounded
    split at hcells
    · rw [Except.ok.injEq] at hcells
      subst hcells
      refine ⟨hle.trans (Int.ofNat_le.2 (Nat.le_max_right _ _)), max 1 k, Nat.le_max_left _ _, ?_⟩
      rw [hk, kMinCapacity]
      cases k with
      | zero => rfl
      | succ k =>
        have hbit : 2 ≤ 2 ^ (k + 1) := Nat.le_self_pow (by omega) 2
        rw [Nat.max_eq_right hbit, Nat.max_eq_right (by omega)]
    · cases hcells
  · intro hpos hle
    obtain ⟨rounded, hrounded⟩ := htotal hle
    refine ⟨max kMinCapacity rounded, ?_⟩
    unfold ringCapacity
    apply bind_eq_ok.2 ⟨rounded, hrounded, ?_⟩
    rw [if_pos hpos]

/-- The ring that the constructor builds for a capacity is a bounded queue over any
interleaving of the producers and the actor; that rests on the rounding, for a ring
of another number of cells is none. -/
theorem commandQueue_refines (ι α : Type) [DecidableEq ι] [Inhabited ι] [Inhabited α] :
    (∀ capacity cells, ringCapacity capacity = .ok cells →
      capacity ≤ cells ∧ Sound ι α cells) ∧
    (∀ capacity : Int, 0 < capacity → capacity ≤ 2 ^ 30 →
      ∃ cells, ringCapacity capacity = .ok cells) ∧
    ∀ cells, 0 < cells → (Sound ι α cells ↔ ∃ k, 1 ≤ k ∧ cells = 2 ^ k) := by
  refine ⟨?_, fun capacity => (ringCapacity_spec capacity).2, fun cells => sound_iff⟩
  intro capacity cells hcells
  obtain ⟨hle, hpow⟩ := (ringCapacity_spec capacity).1 cells hcells
  exact ⟨hle, sound_of_pow hpow⟩

/-- Two producers and a capacity of five. -/
theorem commandQueue_refines_five : (5 : Int) ≤ (8 : Nat) ∧ Sound (Fin 2) Nat 8 :=
  (commandQueue_refines (Fin 2) Nat).1 5 8 rfl

end Ring

end EdgeLLM.Ports.CommandQueue
