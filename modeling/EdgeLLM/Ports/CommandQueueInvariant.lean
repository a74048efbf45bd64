import Mathlib.Data.Nat.ModEq
import EdgeLLM.Ports.CommandQueue

/-!
# The invariant of the command ring

The positions that are claimed and not popped are a window of at most one lap.
The number in a cell says what its position of the window is waiting for: the
producer that will claim it, the one that has claimed it, or the actor.
-/

namespace EdgeLLM.Ports.CommandQueue

open Verified

variable {ι α : Type}

/-- The producer has claimed the position and not yet published. -/
def Producer.Holds (p : Producer α) (position : Nat) : Prop :=
  (∃ command, p = .claimed command position) ∨ p = .filled position

/-- The actor has taken the command of the position and not yet handed the cell back. -/
def Consumer.Holds (c : Consumer α) (position : Nat) (command : Option α) : Prop :=
  c = .took position command ∨ c = .advanced position command

namespace Ring

/-- What the actor has seen, and where `mDequeuePos` stands. -/
def ConsumerInv (s : Ring ι α) : Consumer α → Prop
  | .idle => s.dequeuePos = s.popped.length
  | .ready p => s.dequeuePos = s.popped.length ∧ p = s.popped.length ∧
      s.sequence (s.index p) = p + 1
  | .took p command => s.dequeuePos = s.popped.length ∧ p = s.popped.length ∧
      s.sequence (s.index p) = p + 1 ∧ command = s.claims[p]?
  | .advanced p command => s.dequeuePos = s.popped.length + 1 ∧ p = s.popped.length ∧
      s.sequence (s.index p) = p + 1 ∧ command = s.claims[p]?

/-- What a position of the window is waiting for. -/
def CellInv (s : Ring ι α) (q : Nat) : Prop :=
  (s.sequence (s.index q) = q ∧ s.enqueuePos ≤ q ∧ s.command (s.index q) = none) ∨
  (s.sequence (s.index q) = q ∧ q < s.enqueuePos ∧ ∃ i, (s.producers i).Holds q) ∨
  (s.sequence (s.index q) = q + 1 ∧ q < s.enqueuePos ∧ (∃ command, s.consumer.Holds q command) ∧
    s.command (s.index q) = none) ∨
  (s.sequence (s.index q) = q + 1 ∧ q < s.enqueuePos ∧ (∀ command, ¬s.consumer.Holds q command) ∧
    s.command (s.index q) = s.claims[q]?)

/-- What a producer knows. -/
def ProducerInv (s : Ring ι α) : Producer α → Prop
  | .idle | .loading _ => True
  | .reading _ p => p ≤ s.enqueuePos
  | .claiming _ p => p ≤ s.enqueuePos ∧ p < s.popped.length + s.capacity
  | .claimed command p => s.popped.length ≤ p ∧ s.claims[p]? = some command ∧
      s.sequence (s.index p) = p ∧ s.command (s.index p) = none
  | .filled p => s.popped.length ≤ p ∧ p < s.enqueuePos ∧ s.sequence (s.index p) = p ∧
      s.command (s.index p) = s.claims[p]?

/-- The invariant of the ring. -/
structure Inv (s : Ring ι α) : Prop where
  pow : ∃ k, 1 ≤ k ∧ s.capacity = 2 ^ k
  claims_length : s.claims.length = s.enqueuePos
  popped_prefix : s.popped <+: s.claims
  room : s.enqueuePos ≤ s.popped.length + s.capacity
  producer : ∀ i, s.ProducerInv (s.producers i)
  unique : ∀ i j q, (s.producers i).Holds q → (s.producers j).Holds q → i = j
  cell : ∀ q, s.popped.length ≤ q → q < s.popped.length + s.capacity → s.CellInv q
  consumer : s.ConsumerInv s.consumer

section Index

variable {s : Ring ι α} {p q : Nat}

theorem Inv.two_le (h : Inv s) : 2 ≤ s.capacity := by
  obtain ⟨k, hk, hcap⟩ := h.pow
  rw [hcap]
  exact Nat.le_self_pow (by omega) 2

/-- Masking is the remainder, for a power of two. -/
theorem Inv.index_eq (h : Inv s) (p : Nat) : s.index p = p % s.capacity := by
  obtain ⟨k, -, hcap⟩ := h.pow
  rw [index, hcap, Nat.and_two_pow_sub_one_eq_mod]

/-- Two positions of one lap have different cells. -/
theorem Inv.index_inj (h : Inv s) (hp : s.popped.length ≤ p)
    (hpLt : p < s.popped.length + s.capacity) (hq : s.popped.length ≤ q)
    (hqLt : q < s.popped.length + s.capacity) (heq : s.index p = s.index q) : p = q := by
  rw [h.index_eq, h.index_eq] at heq
  exact Nat.ModEq.eq_of_abs_lt heq (by rw [abs_lt]; omega)

/-- The position of the window that has the cell of a position; any other one is
at least a lap away. -/
theorem Inv.exists_window (h : Inv s) (p : Nat) :
    ∃ q, s.popped.length ≤ q ∧ q < s.popped.length + s.capacity ∧ s.index q = s.index p ∧
      (q = p ∨ p + s.capacity ≤ q ∨ q + s.capacity ≤ p) := by
  have hpos := h.two_le
  have hR : s.popped.length ≤ p + s.popped.length * s.capacity :=
    Nat.le_add_left_of_le (Nat.le_mul_of_pos_right _ (by omega))
  have hlt := Nat.mod_lt (p + s.popped.length * s.capacity - s.popped.length)
    (show 0 < s.capacity by omega)
  have hmod : (s.popped.length + (p + s.popped.length * s.capacity - s.popped.length) %
      s.capacity) % s.capacity = p % s.capacity := by
    rw [Nat.add_mod_mod, Nat.add_sub_cancel' hR, Nat.add_mul_mod_self_right]
  refine ⟨s.popped.length + (p + s.popped.length * s.capacity - s.popped.length) % s.capacity,
    by omega, by omega, ?_, ?_⟩
  · rw [h.index_eq, h.index_eq, hmod]
  · -- congruent positions differ by laps
    generalize s.popped.length + (p + s.popped.length * s.capacity - s.popped.length) %
      s.capacity = q at hmod
    rcases Nat.lt_trichotomy q p with hlow | heq | hhigh
    · have hdvd := (Nat.modEq_iff_dvd' hlow.le).1 hmod
      have := Nat.le_of_dvd (by omega) hdvd
      omega
    · exact Or.inl heq
    · have hdvd := (Nat.modEq_iff_dvd' hhigh.le).1 hmod.symm
      have := Nat.le_of_dvd (by omega) hdvd
      omega

/-- The number in the cell of any position is that of its position in the window. -/
theorem Inv.sequence_window (h : Inv s) (p : Nat) :
    ∃ q, s.popped.length ≤ q ∧ q < s.popped.length + s.capacity ∧ s.index q = s.index p ∧
      (q = p ∨ p + s.capacity ≤ q ∨ q + s.capacity ≤ p) ∧
      (s.sequence (s.index p) = q ∨ s.sequence (s.index p) = q + 1) := by
  obtain ⟨q, hlow, hhigh, hindex, hlap⟩ := h.exists_window p
  refine ⟨q, hlow, hhigh, hindex, hlap, ?_⟩
  rw [← hindex]
  rcases h.cell q hlow hhigh with hcell | hcell | hcell | hcell
  · exact Or.inl hcell.1
  · exact Or.inl hcell.1
  · exact Or.inr hcell.1
  · exact Or.inr hcell.1

/-- A producer that finds its position writable is in the window. -/
theorem Inv.writable_lt (h : Inv s) (hseq : s.sequence (s.index p) = p) :
    p < s.popped.length + s.capacity := by
  have htwo := h.two_le
  obtain ⟨q, hlow, hhigh, -, hlap, hcell⟩ := h.sequence_window p
  omega

/-- A producer that finds its cell behind finds the ring full. -/
theorem Inv.full_of_behind (h : Inv s) (hp : p ≤ s.enqueuePos) (hseq : s.sequence (s.index p) < p) :
    s.enqueuePos = s.popped.length + s.capacity := by
  have hroom := h.room
  obtain ⟨q, hlow, hhigh, -, hlap, hcell⟩ := h.sequence_window p
  omega

theorem Inv.popped_length_le (h : Inv s) : s.popped.length ≤ s.enqueuePos := by
  have hle := h.popped_prefix.length_le
  rwa [h.claims_length] at hle

/-- What was popped last is followed by the front of the window. -/
theorem Inv.popped_append (h : Inv s) {command : α}
    (hfront : s.claims[s.popped.length]? = some command) : s.popped ++ [command] <+: s.claims := by
  obtain ⟨rest, hrest⟩ := h.popped_prefix
  rw [← hrest, List.getElem?_append_right (Nat.le_refl _), Nat.sub_self] at hfront
  cases rest with
  | nil => cases hfront
  | cons first more =>
    rw [List.getElem?_cons_zero, Option.some.injEq] at hfront
    rw [← hrest, ← hfront]
    exact ⟨more, by simp⟩

end Index

section Knowledge

variable {s : Ring ι α} {i : ι}

@[simp] theorem Holds_idle (q : Nat) : ¬(Producer.idle : Producer α).Holds q := by
  rintro (⟨c, hc⟩ | hf) <;> contradiction

@[simp] theorem Holds_loading (c : α) (q : Nat) : ¬(Producer.loading c).Holds q := by
  rintro (⟨c, hc⟩ | hf) <;> contradiction

@[simp] theorem Holds_reading (c : α) (p q : Nat) : ¬(Producer.reading c p).Holds q := by
  rintro (⟨c, hc⟩ | hf) <;> contradiction

@[simp] theorem Holds_claiming (c : α) (p q : Nat) : ¬(Producer.claiming c p).Holds q := by
  rintro (⟨c, hc⟩ | hf) <;> contradiction

variable {p q : Nat} {command : α}

@[simp] theorem Holds_claimed {c : α} : (Producer.claimed c p).Holds q ↔ p = q := by
  simp [Producer.Holds]

@[simp] theorem Holds_filled : (Producer.filled p : Producer α).Holds q ↔ p = q := by
  simp [Producer.Holds]

theorem Inv.published_lt (h : Inv s) (hlow : s.popped.length ≤ q)
    (hhigh : q < s.popped.length + s.capacity) (hseq : s.sequence (s.index q) = q + 1) :
    q < s.enqueuePos := by
  rcases h.cell q hlow hhigh with hcell | hcell | hcell | hcell
  · omega
  · omega
  · exact hcell.2.1
  · exact hcell.2.1

/-- A position that a producer holds is in the window, and not published. -/
theorem Inv.held (h : Inv s) (hq : (s.producers i).Holds q) :
    s.popped.length ≤ q ∧ q < s.enqueuePos ∧ q < s.popped.length + s.capacity ∧
      s.sequence (s.index q) = q := by
  have hknown := h.producer i
  have hroom := h.room
  rcases hq with ⟨command, hphase⟩ | hphase
  · rw [hphase] at hknown
    obtain ⟨hlow, hclaim, hseq, -⟩ := hknown
    have hlt := (List.getElem?_eq_some_iff.1 hclaim).1
    rw [h.claims_length] at hlt
    exact ⟨hlow, hlt, by omega, hseq⟩
  · rw [hphase] at hknown
    obtain ⟨hlow, hlt, hseq, -⟩ := hknown
    exact ⟨hlow, hlt, by omega, hseq⟩

theorem Inv.index_ne (h : Inv s) (hp : (s.producers i).Holds p) (hlow : s.popped.length ≤ q)
    (hhigh : q < s.popped.length + s.capacity) (hne : q ≠ p) : s.index q ≠ s.index p := by
  obtain ⟨hpLow, -, hpHigh, -⟩ := h.held hp
  exact fun heq => hne (h.index_inj hlow hhigh hpLow hpHigh heq)

/-- What a producer knows is about the cell of its position. -/
theorem ProducerInv.mono {t : Ring ι α} {p : Producer α} (hp : s.ProducerInv p)
    (hcapacity : t.capacity = s.capacity) (henqueue : s.enqueuePos ≤ t.enqueuePos)
    (hpopped : s.popped.length ≤ t.popped.length)
    (hheld : ∀ q, p.Holds q → t.popped.length ≤ q ∧ t.claims[q]? = s.claims[q]? ∧
      t.sequence (s.index q) = s.sequence (s.index q) ∧
      t.command (s.index q) = s.command (s.index q)) : t.ProducerInv p := by
  have hindex : ∀ q, t.index q = s.index q := fun q => by rw [index, index, hcapacity]
  cases p with
  | idle => trivial
  | loading c => trivial
  | reading c p => exact Nat.le_trans hp henqueue
  | claiming c p =>
    refine ⟨hp.1.trans henqueue, hp.2.trans_le ?_⟩
    rw [hcapacity]
    omega
  | claimed c p =>
    obtain ⟨hlow, hclaims, hsequence, hcommand⟩ := hheld p (by simp)
    rw [ProducerInv, hindex, hsequence, hcommand, hclaims]
    exact ⟨hlow, hp.2⟩
  | filled p =>
    obtain ⟨hlow, hclaims, hsequence, hcommand⟩ := hheld p (by simp)
    rw [ProducerInv, hindex, hsequence, hcommand, hclaims]
    exact ⟨hlow, hp.2.1.trans_le henqueue, hp.2.2⟩

/-- A position of the window waits for the same when nothing of its own has changed. -/
theorem CellInv.congr {t : Ring ι α} (hcell : s.CellInv q) (hcapacity : t.capacity = s.capacity)
    (henqueue : t.enqueuePos = s.enqueuePos) (hclaims : t.claims = s.claims)
    (hsequence : t.sequence (s.index q) = s.sequence (s.index q))
    (hcommand : t.command (s.index q) = s.command (s.index q))
    (hheld : ∀ j, (s.producers j).Holds q → (t.producers j).Holds q)
    (htaken : ∀ command, t.consumer.Holds q command ↔ s.consumer.Holds q command) :
    t.CellInv q := by
  have hindex : t.index q = s.index q := by rw [index, index, hcapacity]
  simp only [CellInv, hindex, hsequence, hcommand, henqueue, hclaims, htaken]
  rcases hcell with hfree | ⟨hseq, hlt, j, hj⟩ | hread
  · exact Or.inl hfree
  · exact Or.inr (Or.inl ⟨hseq, hlt, j, hheld j hj⟩)
  · exact Or.inr (Or.inr hread)

/-- What the actor has seen is about the cell at the front. -/
theorem ConsumerInv.congr {t : Ring ι α} {c : Consumer α} (hc : s.ConsumerInv c)
    (hcapacity : t.capacity = s.capacity) (hdequeue : t.dequeuePos = s.dequeuePos)
    (hpopped : t.popped = s.popped)
    (hfront : ∀ p, p = s.popped.length → s.sequence (s.index p) = p + 1 →
      t.sequence (s.index p) = p + 1 ∧ t.claims[p]? = s.claims[p]?) : t.ConsumerInv c := by
  have hindex : ∀ q, t.index q = s.index q := fun q => by rw [index, index, hcapacity]
  cases c with
  | idle =>
    rw [ConsumerInv, hdequeue, hpopped]
    exact hc
  | ready p =>
    obtain ⟨hdeq, hp, hread⟩ := hc
    rw [ConsumerInv, hdequeue, hpopped, hindex]
    exact ⟨hdeq, hp, (hfront p hp hread).1⟩
  | took p taken | advanced p taken =>
    obtain ⟨hdeq, hp, hread, htaken⟩ := hc
    rw [ConsumerInv, hdequeue, hpopped, hindex, (hfront p hp hread).2]
    exact ⟨hdeq, hp, (hfront p hp hread).1, htaken⟩

/-- What the actor has seen is not lost when a producer claims. -/
theorem Inv.consumer_claim {producers : ι → Producer α} (h : Inv s) :
    ConsumerInv { s with
      producers := producers
      enqueuePos := s.enqueuePos + 1
      claims := s.claims ++ [command] } s.consumer := by
  have htwo := h.two_le
  have hlength := h.claims_length
  refine h.consumer.congr rfl rfl rfl ?_
  intro p hp hseq
  have hlt := h.published_lt hp.ge (by omega) hseq
  exact ⟨hseq, List.getElem?_append_left (by omega)⟩

theorem Inv.other_index {j : ι} (h : Inv s) (hp : (s.producers i).Holds p)
    (hq : (s.producers j).Holds q) (hne : j ≠ i) : s.index q ≠ s.index p := by
  obtain ⟨hlow, -, hhigh, -⟩ := h.held hq
  apply h.index_ne hp hlow hhigh
  intro heq
  rw [heq] at hq
  exact hne (h.unique j i p hq hp)

/-- The position that the actor has read is the front of the window, and published. -/
theorem Inv.consumer_front {command : Option α} (h : Inv s) (hq : s.consumer.Holds q command) :
    q = s.popped.length ∧ s.sequence (s.index q) = q + 1 ∧ command = s.claims[q]? := by
  have hconsumer := h.consumer
  rcases hq with hphase | hphase
  · rw [hphase] at hconsumer
    exact ⟨hconsumer.2.1, hconsumer.2.2.1, hconsumer.2.2.2⟩
  · rw [hphase] at hconsumer
    exact ⟨hconsumer.2.1, hconsumer.2.2.1, hconsumer.2.2.2⟩

/-- Publishing a position does not touch the cell that the actor reads. -/
theorem Inv.consumer_publish {position : Nat} {producers : ι → Producer α} (h : Inv s)
    (hheld : (s.producers i).Holds position) :
    ConsumerInv { s with
      producers := producers
      sequence := Function.update s.sequence (s.index position) (position + 1) } s.consumer := by
  have htwo := h.two_le
  obtain ⟨-, -, -, hseq⟩ := h.held hheld
  refine h.consumer.congr rfl rfl rfl ?_
  intro p hp hread
  refine ⟨?_, rfl⟩
  show Function.update s.sequence (s.index position) (position + 1) (s.index p) = p + 1
  rw [Function.update_of_ne, hread]
  apply h.index_ne hheld hp.ge (by omega)
  intro heq
  rw [heq] at hread
  omega

theorem Inv.setConsumer (h : Inv s) (c : Consumer α) (dequeuePos : Nat)
    (hsame : ∀ q command, c.Holds q command ↔ s.consumer.Holds q command)
    (hc : ConsumerInv { s with consumer := c, dequeuePos := dequeuePos } c) :
    Inv { s with consumer := c, dequeuePos := dequeuePos } := by
  refine ⟨h.pow, h.claims_length, h.popped_prefix, h.room, ?_, h.unique, ?_, hc⟩
  · exact fun j => (h.producer j).mono rfl (Nat.le_refl _) (Nat.le_refl _) fun q hq =>
      ⟨(h.held hq).1, rfl, rfl, rfl⟩
  · exact fun q hlow hhigh => (h.cell q hlow hhigh).congr rfl rfl rfl rfl rfl (fun _ hj => hj)
      (hsame q)

end Knowledge

/-! ## Steps -/

section Steps

variable [DecidableEq ι] {s t : Ring ι α} {i : ι}

attribute [local simp] stepProducer

/-- The moves of a producer that holds no position. -/
theorem Inv.setProducer (h : Inv s) {p : Producer α} (hold : ∀ q, ¬(s.producers i).Holds q)
    (hnew : ∀ q, ¬p.Holds q) (hp : s.ProducerInv p) : Inv (s.setProducer i p) := by
  have hholds : ∀ j q, (Function.update s.producers i p j).Holds q ↔ (s.producers j).Holds q := by
    intro j q
    by_cases hj : j = i
    · rw [hj, Function.update_self]
      exact iff_of_false (hnew q) (hold q)
    · rw [Function.update_of_ne hj]
  refine ⟨h.pow, h.claims_length, h.popped_prefix, h.room, ?_, ?_, ?_, h.consumer⟩
  · intro j
    show s.ProducerInv (Function.update s.producers i p j)
    by_cases hj : j = i
    · rw [hj, Function.update_self]
      exact hp
    · rw [Function.update_of_ne hj]
      exact h.producer j
  · intro j k q hjq hkq
    exact h.unique j k q ((hholds j q).1 hjq) ((hholds k q).1 hkq)
  · exact fun q hlow hhigh => (h.cell q hlow hhigh).congr rfl rfl rfl rfl rfl
      (fun j hj => (hholds j q).2 hj) fun _ => Iff.rfl

theorem push_inv {command : α} (h : Inv s) (hstep : s.step (.push i command) = some t) : Inv t := by
  simp only [step, stepProducer] at hstep
  split at hstep
  · rename_i hphase
    cases hstep
    exact h.setProducer (by simp [hphase]) (by simp) trivial
  · cases hstep

theorem load_inv (h : Inv s) (hstep : s.step (.load i) = some t) : Inv t := by
  simp only [step, stepProducer] at hstep
  split at hstep
  · rename_i command hphase
    cases hstep
    exact h.setProducer (by simp [hphase]) (by simp) (Nat.le_refl _)
  · cases hstep

theorem readSequence_inv (h : Inv s) (hstep : s.step (.readSequence i) = some t) : Inv t := by
  simp only [step, stepProducer] at hstep
  split at hstep
  · rename_i command position hphase
    have hknown := h.producer i
    rw [hphase] at hknown
    have hold : ∀ q, ¬(s.producers i).Holds q := by simp [hphase]
    split at hstep
    · cases hstep
      exact h.setProducer hold (by simp) trivial
    · split at hstep
      · rename_i hzero
        cases hstep
        exact h.setProducer hold (by simp) ⟨hknown, h.writable_lt (by omega)⟩
      · cases hstep
        exact h.setProducer hold (by simp) trivial
  · cases hstep

theorem claim_inv {spurious : Bool} (h : Inv s) (hstep : s.step (.claim i spurious) = some t) :
    Inv t := by
  simp only [step, stepProducer] at hstep
  split at hstep
  · rename_i command position hphase
    have hknown := h.producer i
    rw [hphase] at hknown
    split at hstep
    · rename_i hclaims
      obtain ⟨rfl, -⟩ := hclaims
      cases hstep
      have hpopped := h.popped_length_le
      have hlength := h.claims_length
      -- the cell that is claimed is free
      have hfree : s.sequence (s.index s.enqueuePos) = s.enqueuePos ∧
          s.command (s.index s.enqueuePos) = none := by
        rcases h.cell s.enqueuePos hpopped hknown.2 with hcell | hcell | hcell | hcell
        · exact ⟨hcell.1, hcell.2.2⟩
        · exact absurd hcell.2.1 (Nat.lt_irrefl _)
        · exact absurd hcell.2.1 (Nat.lt_irrefl _)
        · exact absurd hcell.2.1 (Nat.lt_irrefl _)
      have hearlier : ∀ q, q < s.enqueuePos → (s.claims ++ [command])[q]? = s.claims[q]? :=
        fun q hq => List.getElem?_append_left (by omega)
      refine ⟨h.pow, ?_, h.popped_prefix.trans (List.prefix_append _ _), hknown.2, ?_, ?_, ?_, ?_⟩
      · show (s.claims ++ [command]).length = s.enqueuePos + 1
        rw [List.length_append, hlength, List.length_singleton]
      · intro j
        by_cases hj : j = i
        · show ProducerInv _ (Function.update s.producers i _ j)
          rw [hj, Function.update_self]
          refine ⟨hpopped, ?_, hfree⟩
          show (s.claims ++ [command])[s.enqueuePos]? = some command
          rw [← hlength, List.getElem?_concat_length]
        · show ProducerInv _ (Function.update s.producers i _ j)
          rw [Function.update_of_ne hj]
          exact (h.producer j).mono rfl (Nat.le_succ _) (Nat.le_refl _) fun q hq =>
            ⟨(h.held hq).1, hearlier q (h.held hq).2.1, rfl, rfl⟩
      · have hnew : ∀ j q, (Function.update s.producers i (.claimed command s.enqueuePos) j).Holds q →
            (j = i ∧ q = s.enqueuePos) ∨ (j ≠ i ∧ (s.producers j).Holds q ∧ q < s.enqueuePos) := by
          intro j q hq
          by_cases hj : j = i
          · rw [hj, Function.update_self, Holds_claimed] at hq
            exact Or.inl ⟨hj, hq.symm⟩
          · rw [Function.update_of_ne hj] at hq
            exact Or.inr ⟨hj, hq, (h.held hq).2.1⟩
        intro j k q hjq hkq
        rcases hnew j q hjq with ⟨hj, hq⟩ | ⟨hj, hjq, hq⟩
        · rcases hnew k q hkq with ⟨hk, -⟩ | ⟨-, -, hlt⟩
          · rw [hj, hk]
          · omega
        · rcases hnew k q hkq with ⟨-, heq⟩ | ⟨-, hkq, -⟩
          · omega
          · exact h.unique j k q hjq hkq
      · intro q hlow hhigh
        rcases h.cell q hlow hhigh with hcell | ⟨hseq, hlt, j, hj⟩ | hcell | hcell
        · obtain ⟨hseq, hle, hcommand⟩ := hcell
          by_cases hq : q = s.enqueuePos
          · refine Or.inr (Or.inl ⟨hseq, ?_, i, ?_⟩)
            · show q < s.enqueuePos + 1
              omega
            · show (Function.update s.producers i _ i).Holds q
              rw [Function.update_self, Holds_claimed]
              exact hq.symm
          · refine Or.inl ⟨hseq, ?_, hcommand⟩
            show s.enqueuePos + 1 ≤ q
            omega
        · refine Or.inr (Or.inl ⟨hseq, Nat.lt_succ_of_lt hlt, j, ?_⟩)
          show (Function.update s.producers i _ j).Holds q
          rw [Function.update_of_ne]
          · exact hj
          · intro hji
            rw [hji, hphase] at hj
            exact Holds_claiming _ _ _ hj
        · exact Or.inr (Or.inr (Or.inl ⟨hcell.1, Nat.lt_succ_of_lt hcell.2.1, hcell.2.2⟩))
        · refine Or.inr (Or.inr (Or.inr ⟨hcell.1, Nat.lt_succ_of_lt hcell.2.1, hcell.2.2.1, ?_⟩))
          show s.command (s.index q) = (s.claims ++ [command])[q]?
          rw [hearlier q hcell.2.1]
          exact hcell.2.2.2
      · exact h.consumer_claim
    · cases hstep
      exact h.setProducer (by simp [hphase]) (by simp) (Nat.le_refl _)
  · cases hstep

theorem fill_inv (h : Inv s) (hstep : s.step (.fill i) = some t) : Inv t := by
  simp only [step, stepProducer] at hstep
  split at hstep
  · rename_i command position hphase
    cases hstep
    have hholds : (s.producers i).Holds position := by rw [hphase, Holds_claimed]
    obtain ⟨hlow, hlt, hhigh, hseq⟩ := h.held hholds
    have hknown := h.producer i
    rw [hphase] at hknown
    have hsame : ∀ j q, (Function.update s.producers i (.filled position) j).Holds q ↔
        (s.producers j).Holds q := by
      intro j q
      by_cases hj : j = i
      · rw [hj, Function.update_self, hphase, Holds_filled, Holds_claimed]
      · rw [Function.update_of_ne hj]
    refine ⟨h.pow, h.claims_length, h.popped_prefix, h.room, ?_, ?_, ?_, h.consumer⟩
    · intro j
      show ProducerInv _ (Function.update s.producers i _ j)
      by_cases hj : j = i
      · rw [hj, Function.update_self]
        refine ⟨hlow, hlt, hseq, ?_⟩
        show Function.update s.command (s.index position) (some command) (s.index position) = _
        rw [Function.update_self]
        exact hknown.2.1.symm
      · rw [Function.update_of_ne hj]
        exact (h.producer j).mono rfl (Nat.le_refl _) (Nat.le_refl _) fun q hq =>
          ⟨(h.held hq).1, rfl, rfl, Function.update_of_ne (h.other_index hholds hq hj) _ _⟩
    · intro j k q hjq hkq
      exact h.unique j k q ((hsame j q).1 hjq) ((hsame k q).1 hkq)
    · intro q hqLow hqHigh
      by_cases hq : q = position
      · refine Or.inr (Or.inl ⟨hq ▸ hseq, hq ▸ hlt, i, ?_⟩)
        rw [hq]
        exact (hsame i position).2 hholds
      · exact (h.cell q hqLow hqHigh).congr rfl rfl rfl rfl
          (Function.update_of_ne (h.index_ne hholds hqLow hqHigh hq) _ _)
          (fun j hj => (hsame j q).2 hj) fun _ => Iff.rfl
  · cases hstep

theorem publish_inv (h : Inv s) (hstep : s.step (.publish i) = some t) : Inv t := by
  simp only [step, stepProducer] at hstep
  split at hstep
  · rename_i position hphase
    cases hstep
    have hholds : (s.producers i).Holds position := by rw [hphase, Holds_filled]
    obtain ⟨hlow, hlt, hhigh, hseq⟩ := h.held hholds
    have hknown := h.producer i
    rw [hphase] at hknown
    have hothers : ∀ j q, (Function.update s.producers i .idle j).Holds q →
        j ≠ i ∧ (s.producers j).Holds q := by
      intro j q hq
      by_cases hj : j = i
      · rw [hj, Function.update_self] at hq
        exact absurd hq (Holds_idle q)
      · rw [Function.update_of_ne hj] at hq
        exact ⟨hj, hq⟩
    refine ⟨h.pow, h.claims_length, h.popped_prefix, h.room, ?_, ?_, ?_, h.consumer_publish hholds⟩
    · intro j
      show ProducerInv _ (Function.update s.producers i _ j)
      by_cases hj : j = i
      · rw [hj, Function.update_self]
        trivial
      · rw [Function.update_of_ne hj]
        exact (h.producer j).mono rfl (Nat.le_refl _) (Nat.le_refl _) fun q hq =>
          ⟨(h.held hq).1, rfl, Function.update_of_ne (h.other_index hholds hq hj) _ _, rfl⟩
    · intro j k q hjq hkq
      exact h.unique j k q (hothers j q hjq).2 (hothers k q hkq).2
    · intro q hqLow hqHigh
      by_cases hq : q = position
      · -- the command becomes visible
        refine Or.inr (Or.inr (Or.inr ⟨?_, hq ▸ hlt, ?_, ?_⟩))
        · show Function.update s.sequence (s.index position) (position + 1) (s.index q) = q + 1
          rw [hq, Function.update_self]
        · intro command htaken
          have hread := (h.consumer_front htaken).2.1
          rw [hq] at hread
          omega
        · rw [hq]
          exact hknown.2.2.2
      · refine (h.cell q hqLow hqHigh).congr rfl rfl rfl
          (Function.update_of_ne (h.index_ne hholds hqLow hqHigh hq) _ _) rfl ?_ fun _ => Iff.rfl
        intro j hj
        show (Function.update s.producers i _ j).Holds q
        rw [Function.update_of_ne]
        · exact hj
        · intro hji
          rw [hji, hphase, Holds_filled] at hj
          exact hq hj.symm
  · cases hstep

theorem pop_inv (h : Inv s) (hstep : s.step .pop = some t) : Inv t := by
  simp only [step, stepConsumer] at hstep
  split at hstep
  · rename_i hphase
    have hconsumer := h.consumer
    rw [hphase] at hconsumer
    split at hstep
    · cases hstep
      exact h
    · rename_i hreadable
      cases hstep
      apply h.setConsumer (.ready s.dequeuePos) s.dequeuePos
      · intro q command
        simp [Consumer.Holds, hphase]
      · refine ⟨hconsumer, hconsumer, ?_⟩
        show s.sequence (s.index s.dequeuePos) = s.dequeuePos + 1
        omega
  · cases hstep

theorem advance_inv (h : Inv s) (hstep : s.step .advance = some t) : Inv t := by
  simp only [step, stepConsumer] at hstep
  split at hstep
  · rename_i position command hphase
    have hconsumer := h.consumer
    rw [hphase] at hconsumer
    cases hstep
    apply h.setConsumer (.advanced position command) (position + 1)
    · intro q taken
      simp [Consumer.Holds, hphase]
    · obtain ⟨-, hp, hread⟩ := hconsumer
      exact ⟨by rw [hp], hp, hread⟩
  · cases hstep

theorem take_inv (h : Inv s) (hstep : s.step .take = some t) : Inv t := by
  simp only [step, stepConsumer] at hstep
  split at hstep
  · rename_i position hphase
    have htwo := h.two_le
    have hconsumer := h.consumer
    rw [hphase] at hconsumer
    obtain ⟨hdeq, hp, hread⟩ := hconsumer
    have hfree : ∀ q command, ¬s.consumer.Holds q command := by
      simp [Consumer.Holds, hphase]
    -- the command that was claimed at the front
    have hfront : position < s.enqueuePos ∧ s.command (s.index position) = s.claims[position]? := by
      rcases h.cell position hp.ge (by omega) with hcell | hcell | ⟨-, -, ⟨c, hc⟩, -⟩ | hcell
      · omega
      · omega
      · exact absurd hc (hfree position c)
      · exact ⟨hcell.2.1, hcell.2.2.2⟩
    cases hstep
    have helse : ∀ q, s.popped.length ≤ q → q < s.popped.length + s.capacity → q ≠ position →
        Function.update s.command (s.index position) none (s.index q) = s.command (s.index q) := by
      intro q hlow hhigh hne
      apply Function.update_of_ne
      intro heq
      exact hne (h.index_inj hlow hhigh hp.ge (by omega) heq)
    have hheld : ∀ j q, (s.producers j).Holds q →
        Function.update s.command (s.index position) none (s.index q) = s.command (s.index q) := by
      intro j q hq
      obtain ⟨hlow, -, hhigh, hseq⟩ := h.held hq
      apply helse q hlow hhigh
      intro heq
      rw [heq] at hseq
      omega
    refine ⟨h.pow, h.claims_length, h.popped_prefix, h.room, ?_, h.unique, ?_,
      ⟨hdeq, hp, hread, hfront.2⟩⟩
    · exact fun j => (h.producer j).mono rfl (Nat.le_refl _) (Nat.le_refl _) fun q hq =>
        ⟨(h.held hq).1, rfl, rfl, hheld j q hq⟩
    · intro q hlow hhigh
      by_cases hq : q = position
      · refine Or.inr (Or.inr (Or.inl ⟨hq ▸ hread, hq ▸ hfront.1,
          ⟨s.command (s.index position), Or.inl ?_⟩, ?_⟩))
        · rw [hq]
        · show Function.update s.command (s.index position) none (s.index q) = none
          rw [hq, Function.update_self]
      · refine (h.cell q hlow hhigh).congr rfl rfl rfl rfl (helse q hlow hhigh hq)
          (fun _ hj => hj) ?_
        intro c
        apply iff_of_false _ (hfree q c)
        rintro (hc | hc)
        · rw [Consumer.took.injEq] at hc
          exact hq hc.1.symm
        · cases hc
  · cases hstep

theorem release_inv (h : Inv s) (hstep : s.step .release = some t) : Inv t := by
  simp only [step, stepConsumer] at hstep
  split at hstep
  · rename_i position command hphase
    have htwo := h.two_le
    have hroom := h.room
    have hlength := h.claims_length
    have hholds : s.consumer.Holds position command := Or.inr hphase
    obtain ⟨hp, hread, hcommand⟩ := h.consumer_front hholds
    have hlt := h.published_lt hp.ge (by omega) hread
    have hdeq := h.consumer
    rw [hphase] at hdeq
    -- the command at the front is the next one in claim order
    obtain ⟨front, hfront⟩ : ∃ front, s.claims[position]? = some front :=
      ⟨_, List.getElem?_eq_getElem (by omega)⟩
    rw [hfront] at hcommand
    rw [hcommand] at hstep
    cases hstep
    have hpopped : (s.popped ++ [front]).length = s.popped.length + 1 := by
      rw [List.length_append, List.length_singleton]
    have helse : ∀ q, s.popped.length ≤ q → q < s.popped.length + s.capacity → q ≠ position →
        Function.update s.sequence (s.index position) (position + s.capacity) (s.index q) =
          s.sequence (s.index q) := by
      intro q hlow hhigh hne
      apply Function.update_of_ne
      intro heq
      exact hne (h.index_inj hlow hhigh hp.ge (by omega) heq)
    have hheld : ∀ j q, (s.producers j).Holds q → s.popped.length + 1 ≤ q ∧
        Function.update s.sequence (s.index position) (position + s.capacity) (s.index q) =
          s.sequence (s.index q) := by
      intro j q hq
      obtain ⟨hlow, -, hhigh, hseq⟩ := h.held hq
      have hne : q ≠ position := by
        intro heq
        rw [heq] at hseq
        omega
      exact ⟨by omega, helse q hlow hhigh hne⟩
    refine ⟨h.pow, hlength, h.popped_append (hp ▸ hfront), ?_, ?_, h.unique, ?_, ?_⟩
    · show s.enqueuePos ≤ (s.popped ++ [front]).length + s.capacity
      omega
    · intro j
      refine (h.producer j).mono rfl (Nat.le_refl _) (hpopped.ge.trans' (Nat.le_succ _)) ?_
      intro q hq
      obtain ⟨hlow, hsame⟩ := hheld j q hq
      exact ⟨hpopped.trans_le hlow, rfl, hsame, rfl⟩
    · intro q hlow hhigh
      replace hlow : (s.popped ++ [front]).length ≤ q := hlow
      replace hhigh : q < (s.popped ++ [front]).length + s.capacity := hhigh
      by_cases hq : q = position + s.capacity
      · -- the cell goes to the position one lap later
        have hindex : s.index q = s.index position := by
          rw [h.index_eq, h.index_eq, hq, Nat.add_mod_right]
        refine Or.inl ⟨?_, ?_, ?_⟩
        · show Function.update s.sequence (s.index position) (position + s.capacity) (s.index q) = q
          rw [hindex, Function.update_self, hq]
        · show s.enqueuePos ≤ q
          omega
        · show s.command (s.index q) = none
          rw [hindex]
          rcases h.cell position hp.ge (by omega) with hcell | hcell | hcell | hcell
          · exact hcell.2.2
          · omega
          · exact hcell.2.2.2
          · exact absurd hholds (hcell.2.2.1 command)
      · have hne : q ≠ position := by omega
        refine (h.cell q (by omega) (by omega)).congr rfl rfl rfl
          (helse q (by omega) (by omega) hne) rfl (fun _ hj => hj) ?_
        intro c
        apply iff_of_false
        · rintro (hc | hc) <;> cases hc
        · intro hc
          exact hne ((h.consumer_front hc).1.trans hp.symm)
    · show s.dequeuePos = (s.popped ++ [front]).length
      rw [hpopped]
      exact hdeq.1
  · cases hstep

theorem step_inv {a : Action ι α} (h : Inv s) (hstep : s.step a = some t) : Inv t := by
  cases a with
  | push i command => exact push_inv h hstep
  | load i => exact load_inv h hstep
  | readSequence i => exact readSequence_inv h hstep
  | claim i spurious => exact claim_inv h hstep
  | fill i => exact fill_inv h hstep
  | publish i => exact publish_inv h hstep
  | pop => exact pop_inv h hstep
  | take => exact take_inv h hstep
  | advance => exact advance_inv h hstep
  | release => exact release_inv h hstep

end Steps

end Ring

end EdgeLLM.Ports.CommandQueue
