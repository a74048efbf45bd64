import Mathlib.Data.Finset.Card

/-!
# A slot served first come first served

A binary semaphore gives its slot to one task at a time; the others wait in a
queue.  A release hands the slot to the head of the queue, which owns it only
when it wakes.  A waiter may give up, also after the slot was handed to it.

`Serves` relates the semaphore to the tasks: who waits and who owns the slot,
as the tasks see it.
-/

namespace EdgeLLM.Verified

/-- To whom the slot was given, awake or not yet, and who waits for it. -/
structure FifoSlot (κ : Type*) where
  holder : Option κ
  queue : List κ

namespace FifoSlot

variable {κ : Type*}

def free : FifoSlot κ := ⟨none, []⟩

/-- Take the slot or queue up. -/
def acquire (s : FifoSlot κ) (k : κ) : FifoSlot κ :=
  if s.holder.isNone ∧ s.queue.isEmpty then { s with holder := some k }
  else { s with queue := s.queue ++ [k] }

/-- Hand the slot to the first one waiting. -/
def release (s : FifoSlot κ) : FifoSlot κ := ⟨s.queue.head?, s.queue.tail⟩

/-- A waiter leaves; a slot given to it is passed on. -/
def giveUp [DecidableEq κ] (s : FifoSlot κ) (k : κ) : FifoSlot κ :=
  if s.holder = some k then s.release else { s with queue := s.queue.erase k }

/-- The semaphore serves tasks of which some wait and some own the slot. -/
structure Serves (s : FifoSlot κ) (waits owns : κ → Prop) : Prop where
  queued : ∀ k ∈ s.queue, waits k
  waiter : ∀ k, waits k → k ∈ s.queue ∨ s.holder = some k
  owner : ∀ k, owns k → s.holder = some k
  given : ∀ k, s.holder = some k → waits k ∨ owns k
  nodup : s.queue.Nodup
  apart : ∀ k, s.holder = some k → k ∉ s.queue
  idle : s.holder = none → s.queue = []
  exclusive : ∀ k, waits k → ¬owns k

variable {s : FifoSlot κ} {waits owns waits' owns' : κ → Prop} {k k' : κ}

theorem serves_free : (free : FifoSlot κ).Serves (fun _ => False) fun _ => False :=
  ⟨nofun, nofun, nofun, nofun, List.nodup_nil, nofun, fun _ => rfl, nofun⟩

/-- At most one task owns the slot. -/
theorem Serves.owner_unique (h : s.Serves waits owns) (hk : owns k) (hk' : owns k') : k = k' :=
  Option.some.inj ((h.owner k hk).symm.trans (h.owner k' hk'))

theorem Serves.congr (h : s.Serves waits owns) (hwaits : ∀ k, waits' k ↔ waits k)
    (howns : ∀ k, owns' k ↔ owns k) : s.Serves waits' owns' := by
  obtain rfl : waits' = waits := funext fun k => propext (hwaits k)
  obtain rfl : owns' = owns := funext fun k => propext (howns k)
  exact h

/-- A new task asks for the slot. -/
theorem Serves.acquire (h : s.Serves waits owns) (hwaits : ¬waits k) (howns : ¬owns k) :
    (s.acquire k).Serves (fun x => waits x ∨ x = k) owns := by
  have hholder : s.holder ≠ some k := fun he => (h.given k he).elim hwaits howns
  have hqueue : k ∉ s.queue := fun he => hwaits (h.queued k he)
  unfold FifoSlot.acquire
  split
  · rename_i hfree
    have hnone := Option.isNone_iff_eq_none.1 hfree.1
    have hempty := List.isEmpty_iff.1 hfree.2
    constructor
    · exact fun x hx => Or.inl (h.queued x hx)
    · rintro x (hx | rfl)
      · obtain hin | hgiven := h.waiter x hx
        · exact Or.inl hin
        · rw [hnone] at hgiven
          cases hgiven
      · exact Or.inr rfl
    · intro x hx
      have hgiven := h.owner x hx
      rw [hnone] at hgiven
      cases hgiven
    · intro x hx
      exact Or.inl (Or.inr (Option.some.inj hx).symm)
    · exact h.nodup
    · intro x _
      rw [hempty]
      exact List.not_mem_nil
    · nofun
    · rintro x (hx | rfl)
      · exact h.exclusive x hx
      · exact howns
  · rename_i hbusy
    constructor
    · intro x hx
      obtain hx | hx := List.mem_append.1 hx
      · exact Or.inl (h.queued x hx)
      · exact Or.inr (List.mem_singleton.1 hx)
    · rintro x (hx | rfl)
      · exact (h.waiter x hx).imp (List.mem_append_left _) id
      · exact Or.inl (List.mem_append_right _ List.mem_cons_self)
    · exact h.owner
    · intro x hx
      exact (h.given x hx).imp Or.inl id
    · exact List.nodup_append_comm.1 (List.nodup_cons.2 ⟨hqueue, h.nodup⟩)
    · intro x hx hin
      obtain hin | hin := List.mem_append.1 hin
      · exact h.apart x hx hin
      · obtain rfl := List.mem_singleton.1 hin
        exact hholder hx
    · intro hnone
      exact absurd ⟨Option.isNone_iff_eq_none.2 hnone, List.isEmpty_iff.2 (h.idle hnone)⟩ hbusy
    · rintro x (hx | rfl)
      · exact h.exclusive x hx
      · exact howns

/-- The task that was given the slot wakes and owns it. -/
theorem Serves.take (h : s.Serves waits owns) (hholder : s.holder = some k) :
    s.Serves (fun x => waits x ∧ x ≠ k) fun x => owns x ∨ x = k where
  queued x hx := by
    refine ⟨h.queued x hx, ?_⟩
    rintro rfl
    exact h.apart x hholder hx
  waiter x hx := h.waiter x hx.1
  owner x hx := by
    obtain hx | rfl := hx
    · exact h.owner x hx
    · exact hholder
  given x hx := Or.inr (Or.inr (Option.some.inj (hx.symm.trans hholder)))
  nodup := h.nodup
  apart := h.apart
  idle := h.idle
  exclusive x hx howns := howns.elim (h.exclusive x hx.1) hx.2

/-- The slot is passed on; the task that had it is gone. -/
theorem Serves.pass (h : s.Serves waits owns) (hholder : s.holder = some k)
    (howns : ∀ x, owns x → x = k) :
    s.release.Serves (fun x => waits x ∧ x ≠ k) fun x => owns x ∧ x ≠ k := by
  have hnot : ∀ x, ¬(owns x ∧ x ≠ k) := fun x hx => hx.2 (howns x hx.1)
  have hqueue : ∀ x ∈ s.queue, waits x ∧ x ≠ k := by
    intro x hx
    refine ⟨h.queued x hx, ?_⟩
    rintro rfl
    exact h.apart x hholder hx
  have hwaiter : ∀ x, waits x ∧ x ≠ k → x ∈ s.queue := by
    intro x hx
    obtain hin | hgiven := h.waiter x hx.1
    · exact hin
    · exact absurd (Option.some.inj (hgiven.symm.trans hholder)) hx.2
  have hnodup := h.nodup
  unfold FifoSlot.release
  revert hqueue hwaiter hnodup
  generalize s.queue = queue
  intro hqueue hwaiter hnodup
  cases queue with
  | nil =>
    refine ⟨nofun, ?_, fun x hx => absurd hx (hnot x), nofun, List.nodup_nil, nofun,
      fun _ => rfl, fun x _ => hnot x⟩
    exact fun x hx => absurd (hwaiter x hx) List.not_mem_nil
  | cons head tail =>
    obtain ⟨hhead, htail⟩ := List.nodup_cons.1 hnodup
    refine ⟨fun x hx => hqueue x (List.mem_cons_of_mem head hx), ?_,
      fun x hx => absurd hx (hnot x), ?_, htail, ?_, nofun, fun x _ => hnot x⟩
    · intro x hx
      obtain rfl | hin := List.mem_cons.1 (hwaiter x hx)
      · exact Or.inr rfl
      · exact Or.inl hin
    · intro x hx
      obtain rfl := Option.some.inj hx
      exact Or.inl (hqueue head List.mem_cons_self)
    · intro x hx
      obtain rfl := Option.some.inj hx
      exact hhead

/-- The owner releases the slot. -/
theorem Serves.release (h : s.Serves waits owns) (howns : owns k) :
    s.release.Serves waits fun x => owns x ∧ x ≠ k := by
  apply (h.pass (h.owner k howns) fun x hx => h.owner_unique hx howns).congr _ fun _ => Iff.rfl
  intro x
  constructor
  · intro hx
    refine ⟨hx, ?_⟩
    rintro rfl
    exact h.exclusive x hx howns
  · exact fun hx => hx.1

/-- A waiter gives up. -/
theorem Serves.giveUp [DecidableEq κ] (h : s.Serves waits owns) (hwaits : waits k) :
    (s.giveUp k).Serves (fun x => waits x ∧ x ≠ k) owns := by
  have hnot := h.exclusive k hwaits
  have hne : ∀ x, owns x → x ≠ k := by
    rintro x hx rfl
    exact hnot hx
  unfold FifoSlot.giveUp
  split
  · rename_i hholder
    have hnone : ∀ x, ¬owns x := by
      intro x hx
      exact hne x hx (Option.some.inj ((h.owner x hx).symm.trans hholder))
    exact (h.pass hholder fun x hx => absurd hx (hnone x)).congr (fun _ => Iff.rfl) fun x =>
      ⟨fun hx => ⟨hx, hne x hx⟩, fun hx => hx.1⟩
  · rename_i hholder
    constructor
    · intro x hx
      obtain ⟨hxk, hin⟩ := h.nodup.mem_erase_iff.1 hx
      exact ⟨h.queued x hin, hxk⟩
    · intro x hx
      refine (h.waiter x hx.1).imp (fun hin => ?_) id
      exact h.nodup.mem_erase_iff.2 ⟨hx.2, hin⟩
    · exact h.owner
    · intro x hx
      refine (h.given x hx).imp (fun hw => ⟨hw, ?_⟩) id
      rintro rfl
      exact hholder hx
    · exact h.nodup.erase k
    · exact fun x hx hin => h.apart x hx (List.mem_of_mem_erase hin)
    · intro hnone
      rw [h.idle hnone]
      rfl
    · exact fun x hx => h.exclusive x hx.1

end FifoSlot

/-! ## Counting -/

/-- There are exactly `count` such tasks. -/
def Counts {κ : Type*} (p : κ → Prop) (count : Nat) : Prop :=
  ∃ tasks : Finset κ, (∀ k, k ∈ tasks ↔ p k) ∧ tasks.card = count

section Counts

variable {κ : Type*} {p p' : κ → Prop} {count : Nat} {k : κ}

theorem counts_zero (h : ∀ k, ¬p k) : Counts p 0 :=
  ⟨∅, fun k => ⟨fun hk => absurd hk (Finset.notMem_empty k), fun hk => absurd hk (h k)⟩, rfl⟩

theorem Counts.congr (h : Counts p count) (hp : ∀ k, p' k ↔ p k) : Counts p' count := by
  obtain rfl : p' = p := funext fun k => propext (hp k)
  exact h

/-- One more. -/
theorem Counts.insert [DecidableEq κ] (h : Counts p count) (hk : ¬p k) (hp : ∀ x, p' x ↔ p x ∨ x = k) :
    Counts p' (count + 1) := by
  obtain ⟨tasks, htasks, rfl⟩ := h
  refine ⟨Insert.insert k tasks, fun x => ?_, ?_⟩
  · rw [Finset.mem_insert, htasks, hp, or_comm]
  · exact Finset.card_insert_of_notMem fun hin => hk ((htasks k).1 hin)

/-- One less. -/
theorem Counts.erase [DecidableEq κ] (h : Counts p count) (hk : p k) (hp : ∀ x, p' x ↔ p x ∧ x ≠ k) :
    Counts p' (count - 1) ∧ 0 < count := by
  obtain ⟨tasks, htasks, rfl⟩ := h
  have hin := (htasks k).2 hk
  refine ⟨⟨tasks.erase k, fun x => ?_, Finset.card_erase_of_mem hin⟩, Finset.card_pos.2 ⟨k, hin⟩⟩
  rw [Finset.mem_erase, htasks, hp, and_comm]

/-- The count bounds every finite set of such tasks. -/
theorem Counts.card_le (h : Counts p count) {tasks : Finset κ} (htasks : ∀ k ∈ tasks, p k) :
    tasks.card ≤ count := by
  obtain ⟨all, hall, rfl⟩ := h
  exact Finset.card_le_card fun k hk => (hall k).2 (htasks k hk)

end Counts

end EdgeLLM.Verified
