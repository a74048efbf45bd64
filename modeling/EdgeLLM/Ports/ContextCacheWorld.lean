import EdgeLLM.Ports.ContextCacheLease

/-!
# Runs over many leases

A `World` is a manager with every lease handle of its clients.  A call is one
public operation on one handle, and a run is any sequence of calls, throwing
ones included: `Checked` keeps the state a throw leaves behind.

`World.Effect` says once what a call can do to the manager and the handles.
The invariants over runs are derived from it and never look at an operation
again.
-/

namespace EdgeLLM.Ports.ContextCache

open Verified Checked

set_option linter.unusedSectionVars false

variable {H : Type} [DecidableEq H]

/-! ## Handles -/

/-- A lease handle with what the proofs remember about it: how many pages it
reused at acquisition, from which position it may write, and the largest block
count it published. -/
structure Held (H : Type) where
  lease : CacheRequestLease H := {}
  reusedBase : Nat := 0
  reusedDraft : Nat := 0
  reuseTokenLength : Int := 0
  published : Nat := 0
deriving DecidableEq

namespace Held

/-- The handle of a fresh acquisition. -/
def acquired (plan : ReusePlan H) (lease : CacheRequestLease H) : Held H where
  lease := lease
  reusedBase := plan.basePageBindings.length
  reusedDraft := plan.specPageBindings.length
  reuseTokenLength := plan.reuseTokenLength

/-- A publication of the handle that returned. -/
def publish (held : Held H) (result : PublishResult) : Held H :=
  match result.status with
  | .published =>
    { held with published := max held.published result.publishedBaseFullBlockCount.toNat }
  | .existingRecord => held

/-- The pages of one type, in block order. -/
def pages (held : Held H) (t : ResourceType) : List PageId :=
  pagesOf t held.lease.activeResources

/-- How many of them were bound at acquisition. -/
def reused (held : Held H) : ResourceType → Nat
  | .baseKvPage => held.reusedBase
  | .draftKvPage => held.reusedDraft
  | .recurrentSnapshot | .partialKvSnapshot => 0

end Held

structure World (H : Type) where
  manager : ContextCacheManager H
  leases : List (Held H) := []

namespace World

/-! ## Calls -/

/-- The public operations; a handle is a position in `World.leases`. -/
inductive Op (H : Type) where
  | declare
  | acquire (request : ContextCacheManager.AcquireRequest H) (inputFullBlockHashes : List H)
      (inputTokenCount : Int) (lookupPolicy : ContextCacheLookupPolicy)
      (coverage : Option (Int × Int))
  | growBasePages (handle : Nat) (count : Int)
  | growSpecPages (handle : Nat) (baseCount draftCount : Int)
  | reserveHybridSnapshots (handle : Nat) (needsPartialKvSnapshot : Bool)
  | releaseRestoredHybridSnapshots (handle : Nat)
  | retireHybridSnapshotReservation (handle : Nat) (reservation : HybridSnapshotReservation)
  | publish (handle : Nat) (request : PublishRequest H)
  | publishHybrid (handle : Nat) (request : HybridPublishRequest H)
  | publishHybridMtp (handle : Nat) (request : HybridPublishRequest H)
  | move (source target : Nat)
  | release (handle : Nat)

/-- Run an operation on the lease of a handle. -/
def onHandle {α : Type} (handle : Nat) (f : Checked Check (Session H) α) :
    Checked Check (World H) α := do
  let held ← Checked.read fun w => w.leases[handle]?
  match held with
  | none => Checked.fail .leaseForeign
  | some held =>
    Checked.zoom (fun w => ⟨w.manager, held.lease⟩)
      (fun s w => ⟨s.manager, w.leases.set handle { held with lease := s.lease }⟩) f

/-- Update what is remembered about a handle. -/
def mark (handle : Nat) (f : Held H → Held H) : Checked Check (World H) Unit :=
  Checked.modify fun w =>
    match w.leases[handle]? with
    | none => w
    | some held => { w with leases := w.leases.set handle (f held) }

def publishOn (handle : Nat) (f : Checked Check (Session H) PublishResult) :
    Checked Check (World H) Unit := do
  let result ← onHandle handle f
  mark handle fun held => held.publish result

def releaseHandle (handle : Nat) : Checked Check (World H) Unit := do
  onHandle handle Session.release
  mark handle fun _ => {}

/-- Move assignment: the target gives up its lease first, the source is left
empty. -/
def move (source target : Nat) : Checked Check (World H) Unit :=
  if source = target then pure ⟨⟩
  else do
    let held ← Checked.read fun w => w.leases[source]?
    match held with
    | none => Checked.fail .leaseForeign
    | some held => do
        releaseHandle target
        Checked.modify fun w => { w with leases := (w.leases.set target held).set source {} }

def call : Op H → Checked Check (World H) Unit
  | .declare => Checked.modify fun w => { w with leases := w.leases ++ [({} : Held H)] }
  | .acquire request hashes tokenCount policy coverage => do
      let result ← Checked.zoom World.manager (fun m w => { w with manager := m })
        (ContextCacheManager.acquireRequest request hashes tokenCount policy coverage)
      match result.lease with
      | none => pure ⟨⟩
      | some lease =>
        Checked.modify fun w => { w with leases := w.leases ++ [.acquired result.plan lease] }
  | .growBasePages handle count => do
      let _ ← onHandle handle (Session.growBasePages count)
  | .growSpecPages handle baseCount draftCount => do
      let _ ← onHandle handle (Session.growSpecPages baseCount draftCount)
  | .reserveHybridSnapshots handle needsPartialKvSnapshot => do
      let _ ← onHandle handle (Session.reserveHybridSnapshots needsPartialKvSnapshot)
  | .releaseRestoredHybridSnapshots handle =>
    onHandle handle Session.releaseRestoredHybridSnapshots
  | .retireHybridSnapshotReservation handle reservation =>
    onHandle handle (Session.retireHybridSnapshotReservation reservation)
  | .publish handle request => publishOn handle (Session.publish request)
  | .publishHybrid handle request => publishOn handle (Session.publishHybrid request)
  | .publishHybridMtp handle request => publishOn handle (Session.publishHybridMtp request)
  | .move source target => move source target
  | .release handle => releaseHandle handle

/-- The state a sequence of calls leaves behind, whatever they threw. -/
def run (ops : List (Op H)) (w : World H) : World H :=
  ops.foldl (fun w op => (call op w).2) w

/-- A new manager without leases. -/
def start (m : ContextCacheManager H) : World H := { manager := m }

/-! ## Pins -/

/-- The pins of a list of handles. -/
def pinsOf (leases : List (Held H)) : Multiset ResourceId :=
  (leases.map fun held => (↑held.lease.activeResources : Multiset ResourceId)).sum

/-- Every active reference: one for each occurrence in a lease. -/
def pins (w : World H) : Multiset ResourceId := pinsOf w.leases

/-- The pins of all handles but one. -/
def others (w : World H) (handle : Nat) : Multiset ResourceId := pinsOf (w.leases.set handle {})

section Pins

variable {leases : List (Held H)} {held new : Held H} {i : Nat}

theorem pinsOf_set (h : leases[i]? = some held) :
    pinsOf (leases.set i new) = ↑new.lease.activeResources + pinsOf (leases.set i {}) := by
  have hi : i < leases.length := (List.getElem?_eq_some_iff.1 h).1
  have hnew : (leases.set i new)[i]? = some new := List.getElem?_set_self hi
  have hsum := sum_map_set
    (f := fun held : Held H => (↑held.lease.activeResources : Multiset ResourceId))
    (w := ({} : Held H)) hnew
  rw [List.set_set] at hsum
  simp only [pinsOf, hsum, Multiset.coe_nil, zero_add]

theorem pins_eq {w : World H} (h : w.leases[i]? = some held) :
    w.pins = ↑held.lease.activeResources + w.others i := by
  obtain ⟨hi, hget⟩ := List.getElem?_eq_some_iff.1 h
  have hself : w.leases.set i held = w.leases := by rw [← hget, List.set_getElem_self]
  rw [pins, others, ← pinsOf_set h, hself]

theorem pinsOf_append : pinsOf (leases ++ [new]) = ↑new.lease.activeResources + pinsOf leases := by
  simp [pinsOf, add_comm]

theorem mem_pins {w : World H} {r : ResourceId} :
    r ∈ w.pins ↔ ∃ held ∈ w.leases, r ∈ held.lease.activeResources := by
  simp [pins, pinsOf, mem_sum_map]

end Pins

/-! ## What a call can do -/

/-- The manager is sound for the pins of all handles, and each handle is well
formed. -/
structure Sound (w : World H) : Prop where
  manager : w.manager.Sound w.pins
  leases : ∀ held ∈ w.leases, held.lease.WellFormed

/-- The handle and the block hashes a publication commits. -/
def Op.publication (pageSize : Int) : Op H → Option (Nat × List H)
  | .publish handle request =>
    some (handle, request.fullBlockHashes.take (Session.publishCount request pageSize))
  | .publishHybrid handle request => some (handle, request.fullBlockHashes)
  | .publishHybridMtp handle request => some (handle, request.fullBlockHashes)
  | _ => none

/-- The call moves a lease from one handle to another. -/
def Op.relocates (w : World H) : Op H → Prop
  | .move source target =>
    source ≠ target ∧ source < w.leases.length ∧ target < w.leases.length
  | _ => False

instance (w : World H) (op : Op H) : Decidable (op.relocates w) := by
  unfold Op.relocates
  split <;> infer_instance

/-- All a call can do, returning or throwing. -/
inductive Effect (w : World H) (op : Op H) : World H → Prop where
  /-- No lease changed, and nothing entered the cache. -/
  | kept (hop : ¬op.relocates w) (m' : ContextCacheManager H) (hsound : m'.Sound w.pins)
      (hev : ContextCacheManager.Evolves [] [] w.manager m') : Effect w op ⟨m', w.leases⟩
  /-- One lease grew or gave up snapshots. -/
  | adjusted (hop : ¬op.relocates w) (handle : Nat) (held : Held H)
      (hheld : w.leases[handle]? = some held) (s' : Session H)
      (hstep : Session.Step (w.others handle) ⟨w.manager, held.lease⟩ s') :
      Effect w op ⟨s'.manager, w.leases.set handle { held with lease := s'.lease }⟩
  | acquired (request : ContextCacheManager.AcquireRequest H) (hashes : List H)
      (tokenCount : Int) (policy : ContextCacheLookupPolicy) (coverage : Option (Int × Int))
      (hop : op = .acquire request hashes tokenCount policy coverage)
      (plan : ReusePlan H) (lease : CacheRequestLease H) (m' : ContextCacheManager H)
      (hplan : plan.Bound w.manager.baseIndex w.manager.records.cacheLedger hashes
        w.manager.pageSize)
      (hacq : Session.Acquired w.manager w.pins plan lease m') :
      Effect w op ⟨m', w.leases ++ [.acquired plan lease]⟩
  | published (handle : Nat) (hashes : List H) (count : Nat)
      (hop : op.publication w.manager.pageSize = some (handle, hashes.take count))
      (held : Held H) (hheld : w.leases[handle]? = some held) (result : PublishResult) (m' : ContextCacheManager H)
      (hpub : Session.Published (w.others handle) hashes count ⟨w.manager, held.lease⟩ result
        ⟨m', held.lease⟩) :
      Effect w op ⟨m', w.leases.set handle (held.publish result)⟩
  | declared (hop : op = .declare) : Effect w op ⟨w.manager, w.leases ++ [({} : Held H)]⟩
  | released (handle : Nat) (hop : op = .release handle) (held : Held H)
      (hheld : w.leases[handle]? = some held) (pools : ResourcePools)
      (hsound : ({ w.manager with pools := pools } : ContextCacheManager H).Sound
        (w.others handle)) :
      Effect w op ⟨{ w.manager with pools := pools }, w.leases.set handle {}⟩
  | moved (source target : Nat) (hop : op = .move source target) (hne : source ≠ target)
      (held old : Held H) (hheld : w.leases[source]? = some held)
      (hold : w.leases[target]? = some old) (pools : ResourcePools)
      (hsound : ({ w.manager with pools := pools } : ContextCacheManager H).Sound
        (w.others target)) :
      Effect w op ⟨{ w.manager with pools := pools }, (w.leases.set target held).set source {}⟩

section Calls

variable {w w' : World H} {op : Op H} {handle : Nat} {held : Held H}

/-- The invariant of one handle against the others. -/
theorem Sound.session (h : w.Sound) (hheld : w.leases[handle]? = some held) :
    Session.Sound ⟨w.manager, held.lease⟩ (w.others handle) where
  manager := by
    rw [← pins_eq hheld]
    exact h.manager
  lease := h.leases held (List.mem_of_getElem? hheld)

theorem Sound.set (h : w.Sound) (hheld : w.leases[handle]? = some held) {new : Held H}
    {m' : ContextCacheManager H} (hs : Session.Sound ⟨m', new.lease⟩ (w.others handle)) :
    Sound ⟨m', w.leases.set handle new⟩ where
  manager := by
    show m'.Sound (pinsOf (w.leases.set handle new))
    rw [pinsOf_set hheld]
    exact hs.manager
  leases := by
    intro x hx
    rcases List.mem_or_eq_of_mem_set hx with hx | rfl
    · exact h.leases x hx
    · exact hs.lease

theorem pinsOf_move {leases : List (Held H)} {source target : Nat} {held old : Held H}
    (hne : source ≠ target) (hheld : leases[source]? = some held)
    (hold : leases[target]? = some old) :
    pinsOf ((leases.set target held).set source {}) = pinsOf (leases.set target {}) :=
  sum_map_move hne hheld hold rfl

theorem Effect.sound (he : Effect w op w') (h : w.Sound) : w'.Sound := by
  cases he with
  | kept hop m' hsound hev => exact { manager := hsound, leases := h.leases }
  | adjusted hop handle held hheld s' hstep => exact h.set hheld hstep.sound
  | acquired request hashes tokenCount policy coverage hop plan lease m' hplan hacq =>
    refine { manager := ?_, leases := ?_ }
    · show m'.Sound (pinsOf (w.leases ++ [.acquired plan lease]))
      rw [pinsOf_append]
      exact hacq.sound.manager
    · intro x hx
      rcases List.mem_append.1 hx with hx | hx
      · exact h.leases x hx
      · cases List.mem_singleton.1 hx
        exact hacq.sound.lease
  | published handle hashes count hop held hheld result m' hpub =>
    refine h.set hheld ?_
    rw [show (held.publish result).lease = held.lease by
      unfold Held.publish
      split <;> rfl]
    exact hpub.sound
  | declared hop =>
    refine { manager := ?_, leases := ?_ }
    · show w.manager.Sound (pinsOf (w.leases ++ [({} : Held H)]))
      rw [pinsOf_append, Multiset.coe_nil, zero_add]
      exact h.manager
    · intro x hx
      rcases List.mem_append.1 hx with hx | hx
      · exact h.leases x hx
      · cases List.mem_singleton.1 hx
        exact CacheRequestLease.wellFormed_default
  | released handle hop held hheld pools hsound =>
    refine h.set hheld
      { manager := by simpa using hsound, lease := CacheRequestLease.wellFormed_default }
  | moved source target hop hne held old hheld hold pools hsound =>
    refine { manager := ?_, leases := ?_ }
    · show ContextCacheManager.Sound _ (pinsOf ((w.leases.set target held).set source {}))
      rw [pinsOf_move hne hheld hold]
      exact hsound
    · intro x hx
      rcases List.mem_or_eq_of_mem_set hx with hx | rfl
      · rcases List.mem_or_eq_of_mem_set hx with hx | rfl
        · exact h.leases x hx
        · exact h.leases _ (List.mem_of_getElem? hheld)
      · exact CacheRequestLease.wellFormed_default

theorem Effect.pageSize (he : Effect w op w') : w'.manager.pageSize = w.manager.pageSize := by
  cases he with
  | kept hop m' hsound hev => exact hev.pageSize
  | adjusted hop handle held hheld s' hstep => exact hstep.evolves.pageSize
  | acquired request hashes tokenCount policy coverage hop plan lease m' hplan hacq =>
    exact hacq.evolves.pageSize
  | published handle hashes count hop held hheld result m' hpub => exact hpub.evolves.pageSize
  | declared hop => rfl
  | released handle hop held hheld pools hsound => rfl
  | moved source target hop hne held old hheld hold pools hsound => rfl

/-- A mapping that entered the base index is a block some handle published. -/
theorem Effect.indexed (he : Effect w op w') {hash : H} {page : PageId}
    (hl : w'.manager.baseIndex.lookup hash = some page) :
    w.manager.baseIndex.lookup hash = some page ∨
      ∃ handle blocks held, ∃ j : Nat, op.publication w.manager.pageSize = some (handle, blocks) ∧
        w.leases[handle]? = some held ∧ blocks[j]? = some hash ∧
        held.lease.basePages[j]? = some page := by
  have hold : ContextCacheManager.Evolves [] [] w.manager w'.manager →
      w.manager.baseIndex.lookup hash = some page := fun hev =>
    (hev.indexed hash page hl).resolve_right (by simp)
  cases he with
  | kept hop m' hsound hev => exact Or.inl (hold hev)
  | adjusted hop handle held hheld s' hstep => exact Or.inl (hold hstep.evolves)
  | acquired request hashes tokenCount policy coverage hop plan lease m' hplan hacq =>
    exact Or.inl (hold hacq.evolves)
  | published handle hashes count hop held hheld result m' hpub =>
    refine (hpub.evolves.indexed hash page hl).imp_right fun hmem => ?_
    obtain ⟨j, hj⟩ := List.mem_iff_getElem?.1 hmem
    obtain ⟨hhash, hpage⟩ := List.getElem?_zip_eq_some.1 hj
    exact ⟨handle, _, held, j, hop, hheld, hhash, hpage⟩
  | declared hop => exact Or.inl hl
  | released handle hop held hheld pools hsound => exact Or.inl hl
  | moved source target hop hne held old hheld hold pools hsound => exact Or.inl hl

/-- What a throwing call guarantees. -/
def Fails (w : World H) (op : Op H) (e : Check) (w' : World H) : Prop :=
  e.internal = false ∧ Effect w op w'

theorem Effect.refl (h : w.Sound) (hop : ¬op.relocates w) : Effect w op w :=
  .kept hop w.manager h.manager (.refl _)

theorem onHandle_spec {α : Type} {f : Checked Check (Session H) α} {ok : α → World H → Prop}
    {bad : Check → World H → Prop} (hnone : w.leases[handle]? = none → bad .leaseForeign w)
    (hf : ∀ held, w.leases[handle]? = some held → f.Ensures
        (fun a s' => ok a ⟨s'.manager, w.leases.set handle { held with lease := s'.lease }⟩)
        (fun e s' => bad e ⟨s'.manager, w.leases.set handle { held with lease := s'.lease }⟩)
        ⟨w.manager, held.lease⟩) :
    (onHandle handle f).Ensures ok bad w := by
  unfold onHandle
  rw [ensures_bind, ensures_read]
  cases hheld : w.leases[handle]? with
  | none => exact hnone hheld
  | some held =>
    simp only
    rw [ensures_zoom]
    exact hf held hheld

theorem onHandle_step (h : w.Sound) (hop : ¬op.relocates w) {α : Type}
    {f : Checked Check (Session H) α} (hf : ∀ A s, Session.Sound s A →
      f.Ensures (fun _ s' => Session.Step A s s') (Session.Fails A s) s) :
    (onHandle handle f).Ensures (fun _ w' => Effect w op w') (Fails w op) w := by
  refine onHandle_spec (fun _ => ⟨rfl, .refl h hop⟩) ?_
  intro held hheld
  refine (hf _ _ (h.session hheld)).mono ?_ ?_
  · intro _ s' hstep
    exact .adjusted hop handle held hheld s' hstep
  · rintro e s' ⟨he, hstep⟩
    exact ⟨he, .adjusted hop handle held hheld s' hstep⟩

/-- An operation that is a `Session.Published`. -/
theorem publishOn_spec (h : w.Sound) (hmove : ¬op.relocates w) {hashes : List H} {count : Nat}
    (hop : op.publication w.manager.pageSize = some (handle, hashes.take count))
    {f : Checked Check (Session H) PublishResult}
    (hf : ∀ A lease, Session.Sound ⟨w.manager, lease⟩ A →
      f.Ensures (Session.Published A hashes count ⟨w.manager, lease⟩)
        (Session.Fails A ⟨w.manager, lease⟩) ⟨w.manager, lease⟩) :
    (publishOn handle f).Ensures (fun _ w' => Effect w op w') (Fails w op) w := by
  unfold publishOn
  rw [ensures_bind]
  refine onHandle_spec (fun _ => ⟨rfl, .refl h hmove⟩) ?_
  intro held hheld
  refine (hf _ _ (h.session hheld)).mono ?_ ?_
  · rintro result ⟨m', lease'⟩ hp
    obtain rfl : lease' = held.lease := hp.lease
    have hi : handle < w.leases.length := (List.getElem?_eq_some_iff.1 hheld).1
    unfold mark
    rw [ensures_modify]
    simp only [List.getElem?_set_self hi, List.set_set]
    exact .published handle hashes count hop held hheld result m' hp
  · rintro e s' ⟨he, hstep⟩
    exact ⟨he, .adjusted hmove handle held hheld s' hstep⟩

/-- The end of a lease throws only when there is no such handle. -/
theorem releaseHandle_spec (h : w.Sound) :
    (releaseHandle handle).Ensures
      (fun _ w' => ∃ held pools, w.leases[handle]? = some held ∧
        ({ w.manager with pools := pools } : ContextCacheManager H).Sound (w.others handle) ∧
        w' = ⟨{ w.manager with pools := pools }, w.leases.set handle {}⟩)
      (fun e w' => e.internal = false ∧ w.leases[handle]? = none ∧ w' = w) w := by
  unfold releaseHandle
  rw [ensures_bind]
  refine onHandle_spec (fun hnone => ⟨rfl, hnone, rfl⟩) ?_
  intro held hheld
  refine (Session.release_spec (h.session hheld)).mono ?_ fun _ _ hbad => hbad.elim
  rintro _ ⟨m', lease'⟩ ⟨rfl, pools, rfl, hsound⟩
  have hi : handle < w.leases.length := (List.getElem?_eq_some_iff.1 hheld).1
  unfold mark
  rw [ensures_modify]
  simp only [List.getElem?_set_self hi, List.set_set]
  exact ⟨held, pools, hheld, hsound, rfl⟩

theorem move_spec (h : w.Sound) {source target : Nat} (hop : op = .move source target) :
    (move (H := H) source target).Ensures (fun _ w' => Effect w op w') (Fails w op) w := by
  subst hop
  unfold move
  rw [ensures_ite]
  refine ⟨fun heq => .refl h fun hmove => hmove.1 heq, fun hne => ?_⟩
  rw [ensures_bind, ensures_read]
  cases hheld : w.leases[source]? with
  | none =>
    refine ⟨rfl, .refl h fun hmove => ?_⟩
    exact absurd hmove.2.1 (Nat.not_lt.2 (List.getElem?_eq_none_iff.1 hheld))
  | some held =>
    simp only
    rw [ensures_bind]
    refine (releaseHandle_spec h).mono ?_ ?_
    · rintro _ _ ⟨old, pools, hold, hsound, rfl⟩
      rw [ensures_modify]
      simp only [List.set_set]
      exact .moved source target rfl hne held old hheld hold pools hsound
    · rintro e _ ⟨he, hnone, rfl⟩
      refine ⟨he, .refl h fun hmove => ?_⟩
      exact absurd hmove.2.2 (Nat.not_lt.2 (List.getElem?_eq_none_iff.1 hnone))

/-- One call: an effect, and never an internal check. -/
theorem call_spec (h : w.Sound) (op : Op H) :
    (call op).Ensures (fun _ w' => Effect w op w') (Fails w op) w := by
  cases op with
  | declare => exact .declared rfl
  | acquire request hashes tokenCount policy coverage =>
    unfold call
    rw [ensures_bind, ensures_zoom]
    refine (Session.acquireRequest_spec h.manager request hashes tokenCount policy
      coverage).mono ?_ ?_
    · rintro ⟨_ | lease, status, plan⟩ m' ⟨hplan, hresult⟩
      · exact .kept id m' hresult.1 hresult.2
      · exact .acquired request hashes tokenCount policy coverage rfl plan lease m' hplan hresult
    · rintro e m' ⟨he, hsound, hev⟩
      exact ⟨he, .kept id m' hsound hev⟩
  | growBasePages handle count =>
    exact Ensures.bind
      (onHandle_step h id fun _ _ hs => Session.growBasePages_spec hs count) fun _ _ he => he
  | growSpecPages handle baseCount draftCount =>
    exact Ensures.bind
      (onHandle_step h id fun _ _ hs => Session.growSpecPages_spec hs baseCount draftCount)
      fun _ _ he => he
  | reserveHybridSnapshots handle needsPartialKvSnapshot =>
    exact Ensures.bind
      (onHandle_step h id fun _ _ hs =>
        Session.reserveHybridSnapshots_spec hs needsPartialKvSnapshot) fun _ _ he => he
  | releaseRestoredHybridSnapshots handle =>
    exact onHandle_step h id fun _ _ hs => Session.releaseRestoredHybridSnapshots_spec hs
  | retireHybridSnapshotReservation handle reservation =>
    exact onHandle_step h id fun _ _ hs =>
      Session.retireHybridSnapshotReservation_spec hs reservation
  | publish handle request =>
    refine publishOn_spec h id rfl fun A s hs => ?_
    refine (Session.publish_spec hs request).mono (fun _ _ hp => hp) ?_
    rintro e _ ⟨he, rfl⟩
    exact .here hs he
  | publishHybrid handle request =>
    refine publishOn_spec h id ?_ fun _ _ hs =>
      (Session.publishHybrid_spec hs request).mono (fun _ _ hp => hp) fun _ _ hu => hu.fails hs
    rw [List.take_length, Op.publication]
  | publishHybridMtp handle request =>
    refine publishOn_spec h id ?_ fun _ _ hs =>
      (Session.publishHybridMtp_spec hs request).mono (fun _ _ hp => hp) fun _ _ hu => hu.fails hs
    rw [List.take_length, Op.publication]
  | move source target => exact move_spec h rfl
  | release handle =>
    refine (releaseHandle_spec h).mono ?_ ?_
    · rintro _ _ ⟨held, pools, hheld, hsound, rfl⟩
      exact .released handle rfl held hheld pools hsound
    · rintro e _ ⟨he, -, rfl⟩
      exact ⟨he, .refl h id⟩

theorem call_effect (h : w.Sound) (op : Op H) : Effect w op (call op w).2 := by
  have hspec := call_spec h op
  unfold Ensures at hspec
  rcases hcall : call op w with ⟨e | a, w'⟩
  · rw [hcall] at hspec
    exact hspec.2
  · rw [hcall] at hspec
    exact hspec

/-- No call fires a check that only a broken invariant can fire. -/
theorem call_internal (h : w.Sound) {e : Check} (he : (call op w).1 = .error e) :
    e.internal = false := by
  have hspec := call_spec h op
  unfold Ensures at hspec
  rcases hcall : call op w with ⟨e' | a, w'⟩
  · rw [hcall] at hspec he
    cases he
    exact hspec.1
  · rw [hcall] at he
    cases he

end Calls

/-- A property that every effect preserves holds after every run. -/
theorem run_induction {P : World H → Prop}
    (hstep : ∀ w op w', w.Sound → P w → Effect w op w' → P w') :
    ∀ (ops : List (Op H)) (w : World H), w.Sound → P w → (run ops w).Sound ∧ P (run ops w) := by
  intro ops
  induction ops with
  | nil => intro w h hp; exact ⟨h, hp⟩
  | cons op ops ih =>
    intro w h hp
    have he := call_effect h op
    exact ih (call op w).2 (he.sound h) (hstep w op _ h hp he)

theorem run_sound (ops : List (Op H)) {w : World H} (h : w.Sound) : (run ops w).Sound :=
  (run_induction (P := fun _ => True) (fun _ _ _ _ _ _ => trivial) ops w h trivial).1

theorem start_sound {pageSize maxRecords : Int} {capacities : ResourceDemand}
    {contract : Option SpecReuseContract} {m : ContextCacheManager H}
    (h : ContextCacheManager.make pageSize capacities maxRecords contract = .ok m) :
    (start m).Sound := by
  unfold ContextCacheManager.make at h
  simp only [bind_eq_ok, requireThat_eq_ok] at h
  obtain ⟨_, hpage, _, -, _, -, pools, hpools, hm⟩ := h
  cases hm
  refine { manager := ?_, leases := by simp [start] }
  exact
    { accounts := ResourcePools.make_accounts hpools
      inverse := BaseBlockIndex.inverse_empty
      paths := PathsIndexed.empty _
      carries := SpecPagedStateIndex.carries_empty
      coherent := CacheRecordStore.coherent_empty _
      pageSize_pos := hpage
      limit := Nat.zero_le _ }

end World

end EdgeLLM.Ports.ContextCache
