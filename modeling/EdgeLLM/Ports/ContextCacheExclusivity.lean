import EdgeLLM.Ports.ContextCacheReachable

/-!
# Who may write a page

Positions of a lease from its reused prefix on are private: no other lease
holds the page privately, and until the lease publishes the block no record
and no reused prefix reads it.  The invariant counts the private pages of all
leases in one multiset without repetition, so that exclusivity across leases
is a property of one sum.
-/

namespace EdgeLLM.Ports.ContextCache

open Verified

set_option linter.unusedSectionVars false

variable {H : Type} [DecidableEq H]

namespace Held

/-- The block path of one page type: `basePages()` or `draftPages()`. -/
def path (held : Held H) : ResourceType → List PageId
  | .baseKvPage => held.lease.basePages
  | .draftKvPage => held.lease.specPages
  | .recurrentSnapshot | .partialKvSnapshot => []

/-- The prefix bound at acquisition. -/
def sharedPages (held : Held H) (t : ResourceType) : List PageId :=
  (held.pages t).take (held.reused t)

/-- The rest of the path. -/
def privatePages (held : Held H) (t : ResourceType) : List PageId :=
  (held.pages t).drop (held.reused t)

/-- Page `p` is private to the handle at position `i`, which it has not
published. -/
structure Owns (held : Held H) (t : ResourceType) (i : Nat) (p : PageId) : Prop where
  reused : held.reused t ≤ i
  published : held.published ≤ i
  page : (held.pages t)[i]? = some p

variable {held : Held H} {t : ResourceType} {i : Nat} {p : PageId}

theorem path_eq (h : held.lease.WellFormed) (ht : t.isPage = true) : held.path t = held.pages t := by
  cases t with
  | baseKvPage => exact h.base
  | draftKvPage => exact h.spec
  | recurrentSnapshot => cases ht
  | partialKvSnapshot => cases ht

theorem mem_private (hreused : held.reused t ≤ i) (hp : (held.pages t)[i]? = some p) :
    p ∈ held.privatePages t := by
  refine List.mem_of_getElem? (i := i - held.reused t) ?_
  rw [privatePages, List.getElem?_drop, Nat.add_sub_cancel' hreused, hp]

theorem mem_shared (hlt : i < held.reused t) (hp : (held.pages t)[i]? = some p) :
    p ∈ held.sharedPages t := by
  refine List.mem_of_getElem? (i := i) ?_
  rw [sharedPages, List.getElem?_take_of_lt hlt, hp]

theorem pinned_of_mem (hp : p ∈ held.pages t) : ResourceId.mk t p ∈ held.lease.activeResources :=
  mem_pagesOf.1 hp

variable (result : PublishResult)

@[simp] theorem publish_lease : (held.publish result).lease = held.lease := by
  unfold publish
  split <;> rfl

@[simp] theorem publish_pages : (held.publish result).pages t = held.pages t := by
  rw [pages, publish_lease, pages]

@[simp] theorem publish_reused : (held.publish result).reused t = held.reused t := by
  unfold publish
  split <;> cases t <;> rfl

@[simp] theorem publish_reusedBase : (held.publish result).reusedBase = held.reusedBase := by
  unfold publish
  split <;> rfl

@[simp] theorem publish_reuseTokenLength :
    (held.publish result).reuseTokenLength = held.reuseTokenLength := by
  unfold publish
  split <;> rfl

@[simp] theorem publish_sharedPages : (held.publish result).sharedPages t = held.sharedPages t := by
  rw [sharedPages, publish_pages, publish_reused, sharedPages]

@[simp] theorem publish_privatePages :
    (held.publish result).privatePages t = held.privatePages t := by
  rw [privatePages, publish_pages, publish_reused, privatePages]

theorem published_le_publish : held.published ≤ (held.publish result).published := by
  unfold publish
  split
  · exact Nat.le_max_left _ _
  · exact Nat.le_refl _

end Held

namespace World

variable {w w' : World H} {op : Op H} {t : ResourceType}

/-- No record and no reused prefix holds the page. -/
structure Unread (w : World H) (t : ResourceType) (p : PageId) : Prop where
  uncached : ResourceId.mk t p ∉ w.manager.records.cacheLedger
  unshared : ∀ other ∈ w.leases, p ∉ other.sharedPages t

/-- The private pages of all handles. -/
def privateOf (leases : List (Held H)) (t : ResourceType) : Multiset PageId :=
  (leases.map fun held => (↑(held.privatePages t) : Multiset PageId)).sum

/-- The invariant: private pages are held once, and unread until published. -/
structure Exclusive (w : World H) (t : ResourceType) : Prop where
  reused : ∀ held ∈ w.leases, held.reused t ≤ (held.pages t).length
  nodup : (privateOf w.leases t).Nodup
  unread : ∀ held ∈ w.leases, ∀ i p, held.Owns t i p → w.Unread t p

section Preservation

variable {leases : List (Held H)} {m' : ContextCacheManager H} {held new : Held H} {handle : Nat}

theorem pages_default : ({} : Held H).pages t = [] := rfl

variable {i j : Nat} {p : PageId} {pinned : Multiset ResourceId}

theorem not_owns_default : ¬({} : Held H).Owns t i p := by
  intro h
  have := h.page
  simp [pages_default] at this

theorem shared_default : p ∉ ({} : Held H).sharedPages t := by
  simp [Held.sharedPages, pages_default]

theorem private_default : (↑(({} : Held H).privatePages t) : Multiset PageId) = 0 := by
  simp [Held.privatePages, pages_default]

/-- A change that takes handles away and lets nothing into the cache. -/
theorem Exclusive.shrink (h : w.Exclusive t) (hle : privateOf leases t ≤ privateOf w.leases t)
    (hmem : ∀ x ∈ leases, x ∈ w.leases ∨ x = {})
    (hcache : ∀ p, ResourceId.mk t p ∈ m'.records.cacheLedger →
      ResourceId.mk t p ∈ w.manager.records.cacheLedger) : Exclusive ⟨m', leases⟩ t where
  reused x hx := by
    rcases hmem x hx with hx | rfl
    · exact h.reused x hx
    · cases t <;> exact Nat.le_refl _
  nodup := Multiset.nodup_of_le hle h.nodup
  unread x hx i p howns := by
    rcases hmem x hx with hx | rfl
    · have hu := h.unread x hx i p howns
      refine { uncached := fun hc => hu.uncached (hcache p hc), unshared := ?_ }
      intro other hother
      rcases hmem other hother with hother | rfl
      · exact hu.unshared other hother
      · exact shared_default
    · exact absurd howns not_owns_default

/-- A page stays unread when it enters neither the cache nor a reused prefix. -/
theorem Unread.mono (h : w.Unread t p) (hcache : ResourceId.mk t p ∈ m'.records.cacheLedger →
      ResourceId.mk t p ∈ w.manager.records.cacheLedger)
    (hshared : ∀ x ∈ leases, p ∈ x.sharedPages t → ∃ y ∈ w.leases, p ∈ y.sharedPages t) :
    Unread ⟨m', leases⟩ t p where
  uncached hc := h.uncached (hcache hc)
  unshared x hx hp := by
    obtain ⟨y, hy, hpy⟩ := hshared x hx hp
    exact h.unshared y hy hpy

theorem shared_grow {fresh : List PageId} (hle : held.reused t ≤ (held.pages t).length)
    (hpages : new.pages t = held.pages t ++ fresh) (hreused : new.reused t = held.reused t) :
    new.sharedPages t = held.sharedPages t := by
  rw [Held.sharedPages, hpages, hreused, List.take_append_of_le_length hle, Held.sharedPages]

theorem not_held_of_fresh {fresh : List PageId} {C : Multiset ResourceId}
    (hfresh : Session.FreshPages t fresh pinned C) (hpinned : ∀ r ∈ w.pins, r ∈ pinned) :
    ∀ x ∈ w.leases, ∀ p ∈ fresh, p ∉ x.pages t := fun x hx p hp hpx =>
  hfresh.unpinned p hp (hpinned _ (mem_pins.2 ⟨x, hx, Held.pinned_of_mem hpx⟩))

theorem Exclusive.gain (h : w.Exclusive t) (hheld : w.leases[handle]? = some held)
    {fresh : List PageId} (hpages : new.pages t = held.pages t ++ fresh)
    (hreused : new.reused t = held.reused t) (hpub : new.published = held.published)
    (hfresh : Session.FreshPages t fresh w.pins m'.records.cacheLedger)
    (hcache : ∀ p, ResourceId.mk t p ∈ m'.records.cacheLedger →
      ResourceId.mk t p ∈ w.manager.records.cacheLedger) :
    Exclusive ⟨m', w.leases.set handle new⟩ t := by
  have hmem := List.mem_of_getElem? hheld
  have hle := h.reused held hmem
  have hshared := shared_grow hle hpages hreused
  have hprivate : new.privatePages t = held.privatePages t ++ fresh := by
    rw [Held.privatePages, hpages, hreused, List.drop_append_of_le_length hle, Held.privatePages]
  have hunheld := not_held_of_fresh hfresh fun _ hr => hr
  have hsum : privateOf (w.leases.set handle new) t = ↑fresh + privateOf w.leases t := by
    have hset := sum_map_set
      (f := fun held : Held H => (↑(held.privatePages t) : Multiset PageId)) (w := new) hheld
    rw [hprivate, ← Multiset.coe_add, add_assoc] at hset
    exact add_left_cancel hset
  have hshares : ∀ other ∈ w.leases.set handle new, ∃ x ∈ w.leases,
      other.sharedPages t = x.sharedPages t := by
    intro other hother
    rcases List.mem_or_eq_of_mem_set hother with hother | rfl
    · exact ⟨other, hother, rfl⟩
    · exact ⟨held, hmem, hshared⟩
  have hkeeps : ∀ p, w.Unread t p → Unread ⟨m', w.leases.set handle new⟩ t p := by
    intro p hu
    refine hu.mono (hcache p) fun other hother hp => ?_
    obtain ⟨x, hx, heq⟩ := hshares other hother
    exact ⟨x, hx, heq ▸ hp⟩
  refine { reused := ?_, nodup := ?_, unread := ?_ }
  · intro x hx
    rcases List.mem_or_eq_of_mem_set hx with hx | rfl
    · exact h.reused x hx
    · rw [hreused, hpages, List.length_append]
      exact Nat.le_add_right_of_le hle
  · show (privateOf (w.leases.set handle new) t).Nodup
    rw [hsum, Multiset.nodup_add]
    refine ⟨hfresh.nodup, h.nodup, Multiset.disjoint_left.2 ?_⟩
    intro p hp hprivate
    obtain ⟨x, hx, hpx⟩ := mem_sum_map.1 hprivate
    exact hunheld x hx p hp (List.mem_of_mem_drop hpx)
  · intro x hx i p howns
    rcases List.mem_or_eq_of_mem_set hx with hx | rfl
    · exact hkeeps p (h.unread x hx i p howns)
    · have hpage := howns.page
      rw [hpages] at hpage
      by_cases hi : i < (held.pages t).length
      · rw [List.getElem?_append_left hi] at hpage
        exact hkeeps p (h.unread held hmem i p
          { reused := hreused ▸ howns.reused, published := hpub ▸ howns.published, page := hpage })
      · rw [List.getElem?_append_right (Nat.le_of_not_lt hi)] at hpage
        have hp := List.mem_of_getElem? hpage
        refine { uncached := hfresh.uncached p hp, unshared := ?_ }
        intro other hother hps
        obtain ⟨y, hy, heq⟩ := hshares other hother
        rw [heq] at hps
        exact hunheld y hy p hp (List.mem_of_mem_take hps)

/-- A new handle on cached pages followed by fresh ones. -/
theorem Exclusive.join (h : w.Exclusive t) {bound fresh : List PageId}
    (hpages : new.pages t = bound ++ fresh) (hreused : new.reused t = bound.length)
    (hbound : ∀ p ∈ bound, ResourceId.mk t p ∈ w.manager.records.cacheLedger ∧
      ResourceId.mk t p ∈ pinned) (hpinned : ∀ r ∈ w.pins, r ∈ pinned)
    (hfresh : Session.FreshPages t fresh pinned m'.records.cacheLedger)
    (hcache : ∀ p, ResourceId.mk t p ∈ m'.records.cacheLedger →
      ResourceId.mk t p ∈ w.manager.records.cacheLedger) : Exclusive ⟨m', w.leases ++ [new]⟩ t := by
  have hshared : new.sharedPages t = bound := by
    rw [Held.sharedPages, hpages, hreused, List.take_left]
  have hprivate : new.privatePages t = fresh := by
    rw [Held.privatePages, hpages, hreused, List.drop_left]
  have hunheld := not_held_of_fresh hfresh hpinned
  have hsum : privateOf (w.leases ++ [new]) t = ↑fresh + privateOf w.leases t := by
    simp [privateOf, hprivate, add_comm]
  refine { reused := ?_, nodup := ?_, unread := ?_ }
  · intro x hx
    rcases List.mem_append.1 hx with hx | hx
    · exact h.reused x hx
    · cases List.mem_singleton.1 hx
      rw [hreused, hpages, List.length_append]
      exact Nat.le_add_right _ _
  · show (privateOf (w.leases ++ [new]) t).Nodup
    rw [hsum, Multiset.nodup_add]
    refine ⟨hfresh.nodup, h.nodup, Multiset.disjoint_left.2 ?_⟩
    intro p hp hprivate
    obtain ⟨x, hx, hpx⟩ := mem_sum_map.1 hprivate
    exact hunheld x hx p hp (List.mem_of_mem_drop hpx)
  · intro x hx i p howns
    rcases List.mem_append.1 hx with hx | hx
    · have hu := h.unread x hx i p howns
      refine { uncached := fun hc => hu.uncached (hcache p hc), unshared := ?_ }
      intro other hother
      rcases List.mem_append.1 hother with hother | hother
      · exact hu.unshared other hother
      · cases List.mem_singleton.1 hother
        rw [hshared]
        exact fun hp => hu.uncached (hbound p hp).1
    · cases List.mem_singleton.1 hx
      have hp : p ∈ fresh := hprivate ▸ Held.mem_private howns.reused howns.page
      refine { uncached := hfresh.uncached p hp, unshared := ?_ }
      intro other hother hps
      rcases List.mem_append.1 hother with hother | hother
      · exact hunheld other hother p hp (List.mem_of_mem_take hps)
      · cases List.mem_singleton.1 hother
        rw [hshared] at hps
        exact hfresh.unpinned p hp (hbound p hps).2

/-- A handle holds a private page at one position. -/
theorem Exclusive.private_inj (h : w.Exclusive t) (hheld : w.leases[handle]? = some held)
    (hi : held.reused t ≤ i) (hj : held.reused t ≤ j) (hpi : (held.pages t)[i]? = some p)
    (hpj : (held.pages t)[j]? = some p) : i = j := by
  have hone : (held.privatePages t).Nodup := by
    refine Multiset.coe_nodup.1 (Multiset.nodup_of_le ?_ h.nodup)
    exact le_sum_map (g := fun x => (↑(x.privatePages t) : Multiset PageId)) hheld
  have hlen := (List.getElem?_eq_some_iff.1 hpi).1
  have hidx : i - held.reused t = j - held.reused t := by
    refine (List.getElem?_inj ?_ hone).1 ?_
    · rw [Held.privatePages, List.length_drop]
      omega
    · rw [Held.privatePages, List.getElem?_drop, List.getElem?_drop,
        Nat.add_sub_cancel' hi, Nat.add_sub_cancel' hj, hpi, hpj]
  omega

theorem Exclusive.owner_eq (h : w.Exclusive t) {a b : Nat} {other : Held H}
    (ha : w.leases[a]? = some held) (hb : w.leases[b]? = some other) (hi : held.reused t ≤ i)
    (hj : other.reused t ≤ j) (hpi : (held.pages t)[i]? = some p)
    (hpj : (other.pages t)[j]? = some p) : a = b := by
  by_contra hne
  exact slot_exclusive h.nodup ha hb hne (Multiset.mem_coe.2 (Held.mem_private hi hpi))
    (Multiset.mem_coe.2 (Held.mem_private hj hpj))

/-- A handle published: the cache gained only blocks below its new count. -/
theorem Exclusive.publish (h : w.Exclusive t) (hheld : w.leases[handle]? = some held)
    (result : PublishResult) (hcache : ∀ p, ResourceId.mk t p ∈ m'.records.cacheLedger →
      ResourceId.mk t p ∈ w.manager.records.cacheLedger ∨
        ∃ j, j < (held.publish result).published ∧ (held.pages t)[j]? = some p) :
    Exclusive ⟨m', w.leases.set handle (held.publish result)⟩ t := by
  have hmem := List.mem_of_getElem? hheld
  have hi : handle < w.leases.length := (List.getElem?_eq_some_iff.1 hheld).1
  have hold : ∀ x ∈ w.leases.set handle (held.publish result), ∃ y ∈ w.leases,
      x.pages t = y.pages t ∧ x.reused t = y.reused t ∧ y.published ≤ x.published := by
    intro x hx
    rcases List.mem_or_eq_of_mem_set hx with hx | rfl
    · exact ⟨x, hx, rfl, rfl, Nat.le_refl _⟩
    · exact ⟨held, hmem, by simp, by simp, Held.published_le_publish result⟩
  have hsum : privateOf (w.leases.set handle (held.publish result)) t = privateOf w.leases t := by
    have hset := sum_map_set
      (f := fun held : Held H => (↑(held.privatePages t) : Multiset PageId))
      (w := held.publish result) hheld
    simp only [Held.publish_privatePages] at hset
    exact add_left_cancel hset
  refine { reused := ?_, nodup := ?_, unread := ?_ }
  · intro x hx
    obtain ⟨y, hy, hpages, hreused, -⟩ := hold x hx
    rw [hpages, hreused]
    exact h.reused y hy
  · show (privateOf (w.leases.set handle (held.publish result)) t).Nodup
    rw [hsum]
    exact h.nodup
  · intro x hx i p howns
    obtain ⟨y, hy, hpages, hreused, hpub⟩ := hold x hx
    have hu : w.Unread t p := h.unread y hy i p
      { reused := hreused ▸ howns.reused
        published := hpub.trans howns.published
        page := hpages ▸ howns.page }
    refine { uncached := ?_, unshared := ?_ }
    · intro hc
      rcases hcache p hc with hc | ⟨j, hj, hpj⟩
      · exact hu.uncached hc
      · by_cases hjr : j < held.reused t
        · exact hu.unshared held hmem (Held.mem_shared hjr hpj)
        · -- `p` is private to `held` at `j`, so the owner is `held` and `i = j`
          have hjr : held.reused t ≤ j := Nat.le_of_not_lt hjr
          obtain ⟨a, ha⟩ := List.mem_iff_getElem?.1 hx
          by_cases hah : handle = a
          · subst hah
            rw [List.getElem?_set_self hi, Option.some.injEq] at ha
            subst ha
            have hpi := howns.page
            have hri := howns.reused
            rw [Held.publish_pages] at hpi
            rw [Held.publish_reused] at hri
            have hidx := h.private_inj hheld hri hjr hpi hpj
            have := howns.published
            omega
          · rw [List.getElem?_set_ne hah] at ha
            exact hah (h.owner_eq hheld ha hjr howns.reused hpj howns.page)
    · intro other hother
      obtain ⟨z, hz, hzpages, hzreused, -⟩ := hold other hother
      rw [Held.sharedPages, hzpages, hzreused]
      exact hu.unshared z hz

end Preservation

/-- What a publication can add to the pages of type `t`. -/
theorem published_pages {held : Held H} {handle count : Nat} {hashes : List H}
    {result : PublishResult} {m' : ContextCacheManager H} (hs : w.Sound)
    (hheld : w.leases[handle]? = some held)
    (hpub : Session.Published (w.others handle) hashes count ⟨w.manager, held.lease⟩ result
      ⟨m', held.lease⟩) (ht : t.isPage = true) {p : PageId}
    (hp : ResourceId.mk t p ∈ m'.records.cacheLedger) :
    ResourceId.mk t p ∈ w.manager.records.cacheLedger ∨
      ∃ j, j < (held.publish result).published ∧ (held.pages t)[j]? = some p := by
  have hsession := hs.session hheld
  have hm := hsession.manager.toConsistent
  have hm' := hpub.sound.manager.toConsistent
  cases hstatus : result.status with
  | existingRecord =>
    exact Or.inl (Session.page_of_evolves (hpub.existing hstatus) hm hm' ht hp)
  | published =>
    have hcount : count ≤ (held.publish result).published := by
      have hresult : result.publishedBaseFullBlockCount.toNat = count := by
        rw [hpub.count, Int.toNat_natCast]
      simp only [Held.publish, hstatus, hresult]
      exact Nat.le_max_right _ _
    cases t with
    | baseKvPage =>
      refine (hpub.evolves.bases hm' hm.paths hp).imp_right ?_
      rintro ⟨hash, hmem⟩
      obtain ⟨j, hj⟩ := List.mem_iff_getElem?.1 hmem
      obtain ⟨hhash, hpage⟩ := List.getElem?_zip_eq_some.1 hj
      have hlt := (List.getElem?_eq_some_iff.1 hhash).1
      rw [List.length_take] at hlt
      refine ⟨j, by omega, ?_⟩
      rw [Held.pages, ← hsession.lease.base]
      exact hpage
    | draftKvPage =>
      refine (hpub.evolves.drafts p hp).imp_right ?_
      intro hmem
      obtain ⟨j, hj⟩ := List.mem_iff_getElem?.1 hmem
      have hlt := (List.getElem?_eq_some_iff.1 hj).1
      rw [List.length_take] at hlt
      rw [List.getElem?_take_of_lt (by omega)] at hj
      refine ⟨j, by omega, ?_⟩
      rw [Held.pages, ← hsession.lease.spec]
      exact hj
    | recurrentSnapshot => cases ht
    | partialKvSnapshot => cases ht

theorem pagesOf_bindings_length (plan : ReusePlan H) (lease : CacheRequestLease H)
    (ht : t.isPage = true) :
    (Held.acquired plan lease).reused t = (pagesOf t plan.bindings).length := by
  cases t with
  | baseKvPage => rw [(pagesOf_bindings plan).1]; rfl
  | draftKvPage => rw [(pagesOf_bindings plan).2]; rfl
  | recurrentSnapshot => cases ht
  | partialKvSnapshot => cases ht

theorem Effect.shared (he : Effect w op w') (ht : t.isPage = true) (h : w.Exclusive t)
    {x : Held H} (hx : x ∈ w'.leases) {p : PageId} (hp : p ∈ x.sharedPages t) : ¬w.Unread t p := by
  have hold : ∀ y ∈ w.leases, p ∈ y.sharedPages t → ¬w.Unread t p :=
    fun y hy hpy hu => hu.unshared y hy hpy
  cases he with
  | kept hop m' hsound hev => exact hold x hx hp
  | adjusted hop handle held hheld s' hstep =>
    rcases List.mem_or_eq_of_mem_set hx with hx | rfl
    · exact hold x hx hp
    · have hmem := List.mem_of_getElem? hheld
      obtain ⟨fresh, hpages, -⟩ := hstep.pages t ht
      have hgrow : ({ held with lease := s'.lease } : Held H).pages t =
          held.pages t ++ fresh := hpages
      rw [shared_grow (h.reused held hmem) hgrow (by cases t <;> rfl)] at hp
      exact hold held hmem hp
  | acquired request hashes tokenCount policy coverage hop plan lease m' hplan hacq =>
    rcases List.mem_append.1 hx with hx | hx
    · exact hold x hx hp
    · cases List.mem_singleton.1 hx
      obtain ⟨fresh, hpages, -⟩ := hacq.pages t ht
      have hshared : (Held.acquired plan lease).sharedPages t = pagesOf t plan.bindings := by
        rw [Held.sharedPages, pagesOf_bindings_length plan lease ht]
        exact (congrArg _ hpages).trans List.take_left
      rw [hshared] at hp
      exact fun hu => hu.uncached (hplan.cached _ (mem_pagesOf.1 hp))
  | published handle hashes count hop held hheld result m' hpub =>
    rcases List.mem_or_eq_of_mem_set hx with hx | rfl
    · exact hold x hx hp
    · rw [Held.publish_sharedPages] at hp
      exact hold held (List.mem_of_getElem? hheld) hp
  | declared hop =>
    rcases List.mem_append.1 hx with hx | hx
    · exact hold x hx hp
    · cases List.mem_singleton.1 hx
      exact absurd hp shared_default
  | released handle hop held hheld pools hsound =>
    rcases List.mem_or_eq_of_mem_set hx with hx | rfl
    · exact hold x hx hp
    · exact absurd hp shared_default
  | moved source target hop hne held old hheld hold' pools hsound =>
    rcases List.mem_or_eq_of_mem_set hx with hx | rfl
    · rcases List.mem_or_eq_of_mem_set hx with hx | rfl
      · exact hold x hx hp
      · exact hold _ (List.mem_of_getElem? hheld) hp
    · exact absurd hp shared_default

theorem Effect.exclusive (he : Effect w op w') (hs : w.Sound) (ht : t.isPage = true)
    (h : w.Exclusive t) : w'.Exclusive t := by
  have hm := hs.manager.toConsistent
  cases he with
  | kept hop m' hsound hev =>
    exact h.shrink (le_refl _) (fun x hx => Or.inl hx) fun p hp =>
      Session.page_of_evolves hev hm hsound.toConsistent ht hp
  | adjusted hop handle held hheld s' hstep =>
    obtain ⟨fresh, hpages, hfresh⟩ := hstep.pages t ht
    rw [← pins_eq hheld] at hfresh
    refine h.gain hheld hpages (by cases t <;> rfl) rfl hfresh fun p hp => ?_
    exact Session.page_of_evolves hstep.evolves hm hstep.sound.manager.toConsistent ht hp
  | acquired request hashes tokenCount policy coverage hop plan lease m' hplan hacq =>
    obtain ⟨fresh, hpages, hfresh⟩ := hacq.pages t ht
    refine h.join hpages (pagesOf_bindings_length plan lease ht) ?_ ?_ hfresh ?_
    · intro p hp
      have hbind := mem_pagesOf.1 hp
      exact ⟨hplan.cached _ hbind, Multiset.mem_add.2 (Or.inl hbind)⟩
    · exact fun r hr => Multiset.mem_add.2 (Or.inr hr)
    · exact fun p hp =>
        Session.page_of_evolves hacq.evolves hm hacq.sound.manager.toConsistent ht hp
  | published handle hashes count hop held hheld result m' hpub =>
    exact h.publish hheld result fun p hp => published_pages hs hheld hpub ht hp
  | declared hop =>
    refine h.shrink ?_ ?_ fun p hp => hp
    · show privateOf (w.leases ++ [({} : Held H)]) t ≤ privateOf w.leases t
      rw [privateOf, List.map_append, List.sum_append, List.map_singleton,
        List.sum_singleton, private_default, add_zero]
      exact le_refl _
    · intro x hx
      rcases List.mem_append.1 hx with hx | hx
      · exact Or.inl hx
      · exact Or.inr (List.mem_singleton.1 hx)
  | released handle hop held hheld pools hsound =>
    refine h.shrink ?_ ?_ fun p hp => hp
    · exact sum_map_drop hheld private_default
    · intro x hx
      exact List.mem_or_eq_of_mem_set hx
  | moved source target hop hne held old hheld hold pools hsound =>
    refine h.shrink ?_ ?_ fun p hp => hp
    · refine le_of_eq_of_le (sum_map_move hne hheld hold private_default) ?_
      exact sum_map_drop hold private_default
    · intro x hx
      rcases List.mem_or_eq_of_mem_set hx with hx | rfl
      · rcases List.mem_or_eq_of_mem_set hx with hx | rfl
        · exact Or.inl hx
        · exact Or.inl (List.mem_of_getElem? hheld)
      · exact Or.inr rfl

theorem run_exclusiveInv (ops : List (Op H)) {m : ContextCacheManager H} (hs : (start m).Sound)
    (ht : t.isPage = true) : (run ops (start m)).Exclusive t := by
  have hstart : (start m).Exclusive t :=
    { reused := by simp [start]
      nodup := by simp [privateOf, start]
      unread := by simp [start] }
  exact (run_induction (fun w op w' hw hex he => he.exclusive hw ht hex) ops _ hs hstart).2

/-- Private pages are exclusive in every reachable state.  A page of a lease
beyond its reused prefix is private to no other lease; a record, the base
index or a reused prefix holds it only below the published block count; hence
a write at or beyond that count hits a page that nobody else reads. -/
theorem run_exclusive {pageSize maxRecords : Int} {capacities : ResourceDemand}
    {contract : Option SpecReuseContract} {m : ContextCacheManager H}
    (h : ContextCacheManager.make pageSize capacities maxRecords contract = .ok m)
    (ops : List (Op H)) {t : ResourceType} (ht : t.isPage = true) {a : Nat} {held : Held H}
    (ha : (run ops (start m)).leases[a]? = some held) {i : Nat} {p : PageId}
    (hp : (held.path t)[i]? = some p) (hi : held.reused t ≤ i) :
    (∀ b other, (run ops (start m)).leases[b]? = some other → b ≠ a →
      p ∉ (other.path t).drop (other.reused t)) ∧
    (((∃ id record, (run ops (start m)).manager.records.records.lookup id = some record ∧
        ResourceId.mk t p ∈ record.resources) ∨
      (t = .baseKvPage ∧ ∃ hash, (run ops (start m)).manager.baseIndex.lookup hash = some p) ∨
      ∃ other ∈ (run ops (start m)).leases, p ∈ (other.path t).take (other.reused t)) →
      i < held.published) ∧
    ∀ position : Nat, held.published * (run ops (start m)).manager.pageSize.toNat ≤ position →
      position / (run ops (start m)).manager.pageSize.toNat = i →
      (∀ b other, (run ops (start m)).leases[b]? = some other → b ≠ a → p ∉ other.path t) ∧
      ∀ id record, (run ops (start m)).manager.records.records.lookup id = some record →
        ResourceId.mk t p ∉ record.resources := by
  have hs := run_sound ops (start_sound h)
  have hex := run_exclusiveInv ops (start_sound h) ht
  generalize run ops (start m) = w at hs hex ha
  have hpath : ∀ x ∈ w.leases, x.path t = x.pages t := fun x hx => Held.path_eq (hs.leases x hx) ht
  have hmem := List.mem_of_getElem? ha
  rw [hpath held hmem] at hp
  have hprivate : p ∈ held.privatePages t := Held.mem_private hi hp
  have hother : ∀ b other, w.leases[b]? = some other → b ≠ a →
      p ∉ (other.path t).drop (other.reused t) := by
    intro b other hb hne
    rw [hpath other (List.mem_of_getElem? hb)]
    exact slot_exclusive hex.nodup ha hb (Ne.symm hne) (Multiset.mem_coe.2 hprivate)
  have hunread : held.published ≤ i → w.Unread t p := fun hpub =>
    hex.unread held hmem i p { reused := hi, published := hpub, page := hp }
  refine ⟨hother, ?_, ?_⟩
  · intro hread
    by_contra hlt
    have hu := hunread (Nat.le_of_not_lt hlt)
    rcases hread with ⟨id, record, hid, hr⟩ | ⟨rfl, hash, hl⟩ | ⟨other, hmem', hps⟩
    · exact hu.uncached (CacheRecordStore.mem_cacheLedger.2 ⟨id, record, hid, hr⟩)
    · exact hu.uncached (hs.manager.paths.page_cached hl)
    · rw [hpath other hmem'] at hps
      exact hu.unshared other hmem' hps
  · intro position hposition hblock
    have hpageSize : 0 < w.manager.pageSize.toNat := by
      have := hs.manager.pageSize_pos
      omega
    have hu := hunread (hblock ▸ (Nat.le_div_iff_mul_le hpageSize).2 hposition)
    refine ⟨?_, ?_⟩
    · intro b other hb hne hpo
      have hbmem := List.mem_of_getElem? hb
      rw [← List.take_append_drop (other.reused t) (other.path t), List.mem_append] at hpo
      rcases hpo with hpo | hpo
      · rw [hpath other hbmem] at hpo
        exact hu.unshared other hbmem hpo
      · exact hother b other hb hne hpo
    · intro id record hid hr
      exact hu.uncached (CacheRecordStore.mem_cacheLedger.2 ⟨id, record, hid, hr⟩)

/-- A lease on two pages that published the first. -/
theorem run_exclusive_publish :
    ∃ m : ContextCacheManager Nat,
      ContextCacheManager.make 2 { baseKvPages := 3 } 1 none = .ok m ∧
      ∀ b other, (run [.acquire .vanilla [7] 3 .useCache none, .publish 0 ⟨[7], 2⟩]
        (start m)).leases[b]? = some other → b ≠ 0 →
        (1 : PageId) ∉ (other.path .baseKvPage).drop (other.reused .baseKvPage) := by
  obtain ⟨m, hmake, hlease⟩ : ∃ m : ContextCacheManager Nat,
      ContextCacheManager.make 2 { baseKvPages := 3 } 1 none = .ok m ∧
      (run [.acquire .vanilla [7] 3 .useCache none, .publish 0 ⟨[7], 2⟩]
        (start m)).leases[0]? = some
          { lease :=
              { valid := true
                activeResources := [⟨.baseKvPage, 0⟩, ⟨.baseKvPage, 1⟩]
                basePages := [0, 1] }
            published := 1 } := ⟨_, rfl, by decide +kernel⟩
  exact ⟨m, hmake, (run_exclusive hmake _ rfl hlease (i := 1) rfl (by decide)).1⟩

end World

end EdgeLLM.Ports.ContextCache
