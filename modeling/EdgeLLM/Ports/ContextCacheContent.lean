import EdgeLLM.Ports.ContextCacheExclusivity

/-!
# What a cached page holds

The manager never looks at K/V data; that a hit binds the right page is a
property of the whole system.  Here every position of every base page gets a
ghost content, the request identity and the token prefix it was computed from,
and every lease handle gets the writer behind it.  A writer writes only from
its reuse length on, and publishes hashes of what it has materialized.

The invariant says that an indexed page holds the block its hash names.  It
rests on exclusivity: a page that the cache can reach is private to nobody, or
private to the lease that published it and rewrites only its own prefix.
-/

namespace EdgeLLM.Ports.ContextCache

open Verified

set_option linter.unusedSectionVars false

variable {H α τ : Type} [DecidableEq H]

/-! ## Block hashes -/

/-- The block hash: `α` is the block identity besides the tokens, `τ` what one
position contributes, its token or the media digest in its place. -/
structure BlockHasher (H α τ : Type) where
  chainRoot : H
  hashBlock : H → List τ → α → H

namespace BlockHasher

variable (hasher : BlockHasher H α τ)

/-- The chaining loop over the remaining full blocks. -/
def hashBlocks (extras : α) (pageSize : Nat) : H → Nat → List τ → List H
  | _, 0, _ => []
  | parent, blocks + 1, tokens =>
    let hash := hasher.hashBlock parent (tokens.take pageSize) extras
    hash :: hashBlocks extras pageSize hash blocks (tokens.drop pageSize)

/-- The hashes of all full blocks of a request; a partial tail is excluded. -/
def hashRequestFullBlocks (extras : α) (pageSize : Nat) (tokens : List τ) : List H :=
  hasher.hashBlocks extras pageSize hasher.chainRoot (tokens.length / pageSize) tokens

/-- Equal block hashes identify equal chained prefixes. -/
def CollisionFree (pageSize : Nat) : Prop :=
  ∀ extras extras' tokens tokens' i i' hash,
    (hasher.hashRequestFullBlocks extras pageSize tokens)[i]? = some hash →
    (hasher.hashRequestFullBlocks extras' pageSize tokens')[i']? = some hash →
    extras = extras' ∧ i = i' ∧
      tokens.take ((i + 1) * pageSize) = tokens'.take ((i' + 1) * pageSize)

variable {hasher}

omit [DecidableEq H] in
theorem length_hashBlocks (extras : α) (pageSize : Nat) :
    ∀ (parent : H) (blocks : Nat) (tokens : List τ),
      (hasher.hashBlocks extras pageSize parent blocks tokens).length = blocks := by
  intro parent blocks
  induction blocks generalizing parent with
  | zero => intro tokens; rfl
  | succ blocks ih =>
    intro tokens
    rw [hashBlocks, List.length_cons, ih]

omit [DecidableEq H] in
/-- A hashed block is a full block of the tokens. -/
theorem full_of_hash {extras : α} {pageSize i : Nat} {tokens : List τ} {hash : H}
    (h : (hasher.hashRequestFullBlocks extras pageSize tokens)[i]? = some hash) :
    (i + 1) * pageSize ≤ tokens.length := by
  have hi := (List.getElem?_eq_some_iff.1 h).1
  rw [hashRequestFullBlocks, length_hashBlocks] at hi
  calc (i + 1) * pageSize ≤ tokens.length / pageSize * pageSize :=
        Nat.mul_le_mul_right _ hi
    _ ≤ tokens.length := Nat.div_mul_le_self _ _

omit [DecidableEq H] in
theorem hash_of_isPrefix {blocks hashes : List H} (h : blocks <+: hashes) {i : Nat} {hash : H}
    (hi : blocks[i]? = some hash) : hashes[i]? = some hash := by
  obtain ⟨hlt, rfl⟩ := List.getElem?_eq_some_iff.1 hi
  exact List.prefix_iff_getElem?.1 h i hlt

/-- The hash that keeps the whole prefix; it has no collisions. -/
def exact (α τ : Type) : BlockHasher (Option α × List τ) α τ where
  chainRoot := (none, [])
  hashBlock parent tokens extras := (some extras, parent.2 ++ tokens)

omit [DecidableEq H] in
theorem exact_hash {extras : α} {pageSize : Nat} :
    ∀ {blocks : Nat} {parent : Option α × List τ} {tokens : List τ} {i : Nat}
      {hash : Option α × List τ},
      ((exact α τ).hashBlocks extras pageSize parent blocks tokens)[i]? = some hash →
      hash = (some extras, parent.2 ++ tokens.take ((i + 1) * pageSize)) := by
  intro blocks
  induction blocks with
  | zero => intro parent tokens i hash h; simp [hashBlocks] at h
  | succ blocks ih =>
    intro parent tokens i hash h
    rw [hashBlocks] at h
    cases i with
    | zero =>
      simp only [List.getElem?_cons_zero, Option.some.injEq] at h
      rw [← h, Nat.zero_add, Nat.one_mul]
      rfl
    | succ i =>
      rw [List.getElem?_cons_succ] at h
      rw [ih h, exact, List.append_assoc]
      congr 2
      rw [Nat.add_mul (i + 1), Nat.one_mul, Nat.add_comm ((i + 1) * pageSize), List.take_add]

omit [DecidableEq H] in
theorem exact_collisionFree {pageSize : Nat} (hP : 0 < pageSize) :
    (exact α τ).CollisionFree pageSize := by
  intro extras extras' tokens tokens' i i' hash h h'
  have hfull := full_of_hash h
  have hfull' := full_of_hash h'
  have heq := (exact_hash h).symm.trans (exact_hash h')
  simp only [exact, List.nil_append, Prod.mk.injEq, Option.some.injEq] at heq
  obtain ⟨hextras, htake⟩ := heq
  have hlen := congrArg List.length htake
  rw [List.length_take, List.length_take, Nat.min_eq_left hfull, Nat.min_eq_left hfull'] at hlen
  exact ⟨hextras, by have := Nat.eq_of_mul_eq_mul_right hP hlen; omega, htake⟩

end BlockHasher

/-! ## Writers -/

/-- What one position of a page holds: the identity and the token prefix the
K/V entry was computed from. -/
abbrev Content (α τ : Type) := α × List τ

/-- The request behind a lease: its identity, its tokens so far, and what it
last wrote to each position. -/
structure Writer (α τ : Type) where
  extras : α
  tokens : List τ := []
  written : Nat → Option (Content α τ) := fun _ => none

namespace Writer

/-- The content the request's own prefix gives to a position. -/
def content (writer : Writer α τ) (position : Nat) : Content α τ :=
  (writer.extras, writer.tokens.take (position + 1))

/-- The same request with nothing written. -/
def fresh (writer : Writer α τ) : Writer α τ := { writer with written := fun _ => none }

/-- `blocks` hash the writer's own prefix, and it has written that prefix to
every page of its own. -/
structure Materialized (hasher : BlockHasher H α τ) (P : Nat) (writer : Writer α τ)
    (held : Held H) (blocks : List H) : Prop where
  hashes : blocks <+: hasher.hashRequestFullBlocks writer.extras P writer.tokens
  written : ∀ position, held.reusedBase * P ≤ position → position < blocks.length * P →
    position / P < held.lease.basePages.length →
    writer.written position = some (writer.content position)

end Writer

/-- The content of every position of every base page. -/
abbrev Cells (α τ : Type) := PageId → Nat → Option (Content α τ)

/-- The page holds a block whose chain hashes to `hash`. -/
def HoldsBlock (hasher : BlockHasher H α τ) (P : Nat) (cells : Cells α τ) (page : PageId)
    (hash : H) : Prop :=
  ∃ extras tokens i, (hasher.hashRequestFullBlocks extras P tokens)[i]? = some hash ∧
    ∀ o < P, cells page o = some (extras, tokens.take (i * P + o + 1))

/-- The page holds block `i` of the writer's own prefix. -/
structure HoldsOwn (P : Nat) (cells : Cells α τ) (writer : Writer α τ) (i : Nat)
    (page : PageId) : Prop where
  full : (i + 1) * P ≤ writer.tokens.length
  cells : ∀ o < P, cells page o = some (writer.content (i * P + o))

/-- Without collisions a page holds the block that its hash names. -/
theorem HoldsBlock.exact {hasher : BlockHasher H α τ} {P : Nat} {cells : Cells α τ}
    {page : PageId} {hash : H} (hfree : hasher.CollisionFree P)
    (h : HoldsBlock hasher P cells page hash) {extras : α} {tokens : List τ} {i : Nat}
    (hhash : (hasher.hashRequestFullBlocks extras P tokens)[i]? = some hash) :
    ∀ o < P, cells page o = some (extras, tokens.take (i * P + o + 1)) := by
  obtain ⟨extras', tokens', i', hhash', hcells⟩ := h
  obtain ⟨rfl, rfl, htake⟩ := hfree _ _ _ _ _ _ _ hhash hhash'
  intro o ho
  have hlt : i * P + o + 1 ≤ (i + 1) * P := by
    rw [Nat.add_mul]
    omega
  rw [hcells o ho]
  have hcut := congrArg (List.take (i * P + o + 1)) htake
  rw [List.take_take, List.take_take, Nat.min_eq_left hlt] at hcut
  rw [hcut]

/-! ## The system -/

/-- The world with the page contents and the writer of every handle. -/
structure Traced (H α τ : Type) where
  world : World H
  cells : Cells α τ
  writers : Nat → Writer α τ

namespace Traced

open World (Op)
open BlockHasher (hash_of_isPrefix)

/-- The writers after a call: a new handle gets its writer, a lease moves with
its writer, an empty handle has written nothing. -/
def writersAfter (s : Traced H α τ) (writer : Writer α τ) (op : Op H) : Nat → Writer α τ :=
  match op with
  | .acquire .. | .declare => Function.update s.writers s.world.leases.length writer.fresh
  | .release handle => Function.update s.writers handle (s.writers handle).fresh
  | .move source target =>
    if op.relocates s.world then
      Function.update (Function.update s.writers target (s.writers source)) source
        (s.writers source).fresh
    else s.writers
  | _ => s.writers

def call (s : Traced H α τ) (writer : Writer α τ) (op : Op H) : Traced H α τ where
  world := (World.call op s.world).2
  cells := s.cells
  writers := s.writersAfter writer op

/-- The handle writes `content` to a position, which lies on `page`. -/
def write (P : Nat) (s : Traced H α τ) (handle position : Nat) (page : PageId)
    (content : Content α τ) : Traced H α τ where
  world := s.world
  cells := Function.update s.cells page
    (Function.update (s.cells page) (position % P) (some content))
  writers := Function.update s.writers handle
    { s.writers handle with
      written := Function.update (s.writers handle).written position (some content) }

/-- The request of the handle got more tokens. -/
def extend (s : Traced H α τ) (handle : Nat) (more : List τ) : Traced H α τ where
  world := s.world
  cells := s.cells
  writers := Function.update s.writers handle
    { s.writers handle with tokens := (s.writers handle).tokens ++ more }

/-- The guard of the publishing calls. -/
def Publishes (hasher : BlockHasher H α τ) (P : Nat) (s : Traced H α τ) (op : Op H) : Prop :=
  ∀ handle blocks held, op.publication P = some (handle, blocks) →
    s.world.leases[handle]? = some held →
    (s.writers handle).Materialized hasher P held blocks

/-- One step of the system: a call of the manager, a write or a snapshot
restore of a lease, or new tokens.  What a writer puts at a position inside its
tokens is its own prefix; drafts beyond them are arbitrary. -/
inductive Step (hasher : BlockHasher H α τ) (P : Nat) (s : Traced H α τ) :
    Traced H α τ → Prop where
  | call (writer : Writer α τ) (op : Op H)
      (hacquire : ∀ request hashes tokenCount policy coverage,
        op = .acquire request hashes tokenCount policy coverage →
        hashes <+: hasher.hashRequestFullBlocks writer.extras P writer.tokens)
      (hpublish : s.Publishes hasher P op) : Step hasher P s (s.call writer op)
  | write (handle position : Nat) (held : Held H) (page : PageId) (content : Content α τ)
      (hheld : s.world.leases[handle]? = some held)
      (hwritable : held.reuseTokenLength ≤ position)
      (hpage : held.lease.basePages[position / P]? = some page)
      (hcontent : position < (s.writers handle).tokens.length →
        content = (s.writers handle).content position) :
      Step hasher P s (s.write P handle position page content)
  /-- The partial page of a restored checkpoint, between the bound pages and
  the reuse length. -/
  | restore (handle position : Nat) (held : Held H) (page : PageId) (content : Content α τ)
      (hheld : s.world.leases[handle]? = some held)
      (hrestored : held.reusedBase * P ≤ position ∧ (position : Int) < held.reuseTokenLength)
      (hpage : held.lease.basePages[position / P]? = some page)
      (hcontent : position < (s.writers handle).tokens.length →
        content = (s.writers handle).content position) :
      Step hasher P s (s.write P handle position page content)
  | extend (handle : Nat) (more : List τ) : Step hasher P s (s.extend handle more)

/-- What one handle knows about its pages. -/
structure Tracks (P : Nat) (cells : Cells α τ) (w : World H) (writer : Writer α τ)
    (held : Held H) : Prop where
  read : ∀ i page, (held.pages .baseKvPage)[i]? = some page → ¬w.Unread .baseKvPage page →
    HoldsOwn P cells writer i page
  written : ∀ i page, held.reusedBase ≤ i → (held.pages .baseKvPage)[i]? = some page →
    ∀ o < P, ∀ content, writer.written (i * P + o) = some content → cells page o = some content
  unwritten : ∀ position, (held.pages .baseKvPage).length ≤ position / P →
    writer.written position = none
  writable : (held.reusedBase : Int) * P ≤ held.reuseTokenLength

/-- Indexed pages hold their blocks, and every handle tracks its pages. -/
structure Faithful (hasher : BlockHasher H α τ) (P : Nat) (s : Traced H α τ) : Prop where
  sound : s.world.Sound
  exclusive : s.world.Exclusive .baseKvPage
  pageSize : s.world.manager.pageSize = P
  indexed : ∀ hash page, s.world.manager.baseIndex.lookup hash = some page →
    HoldsBlock hasher P s.cells page hash
  tracks : ∀ a held, s.world.leases[a]? = some held →
    Tracks P s.cells s.world (s.writers a) held

variable {hasher : BlockHasher H α τ} {P : Nat} {s : Traced H α τ} {w w' : World H}
  {cells : Cells α τ} {writer : Writer α τ} {held : Held H}

theorem Tracks.fresh (h : Tracks P cells w writer held) : Tracks P cells w writer.fresh held where
  read i page hp hread :=
    { full := (h.read i page hp hread).full, cells := (h.read i page hp hread).cells }
  written i page _ _ o _ content hc := by cases hc
  unwritten position _ := rfl
  writable := h.writable

theorem tracks_default : Tracks P cells w writer.fresh ({} : Held H) where
  read i page hp _ := by simp [World.pages_default] at hp
  written i page _ hp := by simp [World.pages_default] at hp
  unwritten position _ := rfl
  writable := by simp

variable {handle i a : Nat} {page : PageId} {op : Op H}

/-- A write at or beyond the reused prefix.  Either the page is in reach of the
cache and gets the content it has, or nobody else looks at it. -/
theorem Faithful.write (h : Faithful hasher P s) {position : Nat} {content : Content α τ}
    (hP : 0 < P) (hheld : s.world.leases[handle]? = some held)
    (hwritable : held.reusedBase * P ≤ position)
    (hpage : held.lease.basePages[position / P]? = some page)
    (hcontent : position < (s.writers handle).tokens.length →
      content = (s.writers handle).content position) :
    Faithful hasher P (s.write P handle position page content) := by
  have hmem := List.mem_of_getElem? hheld
  have htrack := h.tracks handle held hheld
  have hi : held.reusedBase ≤ position / P := (Nat.le_div_iff_mul_le hP).2 hwritable
  have ho : position % P < P := Nat.mod_lt _ hP
  have hsplit : position / P * P + position % P = position := Nat.div_add_mod' position P
  rw [(h.sound.leases held hmem).base] at hpage
  change (held.pages .baseKvPage)[position / P]? = some page at hpage
  -- contents elsewhere are untouched
  have hother : ∀ page' o, (page' ≠ page ∨ o ≠ position % P) →
      (s.write P handle position page content).cells page' o = s.cells page' o := by
    intro page' o hne
    show Function.update s.cells page _ page' o = _
    by_cases hp : page' = page
    · subst hp
      rw [Function.update_self, Function.update_of_ne (hne.resolve_left fun hn => hn rfl)]
    · rw [Function.update_of_ne hp]
  have hself : (s.write P handle position page content).cells page (position % P) =
      some content := by
    show Function.update s.cells page _ page (position % P) = _
    rw [Function.update_self, Function.update_self]
  -- a page in reach of the cache keeps its contents
  have hread : ∀ page', ¬s.world.Unread .baseKvPage page' → ∀ o,
      (s.write P handle position page content).cells page' o = s.cells page' o := by
    intro page' hread o
    by_cases hp : page' = page ∧ o = position % P
    · obtain ⟨rfl, rfl⟩ := hp
      have hown := htrack.read _ _ hpage hread
      have hlt : position < (s.writers handle).tokens.length := by
        have := hown.full
        rw [Nat.add_mul] at this
        omega
      rw [hself, hown.cells _ ho, hsplit, hcontent hlt]
    · exact hother page' o (not_and_or.1 hp)
  refine
    { sound := h.sound
      exclusive := h.exclusive
      pageSize := h.pageSize
      indexed := ?_
      tracks := ?_ }
  · intro hash page' hl
    obtain ⟨extras, tokens, i, hhash, hcells⟩ := h.indexed hash page' hl
    refine ⟨extras, tokens, i, hhash, fun o ho => ?_⟩
    rw [hread page' (fun hu => hu.uncached (h.sound.manager.paths.page_cached hl)), hcells o ho]
  · intro b other hb
    have hb' := h.tracks b other hb
    by_cases hbh : b = handle
    · subst hbh
      obtain rfl : held = other := Option.some.inj (hheld.symm.trans hb)
      have hwriter : (s.write P b position page content).writers b =
          { s.writers b with
            written := Function.update (s.writers b).written position (some content) } :=
        Function.update_self _ _ _
      rw [hwriter]
      refine { read := ?_, written := ?_, unwritten := ?_, writable := hb'.writable }
      · intro i page' hp hr
        have hown := hb'.read i page' hp hr
        exact { full := hown.full, cells := fun o ho => by rw [hread page' hr, hown.cells o ho]; rfl }
      · intro i page' hri hp o ho' c hc
        by_cases hpos : i * P + o = position
        · -- the position just written
          have hdiv : i = position / P := by
            rw [← hpos, Nat.add_comm, Nat.add_mul_div_right _ _ hP, Nat.div_eq_of_lt ho',
              Nat.zero_add]
          have hmod : o = position % P := by
            rw [← hpos, Nat.add_comm, Nat.add_mul_mod_self_right, Nat.mod_eq_of_lt ho']
          subst hmod
          rw [hdiv, hpage, Option.some.injEq] at hp
          subst hp
          simp only [hpos, Function.update_self] at hc
          rw [hself, hc]
        · simp only [Function.update_of_ne hpos] at hc
          rw [hother page' o ?_]
          · exact hb'.written i page' hri hp o ho' c hc
          · by_contra hboth
            simp only [not_or, not_not] at hboth
            obtain ⟨rfl, rfl⟩ := hboth
            have hidx := h.exclusive.private_inj hheld hri hi hp hpage
            rw [hidx, hsplit] at hpos
            exact hpos rfl
      · intro position' hlen
        have hne : position' ≠ position := by
          rintro rfl
          have := (List.getElem?_eq_some_iff.1 hpage).1
          omega
        simp only [Function.update_of_ne hne]
        exact hb'.unwritten position' hlen
    · have hwriter : (s.write P handle position page content).writers b = s.writers b :=
        Function.update_of_ne hbh _ _
      rw [hwriter]
      refine { read := ?_, written := ?_, unwritten := hb'.unwritten, writable := hb'.writable }
      · intro i page' hp hr
        have hown := hb'.read i page' hp hr
        exact { full := hown.full, cells := fun o ho => by rw [hread page' hr, hown.cells o ho] }
      · intro i page' hri hp o ho' c hc
        have hne : page' ≠ page := by
          rintro rfl
          exact hbh (h.exclusive.owner_eq hb hheld hri hi hp hpage)
        rw [hother page' o (Or.inl hne)]
        exact hb'.written i page' hri hp o ho' c hc

/-- A position inside the tokens keeps its content. -/
theorem content_extend {more : List τ} {position : Nat} (h : position + 1 ≤ writer.tokens.length) :
    ({ writer with tokens := writer.tokens ++ more } : Writer α τ).content position =
      writer.content position := by
  simp only [Writer.content, List.take_append_of_le_length h]

theorem holdsOwn_extend (h : HoldsOwn P cells writer i page) (more : List τ) :
    HoldsOwn P cells { writer with tokens := writer.tokens ++ more } i page where
  full := by
    rw [List.length_append]
    exact Nat.le_add_right_of_le h.full
  cells o ho := by
    have := h.full
    rw [Nat.add_mul] at this
    rw [h.cells o ho, content_extend (by omega)]

theorem Faithful.extend (h : Faithful hasher P s) (handle : Nat) (more : List τ) :
    Faithful hasher P (s.extend handle more) where
  sound := h.sound
  exclusive := h.exclusive
  pageSize := h.pageSize
  indexed := h.indexed
  tracks a held ha := by
    have htrack := h.tracks a held ha
    by_cases heq : a = handle
    · subst heq
      show Tracks P s.cells s.world (Function.update s.writers a _ a) held
      rw [Function.update_self]
      exact
        { read := fun i page hp hr => holdsOwn_extend (htrack.read i page hp hr) more
          written := htrack.written
          unwritten := htrack.unwritten
          writable := htrack.writable }
    · show Tracks P s.cells s.world (Function.update s.writers handle _ a) held
      rw [Function.update_of_ne heq]
      exact htrack

/-- Without a move a handle keeps its writer, or the writer starts afresh. -/
theorem writersAfter_of_lt (writer : Writer α τ) (hop : ¬op.relocates s.world)
    (ha : a < s.world.leases.length) : s.writersAfter writer op a = s.writers a ∨
      s.writersAfter writer op a = (s.writers a).fresh := by
  have hne : a ≠ s.world.leases.length := Nat.ne_of_lt ha
  unfold writersAfter
  split
  · exact Or.inl (Function.update_of_ne hne _ _)
  · exact Or.inl (Function.update_of_ne hne _ _)
  · rename_i handle
    by_cases heq : a = handle
    · subst heq
      exact Or.inr (Function.update_self _ _ _)
    · exact Or.inl (Function.update_of_ne heq _ _)
  · exact Or.inl (if_neg hop ▸ rfl)
  · exact Or.inl rfl

theorem Tracks.grow {new : Held H} {fresh : List PageId} (hP : 0 < P)
    (h : Tracks P cells w writer held)
    (hpages : new.pages .baseKvPage = held.pages .baseKvPage ++ fresh)
    (hreused : new.reusedBase = held.reusedBase)
    (hlength : new.reuseTokenLength = held.reuseTokenLength)
    (hfresh : ∀ page ∈ fresh, w.Unread .baseKvPage page) : Tracks P cells w writer new where
  read i page hp hr := by
    rw [hpages] at hp
    by_cases hi : i < (held.pages .baseKvPage).length
    · rw [List.getElem?_append_left hi] at hp
      exact h.read i page hp hr
    · rw [List.getElem?_append_right (Nat.le_of_not_lt hi)] at hp
      exact absurd (hfresh page (List.mem_of_getElem? hp)) hr
  written i page hri hp o ho content hc := by
    rw [hpages] at hp
    by_cases hi : i < (held.pages .baseKvPage).length
    · rw [List.getElem?_append_left hi] at hp
      exact h.written i page (hreused ▸ hri) hp o ho content hc
    · -- nothing was written beyond the old path
      have hdiv : (i * P + o) / P = i := by
        rw [Nat.add_comm, Nat.add_mul_div_right _ _ hP, Nat.div_eq_of_lt ho, Nat.zero_add]
      rw [h.unwritten (i * P + o) (by omega)] at hc
      cases hc
  unwritten position hlen := by
    rw [hpages, List.length_append] at hlen
    exact h.unwritten position (by omega)
  writable := by
    rw [hreused, hlength]
    exact h.writable

/-- A new handle on cached pages that hold its own blocks. -/
theorem tracks_acquired {plan : ReusePlan H} {lease : CacheRequestLease H} {fresh : List PageId}
    (hpages : pagesOf .baseKvPage lease.activeResources =
      pagesOf .baseKvPage plan.bindings ++ fresh)
    (hown : ∀ (i : Nat) page, plan.basePageBindings[i]? = some page →
      HoldsOwn P cells writer i page) (hfresh : ∀ page ∈ fresh, w.Unread .baseKvPage page)
    (hreuse : (plan.basePageBindings.length : Int) * P ≤ plan.reuseTokenLength) :
    Tracks P cells w writer.fresh (Held.acquired plan lease) where
  read i page hp hr := by
    change (pagesOf .baseKvPage lease.activeResources)[i]? = some page at hp
    rw [hpages, (pagesOf_bindings plan).1] at hp
    by_cases hi : i < plan.basePageBindings.length
    · rw [List.getElem?_append_left hi] at hp
      exact { full := (hown i page hp).full, cells := (hown i page hp).cells }
    · rw [List.getElem?_append_right (Nat.le_of_not_lt hi)] at hp
      exact absurd (hfresh page (List.mem_of_getElem? hp)) hr
  written i page _ _ o _ content hc := by cases hc
  unwritten position _ := rfl
  writable := hreuse

/-- A page of the published prefix holds the publisher's own block. -/
theorem Faithful.materialized (h : Faithful hasher P s) {blocks : List H}
    (hheld : s.world.leases[handle]? = some held)
    (hmat : (s.writers handle).Materialized hasher P held blocks) {j : Nat} (hj : j < blocks.length)
    (hpage : (held.pages .baseKvPage)[j]? = some page) :
    HoldsOwn P s.cells (s.writers handle) j page := by
  have htrack := h.tracks handle held hheld
  have hmem := List.mem_of_getElem? hheld
  by_cases hr : s.world.Unread .baseKvPage page
  · -- an unread page is private, so its contents are what the publisher wrote
    have hj' : held.reusedBase ≤ j := by
      by_contra hlt
      exact hr.unshared held hmem (Held.mem_shared (Nat.lt_of_not_le hlt) hpage)
    obtain ⟨hash, hhash⟩ : ∃ hash, blocks[j]? = some hash :=
      ⟨_, List.getElem?_eq_getElem hj⟩
    have hfull := BlockHasher.full_of_hash (hash_of_isPrefix hmat.hashes hhash)
    refine { full := hfull, cells := fun o ho => ?_ }
    have hlen := (List.getElem?_eq_some_iff.1 hpage).1
    have hdiv : (j * P + o) / P = j := by
      rw [Nat.add_comm, Nat.add_mul_div_right _ _ (by omega), Nat.div_eq_of_lt ho, Nat.zero_add]
    refine htrack.written j page hj' hpage o ho _ (hmat.written _ ?_ ?_ ?_)
    · exact Nat.le_add_right_of_le (Nat.mul_le_mul_right P hj')
    · calc j * P + o < (j + 1) * P := by rw [Nat.add_mul]; omega
        _ ≤ blocks.length * P := Nat.mul_le_mul_right P hj
    · rw [hdiv, (h.sound.leases held hmem).base]
      exact hlen
  · exact htrack.read j page hpage hr

/-- A page in reach after a call holds the block of whoever has it in a path:
it was in reach before, or its only holder has just published it. -/
theorem Faithful.read_after (h : Faithful hasher P s) (hpublish : s.Publishes hasher P op)
    (he : World.Effect s.world op w') (hsound : w'.Sound) (ha : s.world.leases[a]? = some held)
    (hp : (held.pages .baseKvPage)[i]? = some page) (hr : ¬w'.Unread .baseKvPage page) :
    HoldsOwn P s.cells (s.writers a) i page := by
  by_cases hu : s.world.Unread .baseKvPage page
  · have hcached : ResourceId.mk .baseKvPage page ∈ w'.manager.records.cacheLedger := by
      by_contra hc
      exact hr { uncached := hc, unshared := fun x hx hpx => he.shared rfl h.exclusive hx hpx hu }
    obtain ⟨hash, hl⟩ := hsound.manager.paths.page_indexed hsound.manager.coherent hcached
    rcases he.indexed hl with hl | ⟨handle, blocks, publisher, j, hop, hheld, hhash, hpage⟩
    · exact absurd (h.sound.manager.paths.page_cached hl) hu.uncached
    · rw [h.pageSize] at hop
      rw [(h.sound.leases publisher (List.mem_of_getElem? hheld)).base] at hpage
      change (publisher.pages .baseKvPage)[j]? = some page at hpage
      have hown := h.materialized hheld (hpublish handle blocks publisher hop hheld)
        (List.getElem?_eq_some_iff.1 hhash).1 hpage
      -- both positions are private, so they are one
      have hprivate : ∀ (b k : Nat) (x : Held H), s.world.leases[b]? = some x →
          (x.pages .baseKvPage)[k]? = some page → x.reusedBase ≤ k := by
        intro b k x hb hk
        by_contra hlt
        exact hu.unshared x (List.mem_of_getElem? hb)
          (Held.mem_shared (Nat.lt_of_not_le hlt) hk)
      have hi := hprivate a i held ha hp
      have hj := hprivate handle j publisher hheld hpage
      obtain rfl : handle = a := h.exclusive.owner_eq hheld ha hj hi hpage hp
      obtain rfl : held = publisher := Option.some.inj (ha.symm.trans hheld)
      rw [h.exclusive.private_inj ha hi hj hp hpage]
      exact hown
  · exact (h.tracks a held ha).read i page hp hu

/-- What a handle knew before a call still holds after it. -/
theorem Faithful.tracks_after (h : Faithful hasher P s) (hpublish : s.Publishes hasher P op)
    (he : World.Effect s.world op w') (hsound : w'.Sound) (ha : s.world.leases[a]? = some held) :
    Tracks P s.cells w' (s.writers a) held where
  read _ _ hp hr := h.read_after hpublish he hsound ha hp hr
  written := (h.tracks a held ha).written
  unwritten := (h.tracks a held ha).unwritten
  writable := (h.tracks a held ha).writable

theorem Tracks.publish (h : Tracks P cells w writer held) (result : PublishResult) :
    Tracks P cells w writer (held.publish result) where
  read i page hp := h.read i page (by rwa [Held.publish_pages] at hp)
  written i page hri hp := by
    rw [Held.publish_pages] at hp
    rw [Held.publish_reusedBase] at hri
    exact h.written i page hri hp
  unwritten position hlen := h.unwritten position (by rwa [Held.publish_pages] at hlen)
  writable := by
    rw [Held.publish_reusedBase, Held.publish_reuseTokenLength]
    exact h.writable

/-- Fresh pages are out of reach after the call that took them. -/
theorem unread_of_fresh {fresh : List PageId} {pinned : Multiset ResourceId}
    {C : Multiset ResourceId} (hfresh : Session.FreshPages .baseKvPage fresh pinned C)
    (hC : C = w'.manager.records.cacheLedger) (hpinned : ∀ r ∈ w.pins, r ∈ pinned)
    (hshared : ∀ x ∈ w'.leases, ∀ page ∈ x.sharedPages .baseKvPage,
      (∃ y ∈ w.leases, page ∈ y.sharedPages .baseKvPage) ∨
        ResourceId.mk .baseKvPage page ∈ pinned) : ∀ page ∈ fresh, w'.Unread .baseKvPage page := by
  intro page hp
  refine { uncached := hC ▸ hfresh.uncached page hp, unshared := ?_ }
  intro x hx hpx
  rcases hshared x hx page hpx with ⟨y, hy, hpy⟩ | hpin
  · exact World.not_held_of_fresh hfresh hpinned y hy page hp (List.mem_of_mem_take hpy)
  · exact hfresh.unpinned page hp hpin

theorem getElem?_concat_cases {α : Type} {l : List α} {x y : α} {a : Nat}
    (h : (l ++ [x])[a]? = some y) : l[a]? = some y ∨ a = l.length ∧ x = y := by
  by_cases hlen : a < l.length
  · rw [List.getElem?_append_left hlen] at h
    exact Or.inl h
  · rw [List.getElem?_append_right (Nat.le_of_not_lt hlen)] at h
    obtain ⟨hzero, hget⟩ := List.getElem?_eq_some_iff.1 h
    rw [List.length_singleton] at hzero
    simp only [List.getElem_singleton] at hget
    exact Or.inr ⟨by omega, hget⟩

section Call

variable (h : Faithful hasher P s) (hP : 0 < P) (hfree : hasher.CollisionFree P)
variable (hacquire : ∀ request hashes tokenCount policy coverage,
  op = .acquire request hashes tokenCount policy coverage →
  hashes <+: hasher.hashRequestFullBlocks writer.extras P writer.tokens)
variable (hpublish : s.Publishes hasher P op)

include h hP hfree hacquire hpublish

theorem Faithful.tracks_call (he : World.Effect s.world op w') (hsound : w'.Sound)
    (ha : w'.leases[a]? = some held) : Tracks P s.cells w' (s.writersAfter writer op a) held := by
  -- an old handle of a call that moves nothing
  have hold : ∀ b x, ¬op.relocates s.world → s.world.leases[b]? = some x →
      Tracks P s.cells w' (s.writersAfter writer op b) x := by
    intro b x hop hb
    have htrack := h.tracks_after hpublish he hsound hb
    rcases writersAfter_of_lt writer hop (List.getElem?_eq_some_iff.1 hb).1 with
      heq | heq
    · rw [heq]
      exact htrack
    · rw [heq]
      exact htrack.fresh
  have hlt : ∀ b x, s.world.leases[b]? = some x → b < s.world.leases.length :=
    fun b x hb => (List.getElem?_eq_some_iff.1 hb).1
  cases he with
  | kept hop m' hs hev => exact hold a held hop ha
  | adjusted hop handle old hheld s' hstep =>
    by_cases heq : handle = a
    · subst heq
      rw [List.getElem?_set_self (hlt _ _ hheld), Option.some.injEq] at ha
      subst ha
      obtain ⟨fresh, hpages, hfresh⟩ := hstep.pages .baseKvPage rfl
      rw [← World.pins_eq hheld] at hfresh
      refine (hold handle old hop hheld).grow hP hpages rfl rfl ?_
      refine unread_of_fresh hfresh rfl (fun r hr => hr) fun x hx page hpx => Or.inl ?_
      have hmem := List.mem_of_getElem? hheld
      rcases List.mem_or_eq_of_mem_set hx with hx | rfl
      · exact ⟨x, hx, hpx⟩
      · have hgrow : ({ old with lease := s'.lease } : Held H).pages .baseKvPage =
            old.pages .baseKvPage ++ fresh := hpages
        rw [World.shared_grow (h.exclusive.reused old hmem) hgrow rfl] at hpx
        exact ⟨old, hmem, hpx⟩
    · rw [List.getElem?_set_ne heq] at ha
      exact hold a held hop ha
  | acquired request hashes tokenCount policy coverage hop plan lease m' hplan hacq =>
    subst hop
    obtain ha | ⟨rfl, rfl⟩ := getElem?_concat_cases ha
    · exact hold a held id ha
    · obtain ⟨fresh, hpages, hfresh⟩ := hacq.pages .baseKvPage rfl
      have hreuse := hplan.reuse
      rw [h.pageSize] at hreuse
      show Tracks P s.cells _ (Function.update s.writers _ writer.fresh _) _
      rw [Function.update_self]
      refine tracks_acquired hpages ?_ ?_ hreuse
      · intro i page hp
        obtain ⟨hash, hhash, hl⟩ := hplan.base i page hp
        have hhash := hash_of_isPrefix (hacquire _ _ _ _ _ rfl) hhash
        exact
          { full := BlockHasher.full_of_hash hhash
            cells := (h.indexed hash page hl).exact hfree hhash }
      · refine unread_of_fresh hfresh rfl (fun r hr => Multiset.mem_add.2 (Or.inr hr)) ?_
        intro x hx page hpx
        rcases List.mem_append.1 hx with hx | hx
        · exact Or.inl ⟨x, hx, hpx⟩
        · cases List.mem_singleton.1 hx
          right
          have hshared : (Held.acquired plan lease).sharedPages .baseKvPage =
              pagesOf .baseKvPage plan.bindings := by
            rw [Held.sharedPages, World.pagesOf_bindings_length plan lease rfl]
            exact (congrArg _ hpages).trans List.take_left
          rw [hshared] at hpx
          exact Multiset.mem_add.2 (Or.inl (mem_pagesOf.1 hpx))
  | published handle hashes count hop old hheld result m' hpub =>
    have hmove : ¬op.relocates s.world := by
      intro hmove
      cases op <;> first | exact hmove | cases hop
    by_cases heq : handle = a
    · subst heq
      rw [List.getElem?_set_self (hlt _ _ hheld), Option.some.injEq] at ha
      subst ha
      exact (hold handle old hmove hheld).publish result
    · rw [List.getElem?_set_ne heq] at ha
      exact hold a held hmove ha
  | declared hop =>
    subst hop
    obtain ha | ⟨rfl, rfl⟩ := getElem?_concat_cases ha
    · exact hold a held id ha
    · show Tracks P s.cells _ (Function.update s.writers _ writer.fresh _) _
      rw [Function.update_self]
      exact tracks_default
  | released handle hop old hheld pools hs =>
    subst hop
    by_cases heq : handle = a
    · subst heq
      rw [List.getElem?_set_self (hlt _ _ hheld), Option.some.injEq] at ha
      subst ha
      show Tracks P s.cells _ (Function.update s.writers _ (s.writers _).fresh _) _
      rw [Function.update_self]
      exact tracks_default
    · rw [List.getElem?_set_ne heq] at ha
      exact hold a held id ha
  | moved source target hop hne old gone hheld hgone pools hs =>
    subst hop
    have hmove : (Op.move source target : Op H).relocates s.world :=
      ⟨hne, hlt _ _ hheld, hlt _ _ hgone⟩
    have hafter : s.writersAfter writer (.move source target) =
        Function.update (Function.update s.writers target (s.writers source)) source
          (s.writers source).fresh := if_pos hmove
    have hkeep : ∀ b x, s.world.leases[b]? = some x → Tracks P s.cells _ (s.writers b) x :=
      fun b x hb => h.tracks_after hpublish
        (.moved source target rfl hne old gone hheld hgone pools hs) hsound hb
    rw [hafter]
    by_cases hsource : source = a
    · subst hsource
      rw [List.getElem?_set_self (by simpa using hlt _ _ hheld), Option.some.injEq] at ha
      subst ha
      rw [Function.update_self]
      exact tracks_default
    · rw [List.getElem?_set_ne hsource] at ha
      rw [Function.update_of_ne (Ne.symm hsource)]
      by_cases htarget : target = a
      · subst htarget
        rw [List.getElem?_set_self (hlt _ _ hgone), Option.some.injEq] at ha
        subst ha
        rw [Function.update_self]
        exact hkeep source old hheld
      · rw [List.getElem?_set_ne htarget] at ha
        rw [Function.update_of_ne (Ne.symm htarget)]
        exact hkeep a held ha

theorem Faithful.call : Faithful hasher P (s.call writer op) := by
  have he := World.call_effect h.sound op
  have hsound := he.sound h.sound
  refine
    { sound := hsound
      exclusive := he.exclusive h.sound rfl h.exclusive
      pageSize := he.pageSize.trans h.pageSize
      indexed := ?_
      tracks := fun a held ha => h.tracks_call hP hfree hacquire hpublish he hsound ha }
  intro hash page hl
  rcases he.indexed hl with hl | ⟨handle, blocks, held, j, hop, hheld, hhash, hpage⟩
  · exact h.indexed hash page hl
  · rw [h.pageSize] at hop
    have hmat := hpublish handle blocks held hop hheld
    rw [(h.sound.leases held (List.mem_of_getElem? hheld)).base] at hpage
    have hown := h.materialized hheld hmat (List.getElem?_eq_some_iff.1 hhash).1 hpage
    exact ⟨_, _, j, hash_of_isPrefix hmat.hashes hhash, hown.cells⟩

end Call

/-! ## Runs -/

theorem Faithful.step (h : Faithful hasher P s) (hP : 0 < P) (hfree : hasher.CollisionFree P)
    {s' : Traced H α τ} (hstep : Step hasher P s s') : Faithful hasher P s' := by
  cases hstep with
  | call writer op hacquire hpublish => exact h.call hP hfree hacquire hpublish
  | write handle position held page content hheld hwritable hpage hcontent =>
    have hreuse := (h.tracks handle held hheld).writable
    exact h.write hP hheld (by exact_mod_cast hreuse.trans hwritable) hpage hcontent
  | restore handle position held page content hheld hrestored hpage hcontent =>
    exact h.write hP hheld hrestored.1 hpage hcontent
  | extend handle more => exact h.extend handle more

/-- Nothing is indexed at first, whatever the pages hold. -/
theorem faithful_start {pageSize maxRecords : Int} {capacities : ResourceDemand}
    {contract : Option SpecReuseContract} {m : ContextCacheManager H}
    (h : ContextCacheManager.make pageSize capacities maxRecords contract = .ok m)
    (cells : Cells α τ) (writers : Nat → Writer α τ) :
    0 < pageSize.toNat ∧ Faithful hasher pageSize.toNat ⟨World.start m, cells, writers⟩ := by
  have hs := World.start_sound h
  have hpos := hs.manager.pageSize_pos
  have hexclusive := World.run_exclusiveInv (t := .baseKvPage) [] hs rfl
  unfold ContextCacheManager.make at h
  simp only [bind_eq_ok, requireThat_eq_ok] at h
  obtain ⟨_, hpage, _, -, _, -, pools, -, hm⟩ := h
  cases hm
  refine ⟨by omega, ?_⟩
  exact
    { sound := hs
      exclusive := hexclusive
      pageSize := (Int.toNat_of_nonneg hpage.le).symm
      indexed := fun hash page hl => by simp [World.start, BaseBlockIndex.lookup] at hl
      tracks := fun a held ha => by simp [World.start] at ha }

theorem run_faithful (hP : 0 < P) (hfree : hasher.CollisionFree P) {s' : Traced H α τ}
    (hrun : Relation.ReflTransGen (Step hasher P) s s') (h : Faithful hasher P s) :
    Faithful hasher P s' := by
  induction hrun with
  | refl => exact h
  | tail _ hstep ih => exact ih.step hP hfree hstep

/-- Prefix-cache soundness.  In every reachable state each page of the base
index and each page on the path of a stored record holds exactly the block
its hash names, and each page a lease reuses holds that lease's own block. -/
theorem run_content {pageSize maxRecords : Int} {capacities : ResourceDemand}
    {contract : Option SpecReuseContract} {m : ContextCacheManager H}
    (hmake : ContextCacheManager.make pageSize capacities maxRecords contract = .ok m)
    (hfree : hasher.CollisionFree pageSize.toNat) {cells : Cells α τ} {writers : Nat → Writer α τ}
    (hrun : Relation.ReflTransGen (Step hasher pageSize.toNat)
      ⟨World.start m, cells, writers⟩ s) :
    (∀ hash page, s.world.manager.baseIndex.lookup hash = some page →
      HoldsBlock hasher pageSize.toNat s.cells page hash ∧
      ∀ extras tokens i,
        (hasher.hashRequestFullBlocks extras pageSize.toNat tokens)[i]? = some hash →
        ∀ o < pageSize.toNat,
          s.cells page o = some (extras, tokens.take (i * pageSize.toNat + o + 1))) ∧
    (∀ id record, s.world.manager.records.records.lookup id = some record →
      ∀ (i : Nat) hash page, record.logicalBlockHashes[i]? = some hash →
      record.basePagePath[i]? = some page → HoldsBlock hasher pageSize.toNat s.cells page hash) ∧
    ∀ a held, s.world.leases[a]? = some held → ∀ i page, i < held.reusedBase →
      held.lease.basePages[i]? = some page →
      HoldsOwn pageSize.toNat s.cells (s.writers a) i page := by
  obtain ⟨hP, hstart⟩ : 0 < pageSize.toNat ∧ Faithful hasher pageSize.toNat _ :=
    faithful_start hmake cells writers
  have h := run_faithful hP hfree hrun hstart
  refine ⟨?_, ?_, ?_⟩
  · intro hash page hl
    exact ⟨h.indexed hash page hl, fun extras tokens i hhash =>
      (h.indexed hash page hl).exact hfree hhash⟩
  · intro id record hid i hash page hhash hpage
    refine h.indexed hash page (h.sound.manager.paths.covers id record hid (hash, page) ?_)
    exact List.mem_of_getElem? (List.getElem?_zip_eq_some.2 ⟨hhash, hpage⟩)
  · intro a held ha i page hi hpage
    have hmem := List.mem_of_getElem? ha
    rw [(h.sound.leases held hmem).base] at hpage
    exact (h.tracks a held ha).read i page hpage fun hu =>
      hu.unshared held hmem (Held.mem_shared hi hpage)

/-- A request writes and publishes its first block. -/
theorem run_content_publish :
    ∃ s : Traced (Option Unit × List Nat) Unit Nat,
      s.world.manager.baseIndex.lookup (some (), [5, 6]) = some 0 ∧
      HoldsBlock (BlockHasher.exact Unit Nat) 2 s.cells 0 (some (), [5, 6]) := by
  obtain ⟨m, hmake, hlease, hpublished⟩ : ∃ m : ContextCacheManager (Option Unit × List Nat),
      ContextCacheManager.make 2 { baseKvPages := 3 } 1 none = .ok m ∧
      (World.run [.acquire .vanilla [(some (), [5, 6])] 3 .useCache none]
        (World.start m)).leases[0]? = some
          { lease :=
              { valid := true
                activeResources := [⟨.baseKvPage, 0⟩, ⟨.baseKvPage, 1⟩]
                basePages := [0, 1] } } ∧
      (World.run [.acquire .vanilla [(some (), [5, 6])] 3 .useCache none,
          .publish 0 ⟨[(some (), [5, 6])], 2⟩]
        (World.start m)).manager.baseIndex.lookup (some (), [5, 6]) = some 0 :=
    ⟨_, rfl, by decide +kernel, by decide +kernel⟩
  have hblocks : [(some (), [5, 6])] <+:
      (BlockHasher.exact Unit Nat).hashRequestFullBlocks () 2 [5, 6, 7] := by
    decide +kernel
  let writer : Writer Unit Nat := { extras := (), tokens := [5, 6, 7] }
  let s0 : Traced (Option Unit × List Nat) Unit Nat :=
    ⟨World.start m, fun _ _ => none, fun _ => writer⟩
  let s1 := s0.call writer (.acquire .vanilla [(some (), [5, 6])] 3 .useCache none)
  let s2 := s1.write 2 0 0 0 ((), [5])
  let s3 := s2.write 2 0 1 0 ((), [5, 6])
  let s4 := s3.call writer (.publish 0 ⟨[(some (), [5, 6])], 2⟩)
  have h1 : Step (BlockHasher.exact Unit Nat) 2 s0 s1 := by
    refine .call writer _ ?_ fun handle blocks held hop => by cases hop
    rintro request hashes tokenCount policy coverage hop
    cases hop
    exact hblocks
  have h2 : Step (BlockHasher.exact Unit Nat) 2 s1 s2 :=
    .write 0 0 _ 0 ((), [5]) hlease (by decide) rfl fun _ => rfl
  have h3 : Step (BlockHasher.exact Unit Nat) 2 s2 s3 :=
    .write 0 1 _ 0 ((), [5, 6]) hlease (by decide) rfl fun _ => rfl
  have h4 : Step (BlockHasher.exact Unit Nat) 2 s3 s4 := by
    refine .call writer _ (fun _ _ _ _ _ hop => by cases hop) ?_
    rintro handle blocks held hop hheld
    cases hop
    refine { hashes := hblocks, written := ?_ }
    intro position _ hlt _
    match position, hlt with
    | 0, _ => rfl
    | 1, _ => rfl
  have hrun := (((Relation.ReflTransGen.single h1).tail h2).tail h3).tail h4
  have hcontent := run_content hmake (BlockHasher.exact_collisionFree (by decide)) hrun
  exact ⟨s4, hpublished, (hcontent.1 _ _ hpublished).1⟩

end Traced

end EdgeLLM.Ports.ContextCache
