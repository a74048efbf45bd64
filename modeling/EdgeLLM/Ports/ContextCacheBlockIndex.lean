import EdgeLLM.Ports.ContextCacheRecord

/-!
# Block indexes

`BaseBlockIndex` maps a chained block hash to the canonical physical page of
that block and back.  `SpecPagedStateIndex` maps a block hash to the records
that own a coherent speculative path ending there.

Both are lookup structures, not owners, so their correctness is relative to
the stored records: the two base maps are inverse to each other, and the
speculative index carries exactly the multiset of boundaries of the records
with speculative state (`SpecPagedStateIndex.Carries`).
-/

namespace EdgeLLM.Ports.ContextCache

open Verified Checked

variable {H : Type} [DecidableEq H]

structure BaseLookupResult (H : Type) where
  pageIds : List PageId
  matchedHashes : List H

structure BaseInsertResult where
  canonicalPage : PageId
  inserted : Bool

structure BaseBlockIndex (H : Type) where
  forward : Finmap fun _ : H => PageId := ∅
  reverse : Finmap fun _ : PageId => H := ∅

namespace BaseBlockIndex

def lookup (index : BaseBlockIndex H) (hash : H) : Option PageId := index.forward.lookup hash

/-- Longest contiguous prefix present in the index. -/
def lookupPrefix (index : BaseBlockIndex H) : List H → BaseLookupResult H
  | [] => ⟨[], []⟩
  | hash :: hashes =>
    match index.lookup hash with
    | none => ⟨[], []⟩
    | some page =>
      let rest := index.lookupPrefix hashes
      ⟨page :: rest.pageIds, hash :: rest.matchedHashes⟩

/-- First committer wins: an existing key keeps its canonical page. -/
def insert (index : BaseBlockIndex H) (hash : H) (proposedPage : PageId) :
    Except Check (BaseInsertResult × BaseBlockIndex H) :=
  match index.lookup hash with
  | some page => .ok (⟨page, false⟩, index)
  | none => do
      requireThat (0 ≤ proposedPage) .indexNegativePage
      requireThat (index.reverse.lookup proposedPage = none) .pageAlreadyIndexed
      .ok (⟨proposedPage, true⟩,
        ⟨index.forward.insert hash proposedPage, index.reverse.insert proposedPage hash⟩)

/-- Remove the mapping of a physical page; an absent page is a no-op. -/
def erasePage (index : BaseBlockIndex H) (page : PageId) : BaseBlockIndex H :=
  match index.reverse.lookup page with
  | none => index
  | some hash =>
    ⟨if index.forward.lookup hash = some page then index.forward.erase hash else index.forward,
      index.reverse.erase page⟩

/-- The two maps are inverse to each other. -/
def Inverse (index : BaseBlockIndex H) : Prop :=
  ∀ hash page, index.forward.lookup hash = some page ↔ index.reverse.lookup page = some hash

variable {index : BaseBlockIndex H} {hash : H} {page : PageId}

theorem inverse_empty : ({} : BaseBlockIndex H).Inverse := by
  intro hash page
  simp

/-- Two hashes never share a page. -/
theorem Inverse.unique (h : index.Inverse) {hash' : H}
    (h1 : index.lookup hash = some page) (h2 : index.lookup hash' = some page) : hash = hash' := by
  have h1' := (h hash page).1 h1
  have h2' := (h hash' page).1 h2
  rw [h1', Option.some.injEq] at h2'
  exact h2'

theorem Inverse.erasePage (h : index.Inverse) (page : PageId) : (index.erasePage page).Inverse := by
  unfold BaseBlockIndex.erasePage
  cases hrev : index.reverse.lookup page with
  | none => simpa [hrev] using h
  | some hash =>
    have hfwd : index.forward.lookup hash = some page := (h hash page).2 hrev
    simp only [hfwd, if_true]
    intro x q
    by_cases hx : x = hash
    · subst hx
      rw [Finmap.lookup_erase]
      refine ⟨fun hn => by simp at hn, fun hq => ?_⟩
      by_cases hqp : q = page
      · subst hqp
        rw [Finmap.lookup_erase] at hq
        cases hq
      · rw [Finmap.lookup_erase_ne hqp] at hq
        have hfwd' := (h x q).2 hq
        rw [hfwd, Option.some.injEq] at hfwd'
        exact absurd hfwd'.symm hqp
    · rw [Finmap.lookup_erase_ne hx]
      by_cases hqp : q = page
      · subst hqp
        rw [Finmap.lookup_erase]
        refine ⟨fun hq => ?_, fun hn => by simp at hn⟩
        have hrev' := (h x q).1 hq
        rw [hrev, Option.some.injEq] at hrev'
        exact absurd hrev'.symm hx
      · rw [Finmap.lookup_erase_ne hqp]
        exact h x q

/-- Erasing a page removes the mappings to that page and no others. -/
theorem Inverse.lookup_erasePage (h : index.Inverse) {q : PageId} :
    (index.erasePage page).lookup hash = some q ↔ index.lookup hash = some q ∧ q ≠ page := by
  unfold BaseBlockIndex.erasePage lookup
  cases hrev : index.reverse.lookup page with
  | none =>
    simp only [iff_self_and]
    rintro hq rfl
    have hrev' := (h hash q).1 hq
    rw [hrev] at hrev'
    cases hrev'
  | some hash' =>
    have hfwd : index.forward.lookup hash' = some page := (h hash' page).2 hrev
    simp only [hfwd, if_true]
    by_cases hx : hash = hash'
    · subst hx
      rw [Finmap.lookup_erase, hfwd]
      constructor
      · intro hn
        simp at hn
      · rintro ⟨hq, hne⟩
        exact absurd (Option.some.inj hq).symm hne
    · rw [Finmap.lookup_erase_ne hx, iff_self_and]
      rintro hq rfl
      have hrev' := (h hash q).1 hq
      rw [hrev, Option.some.injEq] at hrev'
      exact absurd hrev'.symm hx

/-- The mapping added by an insertion under a free key. -/
def insertFresh (index : BaseBlockIndex H) (hash : H) (page : PageId) : BaseBlockIndex H :=
  ⟨index.forward.insert hash page, index.reverse.insert page hash⟩

theorem Inverse.insertFresh (h : index.Inverse) (hhash : index.lookup hash = none)
    (hpage : index.reverse.lookup page = none) : (index.insertFresh hash page).Inverse := by
  intro x q
  show (index.forward.insert hash page).lookup x = some q ↔
    (index.reverse.insert page hash).lookup q = some x
  by_cases hx : x = hash
  · subst hx
    rw [Finmap.lookup_insert]
    by_cases hq : q = page
    · subst hq
      simp [Finmap.lookup_insert]
    · rw [Finmap.lookup_insert_of_ne _ hq, Option.some.injEq]
      refine ⟨fun he => absurd he.symm hq, fun hrev => ?_⟩
      have hfwd := (h x q).2 hrev
      rw [lookup, hfwd] at hhash
      cases hhash
  · rw [Finmap.lookup_insert_of_ne _ hx]
    by_cases hq : q = page
    · subst hq
      rw [Finmap.lookup_insert, Option.some.injEq]
      refine ⟨fun hfwd => ?_, fun he => absurd he.symm hx⟩
      have hrev := (h x q).1 hfwd
      rw [hpage] at hrev
      cases hrev
    · rw [Finmap.lookup_insert_of_ne _ hq]
      exact h x q

theorem lookup_insertFresh {x : H} (hhash : index.lookup hash = none) {q : PageId} :
    (index.insertFresh hash page).lookup x = some q ↔
      (x = hash ∧ q = page) ∨ index.lookup x = some q := by
  show (index.forward.insert hash page).lookup x = some q ↔ _
  by_cases hx : x = hash
  · subst hx
    rw [Finmap.lookup_insert, hhash]
    simp [eq_comm]
  · rw [Finmap.lookup_insert_of_ne _ hx]
    simp [hx, lookup]

theorem erasePage_insertFresh (hhash : index.lookup hash = none)
    (hpage : index.reverse.lookup page = none) :
    (index.insertFresh hash page).erasePage page = index := by
  have hrev : (index.insertFresh hash page).reverse.lookup page = some hash :=
    Finmap.lookup_insert _
  have hfwd : (index.insertFresh hash page).forward.lookup hash = some page :=
    Finmap.lookup_insert _
  rw [erasePage, hrev]
  simp only [hfwd, if_true]
  show (⟨(index.forward.insert hash page).erase hash,
    (index.reverse.insert page hash).erase page⟩ : BaseBlockIndex H) = index
  rw [erase_insert_self hhash, erase_insert_self hpage]

theorem insert_cases (index : BaseBlockIndex H) (hash : H) (page : PageId) :
    (∃ canonical, index.lookup hash = some canonical ∧
      index.insert hash page = .ok (⟨canonical, false⟩, index)) ∨
    (index.lookup hash = none ∧ index.reverse.lookup page = none ∧
      index.insert hash page = .ok (⟨page, true⟩, index.insertFresh hash page)) ∨
    (index.insert hash page = .error .indexNegativePage ∨
      index.insert hash page = .error .pageAlreadyIndexed) := by
  unfold insert
  cases hl : index.lookup hash with
  | some canonical => exact Or.inl ⟨canonical, rfl, rfl⟩
  | none =>
    right
    by_cases hneg : 0 ≤ page
    · by_cases hrev : index.reverse.lookup page = none
      · exact Or.inl ⟨rfl, hrev, by simp [requireThat, hneg, hrev, bind, Except.bind, insertFresh]⟩
      · exact Or.inr (Or.inr (by simp [requireThat, hneg, hrev, bind, Except.bind]))
    · exact Or.inr (Or.inl (by simp [requireThat, hneg, bind, Except.bind]))

end BaseBlockIndex

/-! ## Speculative paths -/

/-- One record that owns a coherent speculative path of `pathBlockCount`
blocks. -/
structure SpecPagedStateMatch where
  record : RecordId
  pathBlockCount : Int
deriving DecidableEq

structure SpecPagedStateIndex (H : Type) where
  forward : Finmap fun _ : H => List SpecPagedStateMatch := ∅

/-- The boundaries of a block path owned by record `id`, from block `start`. -/
def pathBoundaries (id : RecordId) : Nat → List H → List (H × SpecPagedStateMatch)
  | _, [] => []
  | start, hash :: hashes => (hash, ⟨id, (start : Int) + 1⟩) :: pathBoundaries id (start + 1) hashes

/-- Every paired full-block boundary of a record with speculative state. -/
def CacheRecord.specBoundaries (record : CacheRecord H) : List (H × SpecPagedStateMatch) :=
  match record.specState with
  | none => []
  | some paged => pathBoundaries record.id 0 (record.logicalBlockHashes.take paged.pagePath.length)

namespace SpecPagedStateIndex

/-- The matches stored under a hash. -/
def candidates (index : SpecPagedStateIndex H) (hash : H) : List SpecPagedStateMatch :=
  (index.forward.lookup hash).getD []

/-- The index under insertion with the two undo logs of the `catch` block. -/
structure Insertion (H : Type) where
  index : SpecPagedStateIndex H
  createdKeys : List H := []
  insertedMatches : List (H × SpecPagedStateMatch) := []

/-- One iteration of the insertion loop. -/
def insertBoundary (boundary : H × SpecPagedStateMatch) : Checked Check (Insertion H) Unit := do
  let created ← Checked.read fun s => (s.index.forward.lookup boundary.1).isNone
  let entry ← Checked.read fun s => s.index.candidates boundary.1
  Checked.modify fun s =>
    { s with index := ⟨s.index.forward.insert boundary.1 entry⟩ }
  Checked.check (boundary.2 ∉ entry) .specRecordAlreadyIndexed
  Checked.modify fun s =>
    { index := ⟨s.index.forward.insert boundary.1 (entry ++ [boundary.2])⟩
      createdKeys := if created then s.createdKeys ++ [boundary.1] else s.createdKeys
      insertedMatches := s.insertedMatches ++ [boundary] }

/-- Undo of one logged match. -/
def undoMatch (index : SpecPagedStateIndex H) (boundary : H × SpecPagedStateMatch) :
    SpecPagedStateIndex H :=
  match index.forward.lookup boundary.1 with
  | none => index
  | some entry => ⟨index.forward.insert boundary.1 (entry.erase boundary.2)⟩

/-- Undo of one logged key: drop it when it is empty again. -/
def undoKey (index : SpecPagedStateIndex H) (hash : H) : SpecPagedStateIndex H :=
  if index.forward.lookup hash = some [] then ⟨index.forward.erase hash⟩ else index

/-- The `catch` block of `insert`. -/
def undoInsertion (s : Insertion H) : Insertion H :=
  { s with
    index := s.createdKeys.reverse.foldl undoKey (s.insertedMatches.reverse.foldl undoMatch s.index) }

/-- Register every boundary of a record with speculative state. -/
def insert (record : CacheRecord H) : Checked Check (SpecPagedStateIndex H) Unit :=
  match record.specState with
  | none => pure ()
  | some paged => do
      Checked.check (record.id ≠ 0) .specIndexWithoutRecordId
      Checked.check (paged.pagePath.length = record.logicalBlockHashes.length)
        .specPathNotLogicalPath
      Checked.zoom (fun index => { index := index }) (fun (s : Insertion H) _ => s.index)
        (onThrow .terminated (forEach insertBoundary record.specBoundaries)
          (Checked.modify undoInsertion))

/-- One iteration of the removal loop. -/
def eraseBoundary (boundary : H × SpecPagedStateMatch) :
    Checked Check (SpecPagedStateIndex H) Unit := do
  let entry ← Checked.read fun index => index.forward.lookup boundary.1
  match entry with
  | none => Checked.fail .specIndexMissingBoundary
  | some entry => do
      Checked.check (boundary.2 ∈ entry) .specIndexMissingCandidate
      Checked.modify fun index =>
        if entry.erase boundary.2 = [] then ⟨index.forward.erase boundary.1⟩
        else ⟨index.forward.insert boundary.1 (entry.erase boundary.2)⟩

/-- Remove the entries owned by a record. -/
def erase (record : CacheRecord H) : Checked Check (SpecPagedStateIndex H) Unit :=
  forEach eraseBoundary record.specBoundaries

/-- The loop of `lookupLongest`, from `blockCount` downwards; the last
matching candidate of a hash wins. -/
def lookupFrom (index : SpecPagedStateIndex H) (hashes : List H) :
    Nat → Option SpecPagedStateMatch
  | 0 => none
  | n + 1 =>
    match (hashes[n]?.map index.candidates).bind fun entry =>
        entry.reverse.find? fun m => m.pathBlockCount == (n : Int) + 1 with
    | some found => some found
    | none => index.lookupFrom hashes n

def lookupLongest (index : SpecPagedStateIndex H) (hashes : List H) (maxBlockCount : Int) :
    Except Check (Option SpecPagedStateMatch) :=
  if 0 ≤ maxBlockCount ∧ maxBlockCount.toNat ≤ hashes.length then
    .ok (index.lookupFrom hashes maxBlockCount.toNat)
  else .error .specLookupExceedsPath

/-- The index holds exactly the boundaries `B`, with their multiplicity, and
keeps no empty entry. -/
structure Carries (index : SpecPagedStateIndex H) (B : Multiset (H × SpecPagedStateMatch)) :
    Prop where
  count : ∀ hash m, (index.candidates hash).count m = B.count (hash, m)
  nonempty : ∀ hash, index.forward.lookup hash ≠ some []

variable {index : SpecPagedStateIndex H} {B : Multiset (H × SpecPagedStateMatch)}
  {boundary : H × SpecPagedStateMatch}

theorem carries_empty : ({} : SpecPagedStateIndex H).Carries 0 where
  count hash m := by simp [candidates]
  nonempty hash := by simp

theorem candidates_insert_self (m : Finmap fun _ : H => List SpecPagedStateMatch) (hash : H)
    (entry : List SpecPagedStateMatch) :
    (⟨m.insert hash entry⟩ : SpecPagedStateIndex H).candidates hash = entry := by
  simp [candidates, Finmap.lookup_insert]

theorem candidates_insert_ne (m : Finmap fun _ : H => List SpecPagedStateMatch) {hash x : H}
    (entry : List SpecPagedStateMatch) (hx : x ≠ hash) :
    (⟨m.insert hash entry⟩ : SpecPagedStateIndex H).candidates x =
      (⟨m⟩ : SpecPagedStateIndex H).candidates x := by
  simp [candidates, Finmap.lookup_insert_of_ne _ hx]

private theorem count_cons_boundary (B : Multiset (H × SpecPagedStateMatch))
    (boundary : H × SpecPagedStateMatch) (x : H) (m : SpecPagedStateMatch) :
    (boundary ::ₘ B).count (x, m) =
      B.count (x, m) + if x = boundary.1 ∧ m = boundary.2 then 1 else 0 := by
  rw [Multiset.count_cons]
  obtain ⟨hash, m'⟩ := boundary
  simp [Prod.ext_iff]

/-- Appending a new match to the entry of its hash. -/
theorem Carries.append (h : index.Carries B) :
    (⟨index.forward.insert boundary.1 (index.candidates boundary.1 ++ [boundary.2])⟩ :
      SpecPagedStateIndex H).Carries (boundary ::ₘ B) where
  count x m := by
    rw [count_cons_boundary, ← h.count]
    by_cases hx : x = boundary.1
    · subst hx
      rw [candidates_insert_self, List.count_append, List.count_singleton]
      by_cases hm : m = boundary.2
      · simp [candidates, hm]
      · simp [candidates, hm, Ne.symm hm]
    · rw [candidates_insert_ne _ _ hx]
      simp [hx]
  nonempty x := by
    by_cases hx : x = boundary.1
    · subst hx
      rw [Finmap.lookup_insert]
      simp
    · rw [Finmap.lookup_insert_of_ne _ hx]
      exact h.nonempty x

/-- Indexing a boundary that is not there yet cannot throw. -/
theorem insertBoundary_spec {s : Insertion H} (h : s.index.Carries B) (hnew : boundary ∉ B) :
    (insertBoundary boundary).Ensures
      (fun _ s' => s'.index.Carries (boundary ::ₘ B)) (fun _ _ => False) s := by
  have hnot : boundary.2 ∉ s.index.candidates boundary.1 := by
    rw [← List.count_eq_zero, h.count]
    exact Multiset.count_eq_zero.2 hnew
  simp only [insertBoundary, ensures_bind, ensures_read, ensures_modify, ensures_check]
  refine ⟨fun _ => ?_, fun hc => hc hnot⟩
  rw [Finmap.insert_insert]
  exact h.append

/-- The insertion loop over boundaries that are all new. -/
theorem insertLoop_spec :
    ∀ (bs : List (H × SpecPagedStateMatch)) {s : Insertion H} {B : Multiset _},
      s.index.Carries B → bs.Nodup → (∀ b ∈ bs, b ∉ B) → (forEach insertBoundary bs).Ensures
          (fun _ s' => s'.index.Carries (↑bs + B)) (fun _ _ => False) s := by
  intro bs
  induction bs with
  | nil => intro s B h _ _; simpa [forEach] using h
  | cons b rest ih =>
    intro s B h hnodup hnew
    obtain ⟨hnot, hnodup⟩ := List.nodup_cons.1 hnodup
    refine (insertBoundary_spec h (hnew b (by simp))).bind fun _ s' hs' => ?_
    have hfresh : ∀ x ∈ rest, x ∉ b ::ₘ B := by
      intro x hx
      rw [Multiset.mem_cons, not_or]
      exact ⟨fun he => hnot (he ▸ hx), hnew x (by simp [hx])⟩
    refine (ih hs' hnodup hfresh).mono ?_ fun _ _ hf => hf
    intro _ s'' hs''
    rwa [← Multiset.cons_coe, Multiset.cons_add, ← Multiset.add_cons]

/-- Registering a record whose boundaries are all new. -/
theorem insert_spec {record : CacheRecord H} (h : index.Carries B) (hid : record.id ≠ 0)
    (hpath : ∀ state, record.specState = some state →
      state.pagePath.length = record.logicalBlockHashes.length)
    (hnodup : record.specBoundaries.Nodup) (hnew : ∀ b ∈ record.specBoundaries, b ∉ B) :
    (insert record).Ensures (fun _ index' => index'.Carries (↑record.specBoundaries + B))
      (fun _ _ => False) index := by
  unfold insert
  cases hspec : record.specState with
  | none =>
    have hnil : record.specBoundaries = [] := by simp [CacheRecord.specBoundaries, hspec]
    simpa [hnil] using h
  | some paged =>
    simp only [ensures_bind, ensures_check]
    refine ⟨fun _ => ⟨fun _ => ?_, fun hc => hc (hpath paged hspec)⟩, fun hc => hc hid⟩
    rw [ensures_zoom, ensures_onThrow]
    refine (insertLoop_spec _ h hnodup hnew).mono (fun _ _ hs => hs) ?_
    exact fun _ _ hf => hf.elim

/-- Removing a boundary that is there cannot throw. -/
theorem eraseBoundary_spec (h : index.Carries (boundary ::ₘ B)) :
    (eraseBoundary boundary).Ensures (fun _ index' => index'.Carries B)
      (fun _ _ => False) index := by
  have hpos : 0 < (index.candidates boundary.1).count boundary.2 := by
    rw [h.count, count_cons_boundary]
    simp
  simp only [eraseBoundary, ensures_bind, ensures_read]
  cases hl : index.forward.lookup boundary.1 with
  | none => simp [candidates, hl] at hpos
  | some entry =>
    have hentry : index.candidates boundary.1 = entry := by simp [candidates, hl]
    rw [hentry] at hpos
    simp only [ensures_bind, ensures_check, ensures_modify]
    refine ⟨fun _ => ?_, fun hc => hc (List.count_pos_iff.1 hpos)⟩
    have hcount : ∀ m, (entry.erase boundary.2).count m = B.count (boundary.1, m) := by
      intro m
      have hm := h.count boundary.1 m
      rw [hentry, count_cons_boundary] at hm
      rw [List.count_erase, hm]
      by_cases he : m = boundary.2
      · subst he
        simp
      · simp [he, Ne.symm he]
    have hother : ∀ x m, x ≠ boundary.1 → (index.candidates x).count m = B.count (x, m) := by
      intro x m hx
      rw [h.count, count_cons_boundary]
      simp [hx]
    by_cases hnil : entry.erase boundary.2 = []
    · rw [if_pos hnil]
      refine ⟨fun x m => ?_, fun x => ?_⟩
      · by_cases hx : x = boundary.1
        · subst hx
          rw [← hcount m, hnil]
          simp [candidates, Finmap.lookup_erase]
        · rw [← hother x m hx]
          simp [candidates, Finmap.lookup_erase_ne hx]
      · by_cases hx : x = boundary.1
        · subst hx
          simp [Finmap.lookup_erase]
        · rw [Finmap.lookup_erase_ne hx]
          exact h.nonempty x
    · rw [if_neg hnil]
      refine ⟨fun x m => ?_, fun x => ?_⟩
      · by_cases hx : x = boundary.1
        · subst hx
          rw [candidates_insert_self, hcount]
        · rw [candidates_insert_ne _ _ hx]
          exact hother x m hx
      · by_cases hx : x = boundary.1
        · subst hx
          rw [Finmap.lookup_insert]
          simpa using hnil
        · rw [Finmap.lookup_insert_of_ne _ hx]
          exact h.nonempty x

theorem erase_spec {record : CacheRecord H} (h : index.Carries (↑record.specBoundaries + B)) :
    (erase record).Ensures (fun _ index' => index'.Carries B) (fun _ _ => False) index := by
  refine (Ensures.forEach (fun rest index => index.Carries (↑rest + B)) ?_ _ _ h).mono
    ?_ fun _ _ hf => hf
  · intro b rest index hinv
    rw [← Multiset.cons_coe, Multiset.cons_add] at hinv
    exact eraseBoundary_spec hinv
  · intro _ index' hinv
    simpa using hinv

end SpecPagedStateIndex

/-! ## Boundaries of a record -/

omit [DecidableEq H] in
theorem mem_pathBoundaries {id : RecordId} {hashes : List H} :
    ∀ {start : Nat} {b : H × SpecPagedStateMatch}, b ∈ pathBoundaries id start hashes ↔
      ∃ i, hashes[i]? = some b.1 ∧ b.2 = ⟨id, ((start + i : Nat) : Int) + 1⟩ := by
  induction hashes with
  | nil => intro start b; simp [pathBoundaries]
  | cons hash hashes ih =>
    intro start b
    rw [pathBoundaries, List.mem_cons, ih]
    constructor
    · rintro (rfl | ⟨i, hi, hb⟩)
      · exact ⟨0, rfl, rfl⟩
      · exact ⟨i + 1, hi, by rw [hb]; congr 2; omega⟩
    · rintro ⟨i, hi, hb⟩
      cases i with
      | zero =>
        left
        simp only [List.getElem?_cons_zero, Option.some.injEq] at hi
        exact Prod.ext hi.symm hb
      | succ i =>
        right
        exact ⟨i, hi, by rw [hb]; congr 2; omega⟩

omit [DecidableEq H] in
theorem nodup_pathBoundaries (id : RecordId) (hashes : List H) :
    ∀ start, (pathBoundaries id start hashes).Nodup := by
  induction hashes with
  | nil => intro start; exact List.nodup_nil
  | cons hash hashes ih =>
    intro start
    refine List.nodup_cons.2 ⟨?_, ih (start + 1)⟩
    intro hmem
    obtain ⟨i, -, hb⟩ := mem_pathBoundaries.1 hmem
    have := congrArg SpecPagedStateMatch.pathBlockCount hb
    simp only at this
    omega

omit [DecidableEq H] in
theorem nodup_specBoundaries (record : CacheRecord H) : record.specBoundaries.Nodup := by
  unfold CacheRecord.specBoundaries
  split
  · exact List.nodup_nil
  · exact nodup_pathBoundaries _ _ _

omit [DecidableEq H] in
/-- The boundaries of a record, read off its paths. -/
theorem CacheRecord.mem_specBoundaries {record : CacheRecord H} {hash : H}
    {found : SpecPagedStateMatch} : (hash, found) ∈ record.specBoundaries ↔
      ∃ state, record.specState = some state ∧ ∃ k, k < state.pagePath.length ∧
        record.logicalBlockHashes[k]? = some hash ∧ found = ⟨record.id, (k : Int) + 1⟩ := by
  unfold CacheRecord.specBoundaries
  cases hstate : record.specState with
  | none => simp
  | some state =>
    simp only [mem_pathBoundaries, List.getElem?_take, Nat.zero_add, Option.some.injEq,
      exists_eq_left']
    constructor
    · rintro ⟨k, hk, hfound⟩
      by_cases hlt : k < state.pagePath.length
      · rw [if_pos hlt] at hk
        exact ⟨k, hlt, hk, hfound⟩
      · rw [if_neg hlt] at hk
        cases hk
    · rintro ⟨k, hlt, hk, hfound⟩
      exact ⟨k, by rw [if_pos hlt, hk], hfound⟩

omit [DecidableEq H] in
theorem record_of_mem_specBoundaries {record : CacheRecord H} {b : H × SpecPagedStateMatch}
    (h : b ∈ record.specBoundaries) : b.2.record = record.id := by
  unfold CacheRecord.specBoundaries at h
  split at h
  · simp at h
  · obtain ⟨i, -, hb⟩ := mem_pathBoundaries.1 h
    rw [hb]

end EdgeLLM.Ports.ContextCache
