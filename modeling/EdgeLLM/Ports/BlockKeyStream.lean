import EdgeLLM.Ports.BlockHash

/-!
# When the stream of a block key is unambiguous

Every field starts with its tag or has a fixed length, except that a position of
a block is either a tag and a digest or a bare token id: an id whose lowest byte is
that tag can be read as the start of a digest.
-/

namespace EdgeLLM.Ports.BlockKey

open Verified

/-! ## Fields of fixed length -/

theorem length_littleEndian {w : Nat} (count : Nat) (value : BitVec w) :
    (littleEndian count value).length = count := by
  rw [littleEndian, List.length_map, List.length_range]

theorem littleEndian_inj {w count : Nat} (hw : w ≤ 8 * count) {a b : BitVec w}
    (h : littleEndian count a = littleEndian count b) : a = b := by
  apply BitVec.eq_of_getLsbD_eq
  intro k hk
  have hmem : k / 8 ∈ List.range count := List.mem_range.2 (by omega)
  have hbyte := List.map_inj_left.1 h (k / 8) hmem
  have hbit := congrArg (fun byte : Byte => byte.getLsbD (k % 8)) hbyte
  have hlt : k % 8 < 8 := Nat.mod_lt k (by decide)
  simp only [BitVec.getLsbD_setWidth, BitVec.getLsbD_ushiftRight, hlt, decide_true,
    Bool.true_and, Nat.div_add_mod] at hbit
  exact hbit

section Delimiting

theorem u32_delimiting : SelfDelimiting (fun _ _ => True) fnvU32 :=
  .of_length 4 (length_littleEndian 4) fun _ _ => littleEndian_inj (by omega)

theorem u64_delimiting : SelfDelimiting (fun _ _ => True) fnvU64 :=
  .of_length 8 (length_littleEndian 8) fun _ _ => littleEndian_inj (by omega)

theorem count_delimiting : SelfDelimiting (fun a b => a < 2 ^ 64 ∧ b < 2 ^ 64) fnvCount := by
  intro a b r r' hab heq
  obtain ⟨hsame, hrest⟩ := u64_delimiting _ _ _ _ trivial heq
  have hnat := congrArg BitVec.toNat hsame
  rw [BitVec.toNat_ofNat, BitVec.toNat_ofNat, Nat.mod_eq_of_lt hab.1, Nat.mod_eq_of_lt hab.2] at hnat
  exact ⟨hnat, hrest⟩

theorem hash_delimiting : SelfDelimiting (fun _ _ => True) fnvHash := by
  intro a b r r' _ heq
  obtain ⟨hsame, hrest⟩ := u64_delimiting.append u64_delimiting (a.hi, a.lo) (b.hi, b.lo) r r'
    ⟨trivial, trivial⟩ heq
  rw [Prod.mk.injEq] at hsame
  exact ⟨by cases a; cases b; simp_all, hrest⟩

theorem optional_delimiting {α : Type} {write : α → List Byte}
    (h : SelfDelimiting (fun _ _ => True) write) :
    SelfDelimiting (fun _ _ => True) (fnvOptional write) := by
  have hmarked := h.optional Tag.kAbsent.byte Tag.kPresent.byte (by decide)
  intro a b r r' hab heq
  apply hmarked a b r r' hab
  cases a <;> cases b <;> exact heq

theorem optionalHash_delimiting (tag : Tag) :
    SelfDelimiting (fun _ _ => True) (fnvOptionalHash tag) :=
  (optional_delimiting hash_delimiting).tagged _

theorem byte_delimiting : SelfDelimiting (fun _ _ => True) fun byte : Byte => [byte] :=
  .of_length 1 (fun _ => rfl) fun _ _ heq => (List.cons.inj heq).1

theorem mediaSpan_delimiting : SelfDelimiting (fun _ _ => True) MediaSpanKey.bytes := by
  intro a b r r' _ heq
  unfold MediaSpanKey.bytes at heq
  simp only [List.append_assoc] at heq
  obtain ⟨hcontent, heq⟩ := hash_delimiting _ _ _ _ trivial
    (List.append_cancel_left (List.append_cancel_left heq))
  obtain ⟨hplacement, heq⟩ := hash_delimiting _ _ _ _ trivial (List.append_cancel_left heq)
  obtain ⟨hoffset, heq⟩ := u32_delimiting _ _ _ _ trivial (List.append_cancel_left heq)
  obtain ⟨horder, heq⟩ := u32_delimiting _ _ _ _ trivial (List.append_cancel_left heq)
  obtain ⟨hmodality, hrest⟩ := byte_delimiting _ _ _ _ trivial (List.append_cancel_left heq)
  exact ⟨by cases a; cases b; simp_all, hrest⟩

theorem adapter_delimiting : SelfDelimiting (fun _ _ => True) AdapterKey.bytes := by
  intro a b r r' _ heq
  unfold AdapterKey.bytes at heq
  simp only [List.append_assoc] at heq
  obtain ⟨hid, heq⟩ := hash_delimiting _ _ _ _ trivial (List.append_cancel_left heq)
  obtain ⟨hgeneration, hrest⟩ := u64_delimiting _ _ _ _ trivial (List.append_cancel_left heq)
  exact ⟨by cases a; cases b; simp_all, hrest⟩

/-- The other inputs of a block; the number of media spans is a `size_t`. -/
theorem extras_delimiting :
    SelfDelimiting (fun a b : BlockKeyExtras => a.media.length < 2 ^ 64 ∧ b.media.length < 2 ^ 64)
      BlockKeyExtras.bytes := by
  intro a b r r' hab heq
  unfold BlockKeyExtras.bytes at heq
  simp only [List.append_assoc] at heq
  have heq := List.append_cancel_left heq
  rw [← List.append_assoc (fnvCount _), ← List.append_assoc (fnvCount _)] at heq
  obtain ⟨hmedia, heq⟩ := mediaSpan_delimiting.counted count_delimiting _ _ _ _
    ⟨hab, fun hlength => List.forall₂_iff_zip.2 ⟨hlength, fun _ => trivial⟩⟩ heq
  obtain ⟨hadapter, heq⟩ := optional_delimiting adapter_delimiting _ _ _ _ trivial
    (List.append_cancel_left heq)
  obtain ⟨hposition, heq⟩ := optionalHash_delimiting _ _ _ _ _ trivial heq
  obtain ⟨hcustom, heq⟩ := optionalHash_delimiting _ _ _ _ _ trivial heq
  obtain ⟨hisolation, hrest⟩ := optionalHash_delimiting _ _ _ _ _ trivial heq
  exact ⟨by cases a; cases b; simp_all, hrest⟩

end Delimiting

/-! ## Positions -/

/-- The lowest byte of the id is the tag of a digest. -/
def Lookalike (id : BitVec 32) : Prop := id.setWidth 8 = Tag.kMediaToken.byte

instance (id : BitVec 32) : Decidable (Lookalike id) := inferInstanceAs (Decidable (_ = _))

/-- One is a digest and the other an id that looks like one. -/
def Entry.Clash : Entry → Entry → Prop
  | .media _, .token id | .token id, .media _ => Lookalike id
  | _, _ => False

theorem fnvI32_head (id : BitVec 32) : ∃ rest, fnvI32 id = id.setWidth 8 :: rest := by
  refine ⟨(List.range' 1 3).map fun index => (id >>> (8 * index)).setWidth 8, ?_⟩
  rw [fnvI32, fnvU32, littleEndian, List.range_eq_range']
  simp [List.range'_succ]

/-- The two readings of a position differ in the first byte, unless they clash. -/
theorem entry_delimiting : SelfDelimiting (fun a b : Entry => ¬a.Clash b) Entry.bytes := by
  have hmixed : ∀ {digest : Hash128} {id : BitVec 32} {r r' : List Byte}, ¬Lookalike id →
      (Entry.media digest).bytes ++ r ≠ (Entry.token id).bytes ++ r' := by
    intro digest id r r' hid heq
    obtain ⟨rest, hrest⟩ := fnvI32_head id
    rw [Entry.bytes, Entry.bytes, hrest, fnvTag, List.cons_append, List.cons_append,
      List.cons_append, List.cons.injEq] at heq
    exact hid heq.1.symm
  intro a b r r' hab heq
  cases a with
  | media digest =>
    cases b with
    | media digest' =>
      obtain ⟨hsame, hrest⟩ := (hash_delimiting.tagged _) _ _ _ _ trivial heq
      exact ⟨by rw [hsame], hrest⟩
    | token id => exact absurd heq (hmixed hab)
  | token id =>
    cases b with
    | media digest => exact absurd heq.symm (hmixed hab)
    | token id' =>
      obtain ⟨hsame, hrest⟩ := u32_delimiting _ _ _ _ trivial heq
      exact ⟨by rw [hsame], hrest⟩
/-! ## Blocks -/

/-- The arguments of `hashBlock`. -/
structure BlockInput where
  parent : BlockHash
  tokens : List (BitVec 32)
  extras : BlockKeyExtras
  perPositionMediaHash : Option (Nat → Hash128)
  tokens_lt : tokens.length < 2 ^ 64
  media_lt : extras.media.length < 2 ^ 64

namespace BlockInput

variable {x y : BlockInput}

def bytes (x : BlockInput) : List Byte :=
  blockBytes x.parent x.tokens x.extras x.perPositionMediaHash

def entries (x : BlockInput) : List Entry := BlockKey.entries x.tokens x.perPositionMediaHash

/-- The same parent, count, media positions with their digests, token ids at the other
positions and extras. -/
def SameIdentity (x y : BlockInput) : Prop :=
  x.parent = y.parent ∧ x.tokens.length = y.tokens.length ∧
    (∀ i, i < x.tokens.length →
      mediaDigest x.perPositionMediaHash i = mediaDigest y.perPositionMediaHash i ∧
        (mediaDigest x.perPositionMediaHash i = none → x.tokens[i]? = y.tokens[i]?)) ∧
    x.extras = y.extras

/-- At some position one block has an id that looks like the digest of the other. -/
def Clash (x y : BlockInput) : Prop :=
  ∃ (i : Nat) (a b : Entry), x.entries[i]? = some a ∧ y.entries[i]? = some b ∧ a.Clash b

/-- Token ids at the positions without digest, and whether there may be digests. -/
def Allowed (ids : Set (BitVec 32)) (withMedia : Bool) (x : BlockInput) : Prop :=
  ∀ entry ∈ x.entries, match entry with
    | .media _ => withMedia = true
    | .token id => id ∈ ids

theorem length_entries (x : BlockInput) : x.entries.length = x.tokens.length :=
  List.length_mapIdx

theorem getElem?_entries (x : BlockInput) (i : Nat) :
    x.entries[i]? = x.tokens[i]?.map (entryAt x.perPositionMediaHash i) :=
  List.getElem?_mapIdx

variable {i : Nat} {id : BitVec 32}

/-- What stands at a position, once the token is known. -/
theorem entryAt_eq_iff {h h' : Option (Nat → Hash128)} {token token' : BitVec 32} :
    entryAt h i token = entryAt h' i token' ↔
      mediaDigest h i = mediaDigest h' i ∧ (mediaDigest h i = none → token = token') := by
  unfold entryAt
  cases mediaDigest h i <;> cases mediaDigest h' i <;> simp

theorem sameIdentity_iff :
    SameIdentity x y ↔ x.parent = y.parent ∧ x.entries = y.entries ∧ x.extras = y.extras := by
  have hentries : x.entries = y.entries ↔ x.tokens.length = y.tokens.length ∧
      ∀ i, i < x.tokens.length →
        mediaDigest x.perPositionMediaHash i = mediaDigest y.perPositionMediaHash i ∧
          (mediaDigest x.perPositionMediaHash i = none → x.tokens[i]? = y.tokens[i]?) := by
    constructor
    · intro heq
      have hlength := congrArg List.length heq
      rw [length_entries, length_entries] at hlength
      refine ⟨hlength, ?_⟩
      intro i hi
      have hget := congrArg (fun es : List Entry => es[i]?) heq
      rw [getElem?_entries, getElem?_entries, List.getElem?_eq_getElem hi,
        List.getElem?_eq_getElem (hlength ▸ hi), Option.map_some, Option.map_some,
        Option.some.injEq, entryAt_eq_iff] at hget
      rw [List.getElem?_eq_getElem hi, List.getElem?_eq_getElem (hlength ▸ hi), Option.some.injEq]
      exact hget
    · rintro ⟨hlength, hall⟩
      apply List.ext_getElem?
      intro i
      rw [getElem?_entries, getElem?_entries]
      by_cases hi : i < x.tokens.length
      · have hsame := hall i hi
        rw [List.getElem?_eq_getElem hi, List.getElem?_eq_getElem (hlength ▸ hi),
          Option.some.injEq] at hsame
        rw [List.getElem?_eq_getElem hi, List.getElem?_eq_getElem (hlength ▸ hi), Option.map_some,
          Option.map_some, entryAt_eq_iff.2 hsame]
      · rw [List.getElem?_eq_none (by omega), List.getElem?_eq_none (by omega)]
        rfl
  unfold SameIdentity
  rw [hentries]
  tauto

/-- Blocks that do not clash are told apart by their bytes. -/
theorem sameIdentity_of_bytes (hclash : ¬Clash x y) (heq : x.bytes = y.bytes) :
    SameIdentity x y := by
  unfold bytes blockBytes at heq
  rw [← length_entries, ← length_entries y] at heq
  have hx : x.entries.length < 2 ^ 64 := x.length_entries ▸ x.tokens_lt
  have hy : y.entries.length < 2 ^ 64 := y.length_entries ▸ y.tokens_lt
  have hpositions : x.entries.length = y.entries.length →
      List.Forall₂ (fun a b : Entry => ¬a.Clash b) x.entries y.entries := by
    intro hlength
    rw [List.forall₂_iff_get]
    refine ⟨hlength, ?_⟩
    intro i hix hiy hab
    exact hclash ⟨i, _, _, List.getElem?_eq_getElem hix, List.getElem?_eq_getElem hiy, hab⟩
  have hall := ((hash_delimiting.tagged (fnvTag .kParent)).append
    ((entry_delimiting.counted count_delimiting).tagged (fnvTag .kTokens))).append
      extras_delimiting
  have hsame := hall.injective (a := ((x.parent, x.entries), x.extras))
    (b := ((y.parent, y.entries), y.extras))
    ⟨⟨trivial, ⟨hx, hy⟩, hpositions⟩, x.media_lt, y.media_lt⟩ heq
  rw [Prod.mk.injEq, Prod.mk.injEq] at hsame
  exact sameIdentity_iff.2 ⟨hsame.1.1, hsame.1.2, hsame.2⟩

/-- Nothing clashes with itself. -/
theorem not_clash_of_sameIdentity (h : SameIdentity x y) : ¬Clash x y := by
  rintro ⟨i, a, b, ha, hb, hab⟩
  rw [(sameIdentity_iff.1 h).2.1, hb, Option.some.injEq] at ha
  rw [ha] at hab
  cases a <;> exact hab

theorem not_clash_of_allowed {ids : Set (BitVec 32)} {withMedia : Bool}
    (hids : withMedia = false ∨ ∀ id ∈ ids, ¬Lookalike id) (hx : x.Allowed ids withMedia)
    (hy : y.Allowed ids withMedia) : ¬Clash x y := by
  -- a clash needs a digest and an id that looks like one
  have hnone : ∀ {digest : Hash128} {id : BitVec 32} {u v : BlockInput},
      u.Allowed ids withMedia → v.Allowed ids withMedia → .media digest ∈ u.entries →
        .token id ∈ v.entries → ¬Lookalike id := by
    intro digest id u v hu hv hdigest hid
    have hmedia : withMedia = true := hu _ hdigest
    rcases hids with hoff | hids
    · rw [hoff] at hmedia
      cases hmedia
    · exact hids id (hv _ hid)
  rintro ⟨i, a, b, ha, hb, hab⟩
  have ha := List.mem_of_getElem? ha
  have hb := List.mem_of_getElem? hb
  cases a with
  | media digest =>
    cases b with
    | media digest' => exact hab
    | token id => exact hnone hx hy ha hb hab
  | token id =>
    cases b with
    | media digest => exact hnone hy hx hb ha hab
    | token id' => exact hab

/-- The digest whose last bytes are the id. -/
def endingIn (id : BitVec 32) : Hash128 := { lo := BitVec.ofNat 64 (id.toNat * 2 ^ 32) }

/-- The digest that starts in the id, after its lowest byte, and goes on with the tag. -/
def startingIn (id : BitVec 32) : Hash128 :=
  { hi := BitVec.ofNat 64 (id.toNat / 2 ^ 8 + 19 * 2 ^ 24) }

/-- An id that looks like a digest, then a digest that ends in the id. -/
def tokenFirst (id : BitVec 32) : BlockInput where
  parent := {}
  tokens := [id, id]
  extras := {}
  perPositionMediaHash := some fun index => if index = 1 then endingIn id else {}
  tokens_lt := show 2 < 2 ^ 64 by decide
  media_lt := by decide

/-- The digest that the id is read as, then the id. -/
def mediaFirst (id : BitVec 32) : BlockInput where
  parent := {}
  tokens := [id, id]
  extras := {}
  perPositionMediaHash := some fun index => if index = 0 then startingIn id else {}
  tokens_lt := show 2 < 2 ^ 64 by decide
  media_lt := by decide

theorem lookalike_toNat : Lookalike id ↔ id.toNat % 256 = 19 := by
  unfold Lookalike
  rw [← BitVec.toNat_inj, BitVec.toNat_setWidth]
  exact Iff.rfl

theorem endingIn_ne (hid : Lookalike id) : endingIn id ≠ {} := by
  rw [lookalike_toNat] at hid
  intro heq
  have hlt := id.isLt
  rw [endingIn, Hash128.mk.injEq] at heq
  have hlo := congrArg BitVec.toNat heq.2
  rw [BitVec.toNat_ofNat, Nat.mod_eq_of_lt (by omega), BitVec.ofNat_eq_ofNat, BitVec.toNat_zero] at hlo
  omega

theorem startingIn_ne (id : BitVec 32) : startingIn id ≠ {} := by
  intro heq
  have hlt := id.isLt
  rw [startingIn, Hash128.mk.injEq] at heq
  have hhi := congrArg BitVec.toNat heq.1
  rw [BitVec.toNat_ofNat, Nat.mod_eq_of_lt (by omega), BitVec.ofNat_eq_ofNat, BitVec.toNat_zero] at hhi
  omega

theorem entryAt_media {hashes : Nat → Hash128} {token : BitVec 32} (h : hashes i ≠ {}) :
    entryAt (some hashes) i token = .media (hashes i) := by
  simp only [entryAt, mediaDigest, if_pos h]

theorem entryAt_token {hashes : Nat → Hash128} {token : BitVec 32} (h : hashes i = {}) :
    entryAt (some hashes) i token = .token token := by
  have hnot : ¬hashes i ≠ {} := fun hne => hne h
  simp only [entryAt, mediaDigest, if_neg hnot]

theorem entries_tokenFirst (hid : Lookalike id) :
    (tokenFirst id).entries = [.token id, .media (endingIn id)] := by
  unfold entries BlockKey.entries tokenFirst
  rw [List.mapIdx_cons, List.mapIdx_cons, List.mapIdx_nil,
    entryAt_token (by rw [if_neg (by decide)]), entryAt_media (by rw [if_pos rfl]; exact endingIn_ne hid),
    if_pos rfl]

theorem entries_mediaFirst (id : BitVec 32) :
    (mediaFirst id).entries = [.media (startingIn id), .token id] := by
  unfold entries BlockKey.entries mediaFirst
  rw [List.mapIdx_cons, List.mapIdx_cons, List.mapIdx_nil,
    entryAt_media (by rw [if_pos rfl]; exact startingIn_ne id), if_pos rfl,
    entryAt_token (by rw [if_neg (by decide)])]

theorem littleEndian_toNat {w : Nat} (count : Nat) (value : BitVec w) : littleEndian count value =
      (List.range count).map fun index => BitVec.ofNat 8 (value.toNat / 2 ^ (8 * index)) := by
  apply List.map_congr_left
  intro index _
  rw [← BitVec.toNat_inj, BitVec.toNat_setWidth, BitVec.toNat_ushiftRight,
    Nat.shiftRight_eq_div_pow, BitVec.toNat_ofNat]

theorem bytes_tokenFirst (hid : Lookalike id) : (tokenFirst id).bytes = (mediaFirst id).bytes := by
  have hentries : (tokenFirst id).entries.flatMap Entry.bytes =
      (mediaFirst id).entries.flatMap Entry.bytes := by
    rw [entries_tokenFirst hid, entries_mediaFirst]
    rw [lookalike_toNat] at hid
    have hlt := id.isLt
    have hlo : (endingIn id).lo.toNat = id.toNat * 2 ^ 32 := by
      rw [endingIn, BitVec.toNat_ofNat, Nat.mod_eq_of_lt (by omega)]
    have hhi : (startingIn id).hi.toNat = id.toNat / 2 ^ 8 + 19 * 2 ^ 24 := by
      rw [startingIn, BitVec.toNat_ofNat, Nat.mod_eq_of_lt (by omega)]
    have hzero : (endingIn id).hi.toNat = 0 ∧ (startingIn id).lo.toNat = 0 := ⟨rfl, rfl⟩
    simp only [List.flatMap_cons, List.flatMap_nil, Entry.bytes, fnvI32, fnvU32, fnvU64, fnvHash,
      littleEndian_toNat, hlo, hhi, hzero, fnvTag]
    have hbyte : ∀ a b, a % 256 = b % 256 → BitVec.ofNat 8 a = BitVec.ofNat 8 b := by
      intro a b hab
      apply BitVec.eq_of_toNat_eq
      rw [BitVec.toNat_ofNat, BitVec.toNat_ofNat]
      exact hab
    have htag : Tag.kMediaToken.byte = BitVec.ofNat 8 19 := rfl
    simp only [htag, List.range, List.range.loop, List.map_cons, List.map_nil, List.cons_append,
      List.nil_append, List.append_nil, List.cons.injEq, Nat.reduceMul, Nat.reducePow, and_true,
      true_and]
    -- byte by byte
    repeat' apply And.intro
    all_goals
      apply hbyte
      omega
  have hx : (tokenFirst id).bytes = (fnvTag .kParent ++ fnvHash {}) ++ (fnvTag .kTokens ++
      (fnvCount 2 ++ (tokenFirst id).entries.flatMap Entry.bytes)) ++
        ({} : BlockKeyExtras).bytes := rfl
  have hy : (mediaFirst id).bytes = (fnvTag .kParent ++ fnvHash {}) ++ (fnvTag .kTokens ++
      (fnvCount 2 ++ (mediaFirst id).entries.flatMap Entry.bytes)) ++
        ({} : BlockKeyExtras).bytes := rfl
  rw [hx, hy, hentries]

/-- The two blocks differ at their first position. -/
theorem clash_tokenFirst (hid : Lookalike id) : Clash (tokenFirst id) (mediaFirst id) := by
  refine ⟨0, .token id, .media (startingIn id), ?_, ?_, hid⟩
  · rw [entries_tokenFirst hid]
    rfl
  · rw [entries_mediaFirst]
    rfl

end BlockInput

open BlockInput

/-- Two blocks with one stream have one identity exactly when no position is a digest
in the one and an id that looks like it in the other.  So streams are unambiguous
exactly over blocks without digests and over ids whose lowest byte is not the tag
of a digest. -/
theorem blockBytes_unambiguous (ids : Set (BitVec 32)) (withMedia : Bool) :
    (∀ x y : BlockInput, x.bytes = y.bytes → (SameIdentity x y ↔ ¬Clash x y)) ∧
      ((∀ x y : BlockInput, x.Allowed ids withMedia → y.Allowed ids withMedia →
        x.bytes = y.bytes → SameIdentity x y) ↔
      (withMedia = false ∨ ∀ id ∈ ids, ¬Lookalike id)) := by
  constructor
  · intro x y hbytes
    exact ⟨not_clash_of_sameIdentity, fun hclash => sameIdentity_of_bytes hclash hbytes⟩
  · constructor
    · intro hall
      by_contra hnot
      rw [not_or, Bool.not_eq_false] at hnot
      obtain ⟨hmedia, hids⟩ := hnot
      push Not at hids
      obtain ⟨id, hid, hlook⟩ := hids
      have hx : (tokenFirst id).Allowed ids withMedia := by
        intro entry hentry
        rw [entries_tokenFirst hlook] at hentry
        rcases List.mem_cons.1 hentry with rfl | hentry
        · exact hid
        · rw [List.mem_singleton.1 hentry]
          exact hmedia
      have hy : (mediaFirst id).Allowed ids withMedia := by
        intro entry hentry
        rw [entries_mediaFirst] at hentry
        rcases List.mem_cons.1 hentry with rfl | hentry
        · exact hmedia
        · rw [List.mem_singleton.1 hentry]
          exact hid
      have hsame := hall _ _ hx hy (bytes_tokenFirst hlook)
      exact not_clash_of_sameIdentity hsame (clash_tokenFirst hlook)
    · intro hids x y hx hy hbytes
      exact sameIdentity_of_bytes (not_clash_of_allowed hids hx hy) hbytes

/-- The token id 19 stands for a digest, and the other way round. -/
theorem blockBytes_ambiguous : ¬∀ x y : BlockInput, x.bytes = y.bytes → SameIdentity x y := by
  intro hall
  have hlook : Lookalike 19 := by decide
  exact not_clash_of_sameIdentity (hall _ _ (bytes_tokenFirst hlook)) (clash_tokenFirst hlook)

/-- The first part of `blockBytes_unambiguous` at these two blocks. -/
theorem blockBytes_unambiguous_nineteen :
    SameIdentity (tokenFirst 19) (mediaFirst 19) ↔ ¬Clash (tokenFirst 19) (mediaFirst 19) :=
  (blockBytes_unambiguous ∅ true).1 _ _ (bytes_tokenFirst (by decide))

end EdgeLLM.Ports.BlockKey
