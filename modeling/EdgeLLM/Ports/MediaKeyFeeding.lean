import EdgeLLM.Ports.MediaKeyIdentity

/-!
# What a media key identifies

If no placeholder is fed by a buffer behind that of its run, equal keys on a prefix
come from equal buffers.  Otherwise another request, with one buffer exchanged, has
the same keys up to a placeholder that is fed differently.
-/

namespace EdgeLLM.Ports.MediaKeys

open Verified
open BlockKey

/-- The hash tells the inputs apart. -/
def NoCollision (hash : List Byte → Hash128) (inputs : List (List Byte)) : Prop :=
  ∀ x ∈ inputs, ∀ y ∈ inputs, hash x = hash y → x = y

/-- Lists with the same images under a function that tells their elements apart. -/
theorem map_inj_of_mem {α β : Type} {f : α → β} {xs ys : List α}
    (hinj : ∀ a ∈ xs, ∀ b ∈ ys, f a = f b → a = b) (h : xs.map f = ys.map f) : xs = ys := by
  induction xs generalizing ys with
  | nil => exact (List.map_eq_nil_iff.1 h.symm).symm
  | cons a xs ih =>
    cases ys with
    | nil => contradiction
    | cons b ys =>
      obtain ⟨hhead, htail⟩ := List.cons.inj h
      rw [hinj a (by simp) b (by simp) hhead,
        ih (fun a ha b hb => hinj a (List.mem_cons_of_mem _ ha) b (List.mem_cons_of_mem _ hb)) htail]

namespace Prompt

variable {E : Encoders} {hash : List Byte → Hash128} {prompt : Prompt} {media media' : Media}
  {i : Nat} {token : BitVec 32}

section Hashed

theorem pixels_mem {a : ImageData} (ha : a ∈ media.images) : a.pixels ∈ prompt.hashed hash media := by
  simp only [hashed, List.mem_append]
  exact Or.inl (Or.inl (Or.inl (List.mem_map_of_mem ha)))

theorem identity_mem {a : ImageData} (ha : a ∈ media.images) :
    imageIdentity hash a ∈ prompt.hashed hash media := by
  simp only [hashed, List.mem_append]
  exact Or.inl (Or.inl (Or.inr (List.mem_map_of_mem ha)))

theorem clip_mem {a : AudioData} (ha : a ∈ media.clips) :
    audioIdentity a ∈ prompt.hashed hash media := by
  simp only [hashed, List.mem_append]
  exact Or.inl (Or.inr (List.mem_map_of_mem ha))

theorem digests_mem (h : prompt.combines media = true) :
    imageDigests hash media.images ∈ prompt.hashed hash media := by
  simp only [hashed, List.mem_append, h, if_true]
  exact Or.inr (List.mem_singleton.2 rfl)

/-- An input of the one request and one of the other. -/
theorem eq_of_hash_eq (hno : NoCollision hash (prompt.hashed hash media ++ prompt.hashed hash media'))
    {x y : List Byte} (hx : x ∈ prompt.hashed hash media) (hy : y ∈ prompt.hashed hash media')
    (h : hash x = hash y) : x = y :=
  hno x (List.mem_append_left _ hx) y (List.mem_append_right _ hy) h

variable (hno : NoCollision hash (prompt.hashed hash media ++ prompt.hashed hash media'))
include hno

theorem image_eq {a b : ImageData} (ha : a ∈ media.images) (hb : b ∈ media'.images)
    (h : imageHash hash a = imageHash hash b) : a = b := by
  apply imageIdentity_injective (eq_of_hash_eq hno (pixels_mem ha) (pixels_mem hb))
  exact eq_of_hash_eq hno (identity_mem ha) (identity_mem hb) h

theorem images_eq (hcombines : prompt.combines media = true) (hcombines' : prompt.combines media' = true)
    (h : hash (imageDigests hash media.images) = hash (imageDigests hash media'.images)) :
    media.images = media'.images := by
  have hdigests := eq_of_hash_eq hno (digests_mem hcombines) (digests_mem hcombines') h
  have hlength (digest : Hash128) : (fnvHash digest).length = 16 := by
    rw [fnvHash, List.length_append, fnvU64, fnvU64, length_littleEndian, length_littleEndian]
  have hhashes := SelfDelimiting.flatMap_injective (by decide) hlength
    (fun a b => hash_delimiting.injective trivial) hdigests
  exact map_inj_of_mem (fun a ha b hb => image_eq hno ha hb) hhashes

theorem clip_eq {a b : AudioData} (ha : a ∈ media.clips) (hb : b ∈ media'.clips)
    (hform : audioIdentity a = audioIdentity b → a.samples?.isSome = b.samples?.isSome)
    (h : audioHash hash a = audioHash hash b) : a.content = b.content := by
  have hidentity : audioIdentity a = audioIdentity b := eq_of_hash_eq hno (clip_mem ha) (clip_mem hb) h
  replace hform := hform hidentity
  unfold audioIdentity at hidentity
  unfold AudioData.content
  cases hsa : a.samples? with
  | none =>
    cases hsb : b.samples? with
    | none =>
      rw [hsa, hsb] at hidentity
      exact congrArg AudioContent.file hidentity
    | some samples =>
      rw [hsa, hsb] at hform
      contradiction
  | some samples =>
    cases hsb : b.samples? with
    | none =>
      rw [hsa, hsb] at hform
      contradiction
    | some samples' =>
      rw [hsa, hsb] at hidentity
      have hsamples := SelfDelimiting.flatMap_injective (by decide)
        (fun value : BitVec 32 => length_littleEndian 4 value)
        (fun a b => u32_delimiting.injective trivial) hidentity
      exact congrArg AudioContent.samples hsamples

end Hashed
section Positions

theorem keyOf_image (hi : prompt.tokenIds[i]? = some token) (himage : prompt.image token = true) :
    prompt.keyOf hash media i =
      if prompt.combines media then some (hash (imageDigests hash media.images))
      else (media.images[Runs.runAt prompt.image prompt.tokenIds i]?).map (imageHash hash) := by
  have himage' : isImage prompt.imageTokenId token = true := himage
  rw [keyOf, keyAt, hi, Option.bind_some, if_pos himage', List.getElem?_map]
  cases prompt.combines media <;> rfl

theorem keyOf_audio (hi : prompt.tokenIds[i]? = some token) (haudio : prompt.audio token = true) :
    prompt.keyOf hash media i =
      (media.clips[Runs.runAt prompt.audio prompt.tokenIds i]?).map (audioHash hash) := by
  have haudio' : isAudio prompt.imageTokenId prompt.audioTokenId token = true := haudio
  have himage : isImage prompt.imageTokenId token = false := by
    simp only [isAudio, Bool.and_eq_true, bne_iff_ne, ne_eq] at haudio'
    simpa [isImage] using haudio'.2
  rw [keyOf, keyAt, hi, Option.bind_some, himage, if_neg Bool.false_ne_true, if_pos haudio',
    List.getElem?_map]
  rfl

theorem keyOf_other (hi : prompt.tokenIds[i]? = some token) (himage : prompt.image token = false)
    (haudio : prompt.audio token = false) : prompt.keyOf hash media i = some {} := by
  have himage' : isImage prompt.imageTokenId token = false := himage
  have haudio' : isAudio prompt.imageTokenId prompt.audioTokenId token = false := haudio
  rw [keyOf, keyAt, hi, Option.bind_some, himage', haudio']
  rfl

/-- Equal entries of two accepted requests are equal keys. -/
theorem keyOf_eq {keys keys' : List Hash128} (hkeys : prompt.keys hash media = .ok keys)
    (hkeys' : prompt.keys hash media' = .ok keys') (hi : prompt.tokenIds[i]? = some token)
    (h : keys.getD i {} = keys'.getD i {}) :
    prompt.keyOf hash media i = prompt.keyOf hash media' i := by
  obtain ⟨value, hvalue⟩ := keyOf_isSome hkeys hi
  obtain ⟨value', hvalue'⟩ := keyOf_isSome hkeys' hi
  rw [getD_keys hkeys, getD_keys hkeys', hvalue, hvalue'] at h
  rw [hvalue, hvalue']
  exact congrArg some h

end Positions

section Identifies

variable (hcomparable : prompt.Comparable hash media media')
  (hno : NoCollision hash (prompt.hashed hash media ++ prompt.hashed hash media'))
include hcomparable hno

/-- Equal keys of an image position: all images are the same, or those of its run are. -/
theorem images_of_keyOf_eq {value : Hash128} (hi : prompt.tokenIds[i]? = some token)
    (himage : prompt.image token = true) (hvalue : prompt.keyOf hash media i = some value)
    (hvalue' : prompt.keyOf hash media' i = some value) :
    (prompt.combines media = true ∧ media.images = media'.images) ∨ prompt.combines media = false ∧
        media.images[Runs.runAt prompt.image prompt.tokenIds i]? =
          media'.images[Runs.runAt prompt.image prompt.tokenIds i]? := by
  rw [keyOf_image hi himage] at hvalue hvalue'
  cases hcombines : prompt.combines media with
  | true =>
    rw [hcombines, if_pos rfl, Option.some.injEq] at hvalue
    cases hcombines' : prompt.combines media' with
    | true =>
      rw [hcombines', if_pos rfl, Option.some.injEq] at hvalue'
      exact Or.inl ⟨rfl, images_eq hno hcombines hcombines' (hvalue.trans hvalue'.symm)⟩
    | false =>
      rw [hcombines', if_neg Bool.false_ne_true] at hvalue'
      obtain ⟨b, hb, hhash⟩ := Option.map_eq_some_iff.1 hvalue'
      have hmem := List.mem_of_getElem? hb
      exact absurd (eq_of_hash_eq hno (digests_mem hcombines) (identity_mem hmem)
        (hvalue.trans hhash.symm)) (hcomparable.left hcombines hcombines' b hmem)
  | false =>
    rw [hcombines, if_neg Bool.false_ne_true] at hvalue
    obtain ⟨a, ha, hhash⟩ := Option.map_eq_some_iff.1 hvalue
    have hmem := List.mem_of_getElem? ha
    cases hcombines' : prompt.combines media' with
    | true =>
      rw [hcombines', if_pos rfl, Option.some.injEq] at hvalue'
      exact absurd (eq_of_hash_eq hno (identity_mem hmem) (digests_mem hcombines')
        (hhash.trans hvalue'.symm)).symm (hcomparable.right hcombines hcombines' a hmem)
    | false =>
      rw [hcombines', if_neg Bool.false_ne_true] at hvalue'
      obtain ⟨b, hb, hhash'⟩ := Option.map_eq_some_iff.1 hvalue'
      have hab := image_eq hno hmem (List.mem_of_getElem? hb) (hhash.trans hhash'.symm)
      exact Or.inr ⟨rfl, by rw [ha, hb, hab]⟩

/-- Equal keys of an audio position: the clips of its run give the same. -/
theorem clips_of_keyOf_eq {value : Hash128} (hi : prompt.tokenIds[i]? = some token)
    (haudio : prompt.audio token = true) (hvalue : prompt.keyOf hash media i = some value)
    (hvalue' : prompt.keyOf hash media' i = some value) :
    (media.clips.map AudioData.content)[Runs.runAt prompt.audio prompt.tokenIds i]? =
      (media'.clips.map AudioData.content)[Runs.runAt prompt.audio prompt.tokenIds i]? := by
  rw [keyOf_audio hi haudio] at hvalue hvalue'
  obtain ⟨a, ha, hhash⟩ := Option.map_eq_some_iff.1 hvalue
  obtain ⟨b, hb, hhash'⟩ := Option.map_eq_some_iff.1 hvalue'
  have hcontent := clip_eq hno (List.mem_of_getElem? ha) (List.mem_of_getElem? hb)
    (hcomparable.clips _ a b ha hb) (hhash.trans hhash'.symm)
  rw [List.getElem?_map, List.getElem?_map, ha, hb, Option.map_some, Option.map_some, hcontent]

theorem identifies_of_inOrder (hfits : prompt.Fits E media) (horder : prompt.InOrder E media) :
    prompt.Identifies E hash media media' := by
  intro keys keys' n hkeys hkeys' hsame i hi
  rw [fed, fed]
  cases htoken : prompt.tokenIds[i]? with
  | none => rfl
  | some token =>
    -- two equal keys at every position up to this one
    have hvalues {k : Nat} {y : BitVec 32} (hk : k ≤ i) (hy : prompt.tokenIds[k]? = some y) :
        ∃ value, prompt.keyOf hash media k = some value ∧ prompt.keyOf hash media' k = some value := by
      obtain ⟨value, hvalue⟩ := keyOf_isSome hkeys hy
      have heq := keyOf_eq hkeys hkeys' hy (hsame k (by omega))
      exact ⟨value, hvalue, heq ▸ hvalue⟩
    rw [Option.bind_some, Option.bind_some]
    by_cases himage : prompt.image token = true
    · rw [if_pos himage, if_pos himage]
      congr 1
      obtain ⟨value, hvalue, hvalue'⟩ := hvalues (Nat.le_refl i) htoken
      rcases images_of_keyOf_eq hcomparable hno htoken himage hvalue hvalue' with hall | hrun
      · rw [hall.2]
      · apply Runs.fedBy_congr (horder.images hrun.1) hfits.images htoken himage
        intro k y hk hy hp
        obtain ⟨value, hvalue, hvalue'⟩ := hvalues hk hy
        rcases images_of_keyOf_eq hcomparable hno hy hp hvalue hvalue' with hall | hrun
        · rw [hall.2]
        · exact hrun.2
    · rw [if_neg himage, if_neg himage]
      by_cases haudio : prompt.audio token = true
      · rw [if_pos haudio, if_pos haudio]
        congr 1
        apply Runs.fedBy_congr horder.clips hfits.clips htoken haudio
        intro k y hk hy hp
        obtain ⟨value, hvalue, hvalue'⟩ := hvalues hk hy
        exact clips_of_keyOf_eq hcomparable hno hy hp hvalue hvalue'
      · rw [if_neg haudio, if_neg haudio]

end Identifies
section Exchange

/-- A request with the same keys up to a placeholder that is fed differently. -/
theorem not_identifies_of {keys : List Hash128} (hkeys : prompt.keys hash media = .ok keys)
    (haccepted : ∀ k token, prompt.tokenIds[k]? = some token → ∃ value, prompt.keyOf hash media' k = some value)
    (hsame : ∀ k ≤ i, prompt.keyOf hash media k = prompt.keyOf hash media' k)
    (hfed : prompt.fed E media i ≠ prompt.fed E media' i) :
    (∃ keys', prompt.keys hash media' = .ok keys') ∧ ¬prompt.Identifies E hash media media' := by
  obtain ⟨keys', hkeys'⟩ := keys_isOk haccepted
  refine ⟨⟨keys', hkeys'⟩, fun hidentifies => hfed ?_⟩
  apply hidentifies keys keys' (i + 1) hkeys hkeys' ?_ i (Nat.lt_succ_self i)
  intro k hk
  rw [getD_keys hkeys, getD_keys hkeys', hsame k (Nat.le_of_lt_succ hk)]

theorem getElem?_set_isSome {α : Type} {l : List α} {j r : Nat} {a x : α} (h : l[r]? = some a) :
    ∃ b, (l.set j x)[r]? = some b := by
  obtain ⟨hlt, -⟩ := List.getElem?_eq_some_iff.1 h
  exact ⟨_, List.getElem?_eq_getElem (by rwa [List.length_set])⟩

theorem combines_set (prompt : Prompt) (media : Media) (j : Nat) (other : ImageData) :
    prompt.combines { media with images := media.images.set j other } = prompt.combines media := by
  have hempty : (media.images.set j other).isEmpty = media.images.isEmpty := by
    cases media.images with
    | nil => rfl
    | cons first rest => cases j <;> rfl
  rw [combines, combinesImages, combines, combinesImages, hempty, List.length_set]

/-- Another image in a place: an accepted position stays accepted, and has the same key if it is not
in the run of the place. -/
theorem keyOf_setImage (hcombines : prompt.combines media = false) (j : Nat) (other : ImageData) {k : Nat}
    {value : Hash128} (hk : prompt.tokenIds[k]? = some token) (hvalue : prompt.keyOf hash media k = some value) :
    ∃ value', prompt.keyOf hash { media with images := media.images.set j other } k = some value' ∧
      (Runs.runAt prompt.image prompt.tokenIds k ≠ j → value' = value) := by
  have hcombines' := (combines_set prompt media j other).trans hcombines
  by_cases himage : prompt.image token = true
  · rw [keyOf_image hk himage, hcombines, if_neg Bool.false_ne_true] at hvalue
    rw [keyOf_image hk himage, hcombines', if_neg Bool.false_ne_true]
    obtain ⟨a, ha, hhash⟩ := Option.map_eq_some_iff.1 hvalue
    obtain ⟨b, hb⟩ := getElem?_set_isSome (j := j) (x := other) ha
    refine ⟨imageHash hash b, by rw [hb, Option.map_some], ?_⟩
    intro hne
    rw [List.getElem?_set_ne hne.symm, ha] at hb
    rw [← hhash, Option.some.inj hb]
  · refine ⟨value, ?_, fun _ => rfl⟩
    rw [Bool.not_eq_true] at himage
    cases haudio : prompt.audio token with
    | true => rwa [keyOf_audio hk haudio] at hvalue ⊢
    | false => rwa [keyOf_other hk himage haudio] at hvalue ⊢

theorem keyOf_setClip (j : Nat) (other : AudioData) {k : Nat} {value : Hash128}
    (hk : prompt.tokenIds[k]? = some token) (hvalue : prompt.keyOf hash media k = some value) :
    ∃ value', prompt.keyOf hash { media with clips := media.clips.set j other } k = some value' ∧
      (Runs.runAt prompt.audio prompt.tokenIds k ≠ j → value' = value) := by
  by_cases haudio : prompt.audio token = true
  · rw [keyOf_audio hk haudio] at hvalue ⊢
    obtain ⟨a, ha, hhash⟩ := Option.map_eq_some_iff.1 hvalue
    obtain ⟨b, hb⟩ := getElem?_set_isSome (j := j) (x := other) ha
    refine ⟨audioHash hash b, by rw [hb, Option.map_some], ?_⟩
    intro hne
    rw [List.getElem?_set_ne hne.symm, ha] at hb
    rw [← hhash, Option.some.inj hb]
  · refine ⟨value, ?_, fun _ => rfl⟩
    rw [Bool.not_eq_true] at haudio
    cases himage : prompt.image token with
    | true =>
      rw [keyOf_image hk himage] at hvalue ⊢
      exact hvalue
    | false => rwa [keyOf_other hk himage haudio] at hvalue ⊢

/-- The other request when all positions whose run is not the `j`-th of their modality keep their keys. -/
theorem exchange {p : BitVec 32 → Bool} {j : Nat} {keys : List Hash128}
    (hkeys : prompt.keys hash media = .ok keys)
    (hkeyOf : ∀ {k : Nat} {y : BitVec 32} {value : Hash128}, prompt.tokenIds[k]? = some y →
      prompt.keyOf hash media k = some value → ∃ value', prompt.keyOf hash media' k = some value' ∧
        (Runs.runAt p prompt.tokenIds k ≠ j → value' = value))
    (hi : prompt.tokenIds[i]? = some token) (hlate : Runs.runAt p prompt.tokenIds i < j)
    (hfed : prompt.fed E media i ≠ prompt.fed E media' i) :
    (∃ keys', prompt.keys hash media' = .ok keys') ∧ ¬prompt.Identifies E hash media media' := by
  apply not_identifies_of hkeys ?_ ?_ hfed
  · intro k y hk
    obtain ⟨value, hvalue⟩ := keyOf_isSome hkeys hk
    obtain ⟨value', hvalue', -⟩ := hkeyOf hk hvalue
    exact ⟨value', hvalue'⟩
  · intro k hle
    obtain ⟨hlt, -⟩ := List.getElem?_eq_some_iff.1 hi
    have hk := List.getElem?_eq_getElem (Nat.lt_of_le_of_lt hle hlt)
    obtain ⟨value, hvalue⟩ := keyOf_isSome hkeys hk
    obtain ⟨value', hvalue', hsame⟩ := hkeyOf hk hvalue
    have hrun := Runs.runAt_mono p prompt.tokenIds hle
    rw [hvalue, hvalue', hsame (by omega)]

/-- An image that feeds a placeholder behind its run is exchanged for one of as many rows. -/
theorem exists_image {keys : List Hash128} (hkeys : prompt.keys hash media = .ok keys)
    (hfits : prompt.Fits E media) (hcombines : prompt.combines media = false)
    (hnot : ¬Runs.InOrder prompt.image E.imageRows media.images prompt.tokenIds) :
    ∃ media', prompt.Fits E media' ∧ prompt.Comparable hash media media' ∧
      (∃ keys', prompt.keys hash media' = .ok keys') ∧ ¬prompt.Identifies E hash media media' := by
  simp only [Runs.InOrder, not_forall, Nat.not_le] at hnot
  obtain ⟨i, token, j, hi, himage, hfeeder, hlate⟩ := hnot
  obtain ⟨size, hsize, hpos⟩ := Runs.supplier_pos hfeeder
  rw [List.getElem?_map] at hsize
  obtain ⟨b, hb, rfl⟩ := Option.map_eq_some_iff.1 hsize
  obtain ⟨other, hother, hrows⟩ := E.otherImage b hpos
  have hcombines' := (combines_set prompt media j other).trans hcombines
  refine ⟨{ media with images := media.images.set j other }, ⟨?_, hfits.clips⟩, ?_,
    exchange hkeys (keyOf_setImage hcombines j other) hi hlate ?_⟩
  · rw [Runs.map_size_set hb hrows]
    exact hfits.images
  · refine ⟨fun k clip clip' hclip hclip' _ => ?_, ?_, ?_⟩
    · rw [Option.some.inj (hclip.symm.trans hclip')]
    · rw [hcombines]
      exact fun h => absurd h Bool.false_ne_true
    · rw [hcombines']
      exact fun _ h => absurd h Bool.false_ne_true
  · rw [fed, fed, hi, Option.bind_some, Option.bind_some, if_pos himage, if_pos himage]
    intro heq
    apply Runs.fedBy_set hfeeder hb hrows hother
    exact Option.map_injective (fun a b h => Content.image.inj h) heq

theorem exists_clip {keys : List Hash128} (hkeys : prompt.keys hash media = .ok keys)
    (hfits : prompt.Fits E media)
    (hnot : ¬Runs.InOrder prompt.audio E.audioRows (media.clips.map AudioData.content) prompt.tokenIds) :
    ∃ media', prompt.Fits E media' ∧ prompt.Comparable hash media media' ∧
      (∃ keys', prompt.keys hash media' = .ok keys') ∧ ¬prompt.Identifies E hash media media' := by
  simp only [Runs.InOrder, not_forall, Nat.not_le] at hnot
  obtain ⟨i, token, j, hi, haudio, hfeeder, hlate⟩ := hnot
  obtain ⟨size, hsize, hpos⟩ := Runs.supplier_pos hfeeder
  rw [List.getElem?_map] at hsize
  obtain ⟨content, hcontent, rfl⟩ := Option.map_eq_some_iff.1 hsize
  rw [List.getElem?_map] at hcontent
  obtain ⟨b, hb, rfl⟩ := Option.map_eq_some_iff.1 hcontent
  obtain ⟨other, hother, hform, hrows⟩ := E.otherClip b hpos
  have hb' : (media.clips.map AudioData.content)[j]? = some b.content := by
    rw [List.getElem?_map, hb, Option.map_some]
  have himage : prompt.image token = false := by
    have haudio' : isAudio prompt.imageTokenId prompt.audioTokenId token = true := haudio
    simp only [isAudio, Bool.and_eq_true, bne_iff_ne, ne_eq] at haudio'
    simpa [image, isImage] using haudio'.2
  refine ⟨{ media with clips := media.clips.set j other }, ⟨hfits.images, ?_⟩, ?_,
    exchange hkeys (keyOf_setClip j other) hi hlate ?_⟩
  · rw [List.map_set, Runs.map_size_set hb' hrows]
    exact hfits.clips
  · refine ⟨fun k clip clip' hclip hclip' _ => ?_, ?_, ?_⟩
    · by_cases hk : j = k
      · subst hk
        obtain ⟨hlt, -⟩ := List.getElem?_eq_some_iff.1 hb
        rw [List.getElem?_set_self hlt] at hclip'
        rw [← Option.some.inj hclip', hform, Option.some.inj (hclip.symm.trans hb)]
      · rw [List.getElem?_set_ne hk] at hclip'
        rw [Option.some.inj (hclip.symm.trans hclip')]
    · exact fun h h' => absurd (h.symm.trans h') (by decide)
    · exact fun h h' => absurd (h.symm.trans h') (by decide)
  · rw [fed, fed, hi, Option.bind_some, Option.bind_some, himage, if_pos haudio, if_pos haudio,
      List.map_set]
    intro heq
    apply Runs.fedBy_set hfeeder hb' hrows hother
    exact Option.map_injective (fun a b h => Content.audio.inj h) heq

end Exchange

/-- Encoders that make one row of every buffer. -/
def oneRow : Encoders where
  imageRows _ := 1
  audioRows _ := 1
  otherImage image _ := by
    refine ⟨{ image with pixels := 0 :: image.pixels }, ?_, rfl⟩
    intro h
    exact List.cons_ne_self 0 image.pixels (congrArg ImageData.pixels h)
  otherClip clip _ := by
    cases hsamples : clip.samples? with
    | none =>
      refine ⟨⟨none, 0 :: clip.melSpectrogramPath⟩, ?_, rfl, rfl⟩
      rw [AudioData.content, AudioData.content, hsamples]
      exact fun h => List.cons_ne_self _ _ (AudioContent.file.inj h)
    | some samples =>
      refine ⟨⟨some (0 :: samples), clip.melSpectrogramPath⟩, ?_, rfl, rfl⟩
      rw [AudioData.content, AudioData.content, hsamples]
      exact fun h => List.cons_ne_self _ _ (AudioContent.samples.inj h)

/-- A clip of one sample. -/
def oneSample (value : BitVec 32) : AudioData := ⟨some [value], []⟩

/-- Two placeholders that no token delimits. -/
def adjacentClips : Prompt := ⟨[8, 8], 7, 8, true⟩

/-- The digests of two clips of one sample. -/
def clipDigest (bytes : List Byte) : Hash128 :=
  if bytes = [0, 0, 128, 63] then ⟨0xB4F25D7A69726E37, 0xF559760A863C1F99⟩
  else if bytes = [0, 0, 0, 64] then ⟨0x822DF3BAC66462EC, 0xCC909254AFB22480⟩
  else {}

end Prompt

end EdgeLLM.Ports.MediaKeys
