import EdgeLLM.Ports.MediaKeys
import EdgeLLM.Ports.BlockKeyStream
import EdgeLLM.Verified.Runs

/-!
# Media keys and the buffers behind them

The encoders' embeddings are consumed in order: the `k`-th placeholder of a modality
takes the `k`-th embedding row.  A placeholder's key is that of the buffer with the
number of its run, so it stands for the buffer that feeds the placeholder, or for
one that is behind all that fed the prefix, only if the run number is at least the
number of the feeding buffer.  That fails where placeholders of two buffers are
adjacent: they are one run.
-/

namespace EdgeLLM.Ports.MediaKeys

open Verified
open BlockKey

/-! ## The identity text determines the buffer -/

theorem mem_digits {n : Nat} {b : Byte} (h : b ∈ digits n) : 48 ≤ b.toNat ∧ b.toNat ≤ 57 := by
  unfold digits at h
  split at h
  · rw [show text "0" = [48] from rfl, List.mem_singleton] at h
    subst h
    decide
  · obtain ⟨d, hd, rfl⟩ := List.mem_map.1 h
    have hlt : d < 10 := Nat.digits_lt_base (by decide) (List.mem_reverse.1 hd)
    rw [BitVec.toNat_ofNat]
    omega

/-- Reading the digits back. -/
def readDigits (bytes : List Byte) : Nat :=
  bytes.foldl (fun value byte => 10 * value + (byte.toNat - 48)) 0

theorem readDigits_digits (n : Nat) : readDigits (digits n) = n := by
  unfold digits
  split
  · next h =>
      rw [h]
      rfl
  · have hread (ds : List Nat) (hds : ∀ d ∈ ds, d < 10) :
        readDigits (ds.reverse.map fun d => BitVec.ofNat 8 (48 + d)) = Nat.ofDigits 10 ds := by
      rw [readDigits, List.foldl_map, List.foldl_reverse]
      induction ds with
      | nil => rfl
      | cons d ds ih =>
        have hd : d < 10 := hds d (by simp)
        rw [List.foldr_cons, ih fun d hd => hds d (List.mem_cons_of_mem _ hd), Nat.ofDigits_cons,
          BitVec.toNat_ofNat, Nat.mod_eq_of_lt (by omega), Nat.add_sub_cancel_left, Nat.add_comm]
    rw [hread _ fun d hd => Nat.digits_lt_base (by decide) hd, Nat.ofDigits_digits]

theorem digits_injective {n m : Nat} (h : digits n = digits m) : n = m := by
  rw [← readDigits_digits n, h, readDigits_digits]

/-- A number in decimal consists of digits after at most a minus sign. -/
theorem mem_to_string {n : Int} {b : Byte} (h : b ∈ to_string n) :
    b.toNat = 45 ∨ 48 ≤ b.toNat ∧ b.toNat ≤ 57 := by
  unfold to_string at h
  split at h
  · cases List.mem_append.1 h with
    | inl hsign =>
      rw [show text "-" = [45] from rfl, List.mem_singleton] at hsign
      subst hsign
      exact Or.inl rfl
    | inr hdigit => exact Or.inr (mem_digits hdigit)
  · exact Or.inr (mem_digits h)

theorem digits_ne_sign {n : Nat} {rest : List Byte} : digits n ≠ 45 :: rest := by
  intro h
  have hmem : (45 : Byte) ∈ digits n := h ▸ List.mem_cons_self
  have hbounds := (mem_digits hmem).1
  contradiction

theorem to_string_injective (n m : Int) (h : to_string n = to_string m) : n = m := by
  have hsign : text "-" = [45] := rfl
  unfold to_string at h
  by_cases hn : n < 0
  · by_cases hm : m < 0
    · rw [if_pos hn, if_pos hm] at h
      have habs := digits_injective (List.append_cancel_left h)
      omega
    · rw [if_pos hn, if_neg hm, hsign] at h
      exact absurd h.symm digits_ne_sign
  · by_cases hm : m < 0
    · rw [if_neg hn, if_pos hm, hsign] at h
      exact absurd h digits_ne_sign
    · rw [if_neg hn, if_neg hm] at h
      have habs := digits_injective h
      omega

theorem number_delimiting {mark : Byte} (hmark : 57 < mark.toNat) :
    SelfDelimiting (fun _ _ => True) fun n => to_string n ++ [mark] := by
  apply SelfDelimiting.terminated _ to_string_injective
  intro n hmem
  have hbounds := mem_to_string hmem
  omega

theorem modality_delimiting : SelfDelimiting (fun _ _ => True) fun isVideo : Bool =>
    if isVideo then text "video" else text "image" := by
  apply SelfDelimiting.of_length 5
  · intro a
    cases a <;> rfl
  · intro a b
    cases a <;> cases b <;> decide

theorem resize_delimiting : SelfDelimiting (fun _ _ => True) fun doResize : Bool =>
    if doResize then text "|r|" else text "|n|" := by
  apply SelfDelimiting.of_length 3
  · intro a
    cases a <;> rfl
  · intro a b
    cases a <;> cases b <;> decide

section Hash

variable {hash : List Byte → Hash128}

/-- The identity as a sequence of fields that delimit themselves. -/
theorem imageIdentity_eq (image : ImageData) :
    imageIdentity hash image = fnvHash (hash image.pixels) ++ ([124] ++
      ((to_string image.width ++ [120]) ++ ((to_string image.height ++ [120]) ++
      ((to_string image.frames ++ [124]) ++ ((if image.isVideo then text "video" else text "image") ++
      ((if image.doResize then text "|r|" else text "|n|") ++ fnvU64 image.fps)))))) := by
  have hmodality : (if image.isVideo then text "|video" else text "|image") =
      [124] ++ if image.isVideo then text "video" else text "image" := by
    cases image.isVideo <;> rfl
  rw [imageIdentity, hmodality, show text "|" = [124] from rfl, show text "x" = [120] from rfl]
  simp only [List.append_assoc]

/-- Images with the same identity are the same, if no two pixel buffers collide. -/
theorem imageIdentity_injective {a b : ImageData}
    (hpixels : hash a.pixels = hash b.pixels → a.pixels = b.pixels)
    (h : imageIdentity hash a = imageIdentity hash b) : a = b := by
  rw [imageIdentity_eq, imageIdentity_eq] at h
  obtain ⟨hdigest, h⟩ := hash_delimiting _ _ _ _ trivial h
  obtain ⟨hwidth, h⟩ := number_delimiting (by decide) _ _ _ _ trivial (List.append_cancel_left h)
  obtain ⟨hheight, h⟩ := number_delimiting (by decide) _ _ _ _ trivial h
  obtain ⟨hframes, h⟩ := number_delimiting (by decide) _ _ _ _ trivial h
  obtain ⟨hvideo, h⟩ := modality_delimiting _ _ _ _ trivial h
  obtain ⟨hresize, h⟩ := resize_delimiting _ _ _ _ trivial h
  have hfps := u64_delimiting.injective trivial h
  cases a
  cases b
  simp_all

end Hash
/-! ## The loop -/

section Scan

variable {img aud : BitVec 32} (imageHashes audioHashes : List Hash128) (combined : Option Hash128)

/-- The image placeholders, and the audio placeholders among the other tokens. -/
def isImage (img : BitVec 32) (token : BitVec 32) : Bool := token == img

def isAudio (img aud : BitVec 32) (token : BitVec 32) : Bool := token == aud && token != img

theorem isMediaToken_pair (img aud token : BitVec 32) :
    isMediaToken token [img, aud] = (isImage img token || isAudio img aud token) := by
  by_cases himage : token = img
  · simp [isMediaToken, isImage, himage]
  · by_cases haudio : token = aud
    · subst haudio
      simp [isMediaToken, isAudio, himage]
    · simp [isMediaToken, isImage, isAudio, himage, haudio]

/-- The state of the loop after a stretch of tokens. -/
structure Scanned (img aud : BitVec 32) (seen : List (BitVec 32)) (scan : Scan) : Prop where
  image : scan.imageIdx = Runs.closed (isImage img) seen
  audio : scan.audioIdx = Runs.closed (isAudio img aud) seen
  previous : scan.previousWasMedia = (Runs.open? (isImage img) seen || Runs.open? (isAudio img aud) seen)
  token : scan.previousWasMedia = true → seen.getLast? = some scan.previousMediaTokenId

/-- The state in which a token is reached: the runs that it ends are closed. -/
structure Entered (img aud : BitVec 32) (seen : List (BitVec 32)) (token : BitVec 32) (scan : Scan) :
    Prop where
  image : scan.imageIdx = Runs.closed (isImage img) (seen ++ [token])
  audio : scan.audioIdx = Runs.closed (isAudio img aud) (seen ++ [token])

theorem scanned_nil (img aud : BitVec 32) : Scanned img aud [] {} where
  image := rfl
  audio := rfl
  previous := rfl
  token h := by contradiction

variable {seen : List (BitVec 32)} {scan : Scan} {token : BitVec 32}

theorem Scanned.open_eq (h : Scanned img aud seen scan) (p : BitVec 32 → Bool)
    (hprevious : scan.previousWasMedia = true) :
    Runs.open? p seen = p scan.previousMediaTokenId := by
  rw [Runs.open?, h.token hprevious, Option.any_some]

theorem Scanned.not_open (h : Scanned img aud seen scan) (hprevious : scan.previousWasMedia = false) :
    Runs.open? (isImage img) seen = false ∧ Runs.open? (isAudio img aud) seen = false := by
  have hopen := h.previous
  rw [hprevious] at hopen
  exact Bool.or_eq_false_iff.1 hopen.symm

theorem Scanned.enter (h : Scanned img aud seen scan) (token : BitVec 32) :
    Entered img aud seen token
      (KeyTable.enter ⟨[img, aud], imageHashes, audioHashes, combined⟩ scan token) := by
  have hclosed (p : BitVec 32 → Bool) := Runs.closed_append p seen token
  cases hprevious : scan.previousWasMedia with
  | false =>
    obtain ⟨himage, haudio⟩ := h.not_open hprevious
    constructor <;> simp [KeyTable.enter, hprevious, hclosed, himage, haudio, h.image, h.audio]
  | true =>
    obtain ⟨v, hv⟩ : ∃ v, v = scan.previousMediaTokenId := ⟨_, rfl⟩
    have hopen (p : BitVec 32 → Bool) : Runs.open? p seen = p v := hv ▸ h.open_eq p hprevious
    have hmedia : isMediaToken v [img, aud] = true := by
      rw [isMediaToken_pair, ← hopen (isImage img), ← hopen (isAudio img aud), ← h.previous, hprevious]
    -- only the same token continues the run
    have henter : KeyTable.enter ⟨[img, aud], imageHashes, audioHashes, combined⟩ scan token =
        if token = v then scan
        else KeyTable.closeRun ⟨[img, aud], imageHashes, audioHashes, combined⟩ scan := by
      by_cases hsame : token = v
      · simp [KeyTable.enter, hprevious, hsame, hmedia, ← hv]
      · simp [KeyTable.enter, hprevious, hsame, ← hv]
    rw [henter]
    by_cases hsame : token = v
    · rw [if_pos hsame]
      constructor
      · rw [hclosed, hopen, h.image, hsame]
        simp
      · rw [hclosed, hopen, h.audio, hsame]
        simp
    · rw [if_neg hsame]
      by_cases himage : v = img
      · constructor
        · simp [KeyTable.closeRun, KeyTable.imageTokenId, hclosed, hopen, isImage, ← hv, himage,
            himage ▸ hsame, h.image]
        · simp [KeyTable.closeRun, KeyTable.imageTokenId, hclosed, hopen, isAudio, ← hv, himage,
            h.audio]
      · have haudio : v = aud := by
          rw [isMediaToken_pair] at hmedia
          simpa [isImage, isAudio, himage] using hmedia
        have htoken : token ≠ aud := haudio ▸ hsame
        have hne : aud ≠ img := haudio ▸ himage
        constructor
        · simp [KeyTable.closeRun, KeyTable.imageTokenId, KeyTable.audioTokenId, hclosed, hopen,
            isImage, ← hv, haudio, hne, h.image]
        · simp [KeyTable.closeRun, KeyTable.imageTokenId, KeyTable.audioTokenId, hclosed, hopen,
            isAudio, ← hv, haudio, hne, htoken, h.audio]

theorem Entered.leave (h : Entered img aud seen token scan) : Scanned img aud (seen ++ [token])
      (KeyTable.leave ⟨[img, aud], imageHashes, audioHashes, combined⟩ scan token) := by
  have hmedia := isMediaToken_pair img aud token
  cases hkind : isMediaToken token [img, aud] with
  | false | true =>
    rw [hkind] at hmedia
    simp only [KeyTable.leave, hkind]
    exact ⟨h.image, h.audio, by simpa using hmedia, by simp⟩

end Scan

section Keys

variable {img aud : BitVec 32} (imageHashes audioHashes : List Hash128) (combined : Option Hash128)

/-- The key of a position, if there is a buffer for its run. -/
def keyAt (img aud : BitVec 32) (imageHashes audioHashes : List Hash128) (combined : Option Hash128)
    (tokens : List (BitVec 32)) (i : Nat) : Option Hash128 :=
  tokens[i]?.bind fun token =>
    if isImage img token then combined.or imageHashes[Runs.runAt (isImage img) tokens i]?
    else if isAudio img aud token then audioHashes[Runs.runAt (isAudio img aud) tokens i]?
    else some {}

theorem runAt_append (p : BitVec 32 → Bool) (seen rest : List (BitVec 32)) (token : BitVec 32) :
    Runs.runAt p (seen ++ token :: rest) seen.length = Runs.closed p (seen ++ [token]) := by
  rw [Runs.runAt, List.take_length_add_append, List.take_succ_cons, List.take_zero]

theorem key_eq_ok {seen : List (BitVec 32)} {token : BitVec 32} {scan : Scan}
    (h : Entered img aud seen token scan) (position : Nat) (rest : List (BitVec 32)) (hash : Hash128) :
    KeyTable.key ⟨[img, aud], imageHashes, audioHashes, combined⟩ scan position token = .ok hash ↔
      keyAt img aud imageHashes audioHashes combined (seen ++ token :: rest) seen.length = some hash := by
  have hget : (seen ++ token :: rest)[seen.length]? = some token := by simp
  rw [keyAt, hget, Option.bind_some, runAt_append, runAt_append, ← h.image, ← h.audio, KeyTable.key,
    isMediaToken_pair]
  by_cases himage : token = img
  · cases combined with
    | some c => simp [isImage, himage, KeyTable.imageTokenId]
    | none =>
      cases imageHashes[scan.imageIdx]? <;> simp [isImage, himage, KeyTable.imageTokenId]
  · by_cases haudio : token = aud
    · have hne : aud ≠ img := haudio ▸ himage
      cases audioHashes[scan.audioIdx]? <;>
        simp [isImage, isAudio, haudio, hne, KeyTable.imageTokenId, KeyTable.audioTokenId]
    · simp [isImage, isAudio, himage, haudio]

/-- The loop gives every remaining position its key. -/
theorem keysFrom_eq_ok (rest : List (BitVec 32)) :
    ∀ {seen : List (BitVec 32)} {scan : Scan}, Scanned img aud seen scan → ∀ hashes,
      KeyTable.keysFrom ⟨[img, aud], imageHashes, audioHashes, combined⟩ scan seen.length rest =
          .ok hashes ↔ hashes.length = rest.length ∧ ∀ i, hashes[i]? =
          keyAt img aud imageHashes audioHashes combined (seen ++ rest) (seen.length + i) := by
  induction rest with
  | nil =>
    intro seen scan _ hashes
    have hnone (i : Nat) : keyAt img aud imageHashes audioHashes combined (seen ++ [])
        (seen.length + i) = none := by simp [keyAt]
    simp only [hnone, KeyTable.keysFrom, Except.ok.injEq, List.length_nil, List.length_eq_zero_iff]
    constructor
    · rintro rfl
      simp
    · exact fun h => h.1.symm
  | cons token rest ih =>
    intro seen scan hscan hashes
    have henter := hscan.enter imageHashes audioHashes combined token
    have hkey := key_eq_ok imageHashes audioHashes combined henter seen.length rest
    have hrest := ih (henter.leave imageHashes audioHashes combined)
    have hsplit : seen ++ [token] ++ rest = seen ++ token :: rest := by simp
    have hnext (i : Nat) : seen.length + 1 + i = seen.length + (i + 1) := by omega
    simp only [hsplit, List.length_append, List.length_singleton, hnext] at hrest
    rw [KeyTable.keysFrom, bind_eq_ok]
    constructor
    · rintro ⟨hash, hhash, hbind⟩
      obtain ⟨tail, htail, hcons⟩ := bind_eq_ok.1 hbind
      cases hcons
      obtain ⟨hlength, hget⟩ := (hrest tail).1 htail
      refine ⟨by rw [List.length_cons, List.length_cons, hlength], ?_⟩
      intro i
      cases i with
      | zero => exact ((hkey hash).1 hhash).symm
      | succ i => exact hget i
    · rintro ⟨hlength, hget⟩
      cases hashes with
      | nil => simp at hlength
      | cons hash tail =>
        refine ⟨hash, (hkey hash).2 (hget 0).symm, bind_eq_ok.2 ⟨tail, ?_, rfl⟩⟩
        apply (hrest tail).2
        exact ⟨Nat.succ.inj hlength, fun i => hget (i + 1)⟩

end Keys

/-! ## Requests -/

/-- The placeholders a prompt has and how its media are keyed. -/
structure Prompt where
  tokenIds : List (BitVec 32)
  imageTokenId : BitVec 32
  audioTokenId : BitVec 32
  allowCombinedImageKey : Bool

/-- What a clip gives its encoder. -/
inductive AudioContent where
  | samples (values : List (BitVec 32))
  | file (path : List Byte)
deriving DecidableEq

def AudioData.content (audio : AudioData) : AudioContent :=
  match audio.samples? with
  | some samples => .samples samples
  | none => .file audio.melSpectrogramPath

structure Media where
  images : List ImageData
  clips : List AudioData

/-- The number of embedding rows the encoders make of a buffer; another buffer of the same form can
have as many. -/
structure Encoders where
  imageRows : ImageData → Nat
  audioRows : AudioContent → Nat
  otherImage : ∀ image, 0 < imageRows image →
    ∃ other, other ≠ image ∧ imageRows other = imageRows image
  otherClip : ∀ clip : AudioData, 0 < audioRows clip.content → ∃ other : AudioData,
    other.content ≠ clip.content ∧ other.samples?.isSome = clip.samples?.isSome ∧
    audioRows other.content = audioRows clip.content

/-- The content of a buffer. -/
inductive Content where
  | image (image : ImageData)
  | audio (audio : AudioContent)
deriving DecidableEq

namespace Prompt

variable (E : Encoders) (hash : List Byte → Hash128) (prompt : Prompt)

def image (token : BitVec 32) : Bool := isImage prompt.imageTokenId token

def audio (token : BitVec 32) : Bool := isAudio prompt.imageTokenId prompt.audioTokenId token

/-- All images together are the key of an image position. -/
def combines (media : Media) : Bool :=
  combinesImages prompt.tokenIds prompt.imageTokenId media.images prompt.allowCombinedImageKey

/-- The prompt was expanded for these buffers: a placeholder for each row. -/
structure Fits (media : Media) : Prop where
  images : prompt.tokenIds.countP prompt.image = (media.images.map E.imageRows).sum
  clips : prompt.tokenIds.countP prompt.audio =
    ((media.clips.map AudioData.content).map E.audioRows).sum

/-- The buffer that feeds a position, if it is a placeholder. -/
def fed (media : Media) (i : Nat) : Option Content :=
  prompt.tokenIds[i]?.bind fun token =>
    if prompt.image token then
      (Runs.fedBy prompt.image E.imageRows media.images prompt.tokenIds i).map .image
    else if prompt.audio token then
      (Runs.fedBy prompt.audio E.audioRows (media.clips.map AudioData.content) prompt.tokenIds i).map
        .audio
    else none

def keys (media : Media) : Except MediaCheck (List Hash128) :=
  buildPerPositionMediaHash hash prompt.tokenIds [prompt.imageTokenId, prompt.audioTokenId]
    media.images media.clips prompt.allowCombinedImageKey

/-- What `keys` hashes. -/
def hashed (media : Media) : List (List Byte) :=
  media.images.map ImageData.pixels ++ media.images.map (imageIdentity hash) ++
    media.clips.map audioIdentity ++
    if prompt.combines media then [imageDigests hash media.images] else []

/-- Equal keys on a prefix come from equal buffers. -/
def Identifies (media media' : Media) : Prop :=
  ∀ keys keys' n, prompt.keys hash media = .ok keys → prompt.keys hash media' = .ok keys' →
    (∀ i < n, keys.getD i {} = keys'.getD i {}) → ∀ i < n, prompt.fed E media i = prompt.fed E media' i

/-- No placeholder is fed by a buffer behind that of its run; images keyed together need no order. -/
structure InOrder (media : Media) : Prop where
  images : prompt.combines media = false →
    Runs.InOrder prompt.image E.imageRows media.images prompt.tokenIds
  clips : Runs.InOrder prompt.audio E.audioRows (media.clips.map AudioData.content) prompt.tokenIds

/-- The samples of a clip do not spell the path of the other's, and where only one of two requests
keys its images together, their digests do not spell the identity of an image of the other. -/
structure Comparable (media media' : Media) : Prop where
  clips : ∀ (j : Nat) (clip clip' : AudioData), media.clips[j]? = some clip → media'.clips[j]? = some clip' →
    audioIdentity clip = audioIdentity clip' → clip.samples?.isSome = clip'.samples?.isSome
  left : prompt.combines media = true → prompt.combines media' = false →
    ∀ image ∈ media'.images, imageDigests hash media.images ≠ imageIdentity hash image
  right : prompt.combines media = false → prompt.combines media' = true →
    ∀ image ∈ media.images, imageDigests hash media'.images ≠ imageIdentity hash image

/-- The key of a position. -/
def keyOf (media : Media) (i : Nat) : Option Hash128 :=
  keyAt prompt.imageTokenId prompt.audioTokenId (media.images.map (imageHash hash))
    (media.clips.map (audioHash hash))
    (if prompt.combines media then some (hash (imageDigests hash media.images)) else none)
    prompt.tokenIds i

variable {E hash prompt} {media media' : Media} {keys : List Hash128} {i : Nat}

theorem keysFrom_eq_keyOf (media : Media) (hashes : List Hash128) :
    (keyTable hash prompt.tokenIds [prompt.imageTokenId, prompt.audioTokenId] media.images media.clips
      prompt.allowCombinedImageKey).keysFrom {} 0 prompt.tokenIds = .ok hashes ↔
      hashes.length = prompt.tokenIds.length ∧ ∀ i, hashes[i]? = prompt.keyOf hash media i := by
  have h := keysFrom_eq_ok (media.images.map (imageHash hash)) (media.clips.map (audioHash hash))
    (if prompt.combines media then some (hash (imageDigests hash media.images)) else none)
    prompt.tokenIds (scanned_nil prompt.imageTokenId prompt.audioTokenId) hashes
  simp only [List.nil_append, List.length_nil, Nat.zero_add] at h
  exact h

theorem keys_eq_ok : prompt.keys hash media = .ok keys ↔ ∃ hashes : List Hash128,
    hashes.length = prompt.tokenIds.length ∧ (∀ i, hashes[i]? = prompt.keyOf hash media i) ∧
      (if hashes.any (· ≠ {}) then hashes else []) = keys := by
  rw [Prompt.keys, buildPerPositionMediaHash, if_neg (by simp), bind_eq_ok]
  constructor
  · rintro ⟨hashes, hrun, hkeys⟩
    obtain ⟨hlength, hget⟩ := (keysFrom_eq_keyOf media hashes).1 hrun
    exact ⟨hashes, hlength, hget, Except.ok.inj hkeys⟩
  · rintro ⟨hashes, hlength, hget, hkeys⟩
    exact ⟨hashes, (keysFrom_eq_keyOf media hashes).2 ⟨hlength, hget⟩, congrArg Except.ok hkeys⟩

/-- The entry of a position: the empty vector stands for zero hashes. -/
theorem getD_keys (h : prompt.keys hash media = .ok keys) (i : Nat) :
    keys.getD i {} = (prompt.keyOf hash media i).getD {} := by
  obtain ⟨hashes, -, hget, rfl⟩ := keys_eq_ok.1 h
  rw [← hget]
  by_cases hany : hashes.any (· ≠ {}) = true
  · rw [if_pos hany, List.getD_eq_getElem?_getD]
  · rw [if_neg hany]
    cases hi : hashes[i]? with
    | none => rfl
    | some value =>
      have hzero : value = {} := by
        by_contra hne
        exact hany (List.any_eq_true.2 ⟨value, List.mem_of_getElem? hi, by simpa using hne⟩)
      rw [hzero]
      rfl

theorem keyOf_isSome (h : prompt.keys hash media = .ok keys) {token : BitVec 32}
    (hi : prompt.tokenIds[i]? = some token) : ∃ value, prompt.keyOf hash media i = some value := by
  obtain ⟨hashes, hlength, hget, -⟩ := keys_eq_ok.1 h
  obtain ⟨hlt, -⟩ := List.getElem?_eq_some_iff.1 hi
  exact ⟨hashes[i], by rw [← hget, List.getElem?_eq_getElem (hlength ▸ hlt)]⟩

/-- A prompt all placeholders of which have a buffer is accepted. -/
theorem keys_isOk (h : ∀ i token, prompt.tokenIds[i]? = some token →
    ∃ value, prompt.keyOf hash media i = some value) : ∃ keys, prompt.keys hash media = .ok keys := by
  refine ⟨_, keys_eq_ok.2 ⟨(List.range prompt.tokenIds.length).map
    fun i => (prompt.keyOf hash media i).getD {}, by simp, ?_, rfl⟩⟩
  intro i
  rw [List.getElem?_map]
  by_cases hi : i < prompt.tokenIds.length
  · obtain ⟨value, hvalue⟩ := h i _ (List.getElem?_eq_getElem hi)
    rw [List.getElem?_range hi, Option.map_some, hvalue]
    rfl
  · have hnone : prompt.tokenIds[i]? = none := List.getElem?_eq_none (by omega)
    rw [List.getElem?_eq_none (by simpa using hi), keyOf, keyAt, hnone]
    rfl

end Prompt

end EdgeLLM.Ports.MediaKeys
