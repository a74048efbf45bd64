import EdgeLLM.Ports.Tokenizer
import EdgeLLM.Verified.PairMerging

/-!
# Byte pair encoding

`TokenEncoder::encode` looks a piece up as a whole, and otherwise merges its units
by priority: a heap of candidate pairs over a linked list of symbols, where an
entry whose symbols have changed since it was pushed is skipped when it is popped.

A position of -1 is `none` here, and the vector of symbols is a function on its
indices.
-/

namespace EdgeLLM.Ports.Encoding

open Utf8

/-- A token id. -/
abbrev Rank : Type := Int

/-- `TokenEncoder::Type`. -/
inductive EncoderType
  | BPE
  | SENTENCEPIECE
  | WORDPIECE
  deriving DecidableEq

/-- `TokenEncoder`, initialized.  `reverseEncoder` asserts that no two tokens share
an id. -/
structure TokenEncoder where
  mType : EncoderType
  mEncoder : Bytes → Option Rank
  mDecoder : Rank → Option Bytes
  mByteFallback : Bool
  mUseMergePriorities : Bool
  mMergePriorities : Bytes → Option Rank
  reversed : ∀ token rank, mDecoder rank = some token ↔ mEncoder token = some rank

/-- `std::numeric_limits<Rank>::max()`. -/
def MAX_RANK : Rank := 2147483647

def kMaxTokenPieceSizeBytes : Nat := 1024 * 1024

/-- `piece.substr(start, stop - start)`. -/
def substr (piece : Bytes) (start stop : Nat) : Bytes := (piece.drop start).take (stop - start)

/-- A symbol of the linked list; `start` is `none` once it is merged away. -/
structure Symbol where
  start : Option Nat
  stop : Nat
  prev : Option Nat
  next : Option Nat

/-- A pair that was adjacent when it was pushed. -/
structure Candidate where
  rank : Rank
  start : Nat
  left : Nat
  leftEnd : Nat
  rightEnd : Nat

/-- `later`: the order of the heap. -/
def later (a b : Candidate) : Bool :=
  if a.rank ≠ b.rank then a.rank > b.rank else a.start > b.start

/-- `std::pop_heap` and `pop_back`: some candidate that is not later than any other
one, and the others. -/
structure PopHeap where
  pop : List Candidate → Option (Candidate × List Candidate)
  pop_none : ∀ heap, pop heap = none → heap = []
  pop_some : ∀ heap c rest, pop heap = some (c, rest) →
    (c :: rest).Perm heap ∧ ∀ d ∈ rest, later c d = false

/-- The earliest of some candidates, and the others. -/
def earliest : Candidate → List Candidate → Candidate × List Candidate
  | c, [] => (c, [])
  | c, d :: rest =>
    if later c d then ((earliest d rest).1, c :: (earliest d rest).2)
    else ((earliest c rest).1, d :: (earliest c rest).2)

theorem later_iff (a b : Candidate) :
    later a b = true ↔ b.rank < a.rank ∨ a.rank = b.rank ∧ b.start < a.start := by
  rw [later]
  split_ifs with hne
  · rw [decide_eq_true_eq]
    constructor
    · exact Or.inl
    · intro h
      exact h.resolve_right (fun heq => hne heq.1)
  · rw [decide_eq_true_eq]
    constructor
    · intro h
      exact .inr ⟨not_not.1 hne, h⟩
    · intro h
      rcases h with hlt | ⟨_, hlt⟩
      · exact absurd (not_not.1 hne) (ne_of_gt hlt)
      · exact hlt

theorem later_trans {a b c : Candidate} (hab : later a b = false) (hbc : later b c = false) :
    later a c = false := by
  rw [← Bool.not_eq_true, later_iff] at hab hbc ⊢
  grind

theorem later_asymm {a b : Candidate} (hab : later a b = true) : later b a = false := by
  rw [← Bool.not_eq_true, later_iff]
  rw [later_iff] at hab
  grind

theorem earliest_spec : ∀ (rest : List Candidate) (c : Candidate),
      ((earliest c rest).1 :: (earliest c rest).2).Perm (c :: rest) ∧
        later (earliest c rest).1 c = false ∧
        ∀ d ∈ (earliest c rest).2, later (earliest c rest).1 d = false := by
  intro rest
  induction rest with
  | nil =>
    intro c
    refine ⟨List.Perm.refl _, ?_, fun d hd => absurd hd List.not_mem_nil⟩
    simp [earliest, later]
  | cons d rest ih =>
    intro c
    rw [earliest]
    split_ifs with hlater
    · obtain ⟨hperm, hfirst, hothers⟩ := ih d
      have hc := later_trans hfirst (later_asymm hlater)
      refine ⟨((List.Perm.swap _ _ _).trans (hperm.cons c)), hc, ?_⟩
      intro e he
      rcases List.mem_cons.1 he with rfl | hmem
      · exact hc
      · exact hothers e hmem
    · obtain ⟨hperm, hfirst, hothers⟩ := ih c
      have hd := later_trans hfirst (by simpa using hlater)
      refine ⟨?_, hfirst, ?_⟩
      · exact (List.Perm.swap _ _ _).trans ((hperm.cons d).trans (List.Perm.swap _ _ _))
      · intro e he
        rcases List.mem_cons.1 he with rfl | hmem
        · exact hd
        · exact hothers e hmem

/-- A heap that looks through all its candidates. -/
def PopHeap.scanning : PopHeap where
  pop
    | [] => none
    | c :: rest => some (earliest c rest)
  pop_none := by
    intro heap h
    cases heap with
    | nil => rfl
    | cons c rest => cases h
  pop_some := by
    intro heap c rest h
    cases heap with
    | nil => cases h
    | cons d others =>
      rw [Option.some.injEq] at h
      have hspec := earliest_spec others d
      rw [h] at hspec
      exact ⟨hspec.1, hspec.2.2⟩

structure MergeState where
  symbols : Nat → Symbol
  heap : List Candidate

namespace TokenEncoder

variable (enc : TokenEncoder)

def getPairPriority (left right : Bytes) : Rank :=
  if enc.mUseMergePriorities then (enc.mMergePriorities (left ++ [0] ++ right)).getD MAX_RANK
  else (enc.mEncoder (left ++ right)).getD MAX_RANK

/-- How many bytes the unit with this first byte has. -/
def unitLength (c : UInt8) : Nat :=
  if enc.mUseMergePriorities then
    if c < 0x80 then 1
    else if c &&& 0xE0 = 0xC0 then 2
    else if c &&& 0xF0 = 0xE0 then 3
    else 4
  else 1

/-- `charPositions` from a position on; the second argument counts the bytes left
of a unit. -/
def charPositions : Nat → Nat → Bytes → List Nat
  | pos, _, [] => [pos]
  | pos, 0, c :: rest => pos :: charPositions (pos + 1) (enc.unitLength c - 1) rest
  | pos, skip + 1, _ :: rest => charPositions (pos + 1) skip rest

def pushPair (piece : Bytes) (s : MergeState) (left : Option Nat) : MergeState :=
  match left with
  | none => s
  | some i =>
    match (s.symbols i).next with
    | none => s
    | some j =>
      let l := s.symbols i
      let r := s.symbols j
      let rank := enc.getPairPriority (substr piece (l.start.getD 0) l.stop)
        (substr piece (r.start.getD 0) r.stop)
      if rank ≠ MAX_RANK then
        { s with heap := ⟨rank, l.start.getD 0, i, l.stop, r.stop⟩ :: s.heap }
      else s

/-- The test for a stale entry. -/
def isStale (s : MergeState) (c : Candidate) : Bool :=
  match (s.symbols c.left).start, (s.symbols c.left).next with
  | some _, some right =>
    (s.symbols c.left).stop ≠ c.leftEnd || (s.symbols right).stop ≠ c.rightEnd
  | _, _ => true

/-- Write one symbol. -/
def setSymbol (symbols : Nat → Symbol) (i : Nat) (symbol : Symbol) : Nat → Symbol :=
  fun j => if j = i then symbol else symbols j

/-- The merge of the symbol `left` with the one behind it. -/
def mergeSymbols (symbols : Nat → Symbol) (left : Nat) : Nat → Symbol :=
  match (symbols left).next with
  | none => symbols
  | some right =>
    let r := symbols right
    let merged := setSymbol symbols left { symbols left with stop := r.stop, next := r.next }
    let relinked :=
      match r.next with
      | none => merged
      | some after => setSymbol merged after { merged after with prev := some left }
    setSymbol relinked right { relinked right with start := none }

/-- The merge of a popped candidate, and the two pairs it makes. -/
def mergeCandidate (piece : Bytes) (s : MergeState) (c : Candidate) : MergeState :=
  let s := { s with symbols := mergeSymbols s.symbols c.left }
  let s := enc.pushPair piece s (s.symbols c.left).prev
  enc.pushPair piece s (some c.left)

/-- The loop over the heap; `none` is running out of fuel. -/
def mergeLoop (heap : PopHeap) (piece : Bytes) : Nat → MergeState → Option MergeState
  | 0, _ => none
  | fuel + 1, s =>
    match heap.pop s.heap with
    | none => some s
    | some (c, rest) =>
      let s := { s with heap := rest }
      if isStale s c then mergeLoop heap piece fuel s
      else mergeLoop heap piece fuel (enc.mergeCandidate piece s c)

/-- The symbols before the loop. -/
def initialSymbols (positions : List Nat) (i : Nat) : Symbol where
  start := some (positions.getD i 0)
  stop := positions.getD (i + 1) 0
  prev := if i = 0 then none else some (i - 1)
  next := if i + 1 < positions.length - 1 then some (i + 1) else none

/-- The heap before the loop: every pair of neighbours. -/
def initialState (piece : Bytes) (positions : List Nat) : MergeState :=
  (List.range (positions.length - 2)).foldl (fun s i => enc.pushPair piece s (some i))
    { symbols := initialSymbols positions, heap := [] }

/-- The strings of the linked list from a symbol on. -/
def collect (piece : Bytes) (symbols : Nat → Symbol) : Nat → Nat → Option (List Bytes)
  | 0, _ => none
  | fuel + 1, i =>
    let token := substr piece ((symbols i).start.getD 0) (symbols i).stop
    match (symbols i).next with
    | none => some [token]
    | some j => (collect piece symbols fuel j).map fun tokens => token :: tokens

/-- A hexadecimal digit, as `%02X` prints it. -/
def hexDigit (n : UInt8) : UInt8 := if n < 10 then 0x30 + n else 0x37 + n

/-- The token `<0xNN>` of a byte. -/
def byteToken (byte : UInt8) : Bytes :=
  [0x3C, 0x30, 0x78, hexDigit (byte >>> 4), hexDigit (byte &&& 0x0F), 0x3E]

/-- The byte tokens of some bytes, and whether all were found. -/
def fallbackTokens : Bytes → List Rank × Bool
  | [] => ([], true)
  | byte :: rest =>
    match enc.mEncoder (byteToken byte) with
    | some rank => (rank :: (fallbackTokens rest).1, (fallbackTokens rest).2)
    | none => ([], false)

/-- The final loop: the ids of some strings, up to the first that has none. -/
def finalTokens : List Bytes → List Rank
  | [] => []
  | token :: rest =>
    match enc.mEncoder token with
    | some rank => rank :: finalTokens rest
    | none =>
      if enc.mByteFallback then
        if (enc.fallbackTokens token).2 then (enc.fallbackTokens token).1 ++ finalTokens rest
        else (enc.fallbackTokens token).1
      else []

/-- `bytePairEncode`: the ids that it appends. -/
def bytePairEncode (heap : PopHeap) (piece : Bytes) : Option (List Rank) :=
  if piece = [] then some []
  else
    match enc.mEncoder piece with
    | some rank => some [rank]
    | none =>
      let positions := enc.charPositions 0 0 piece
      let numChars := positions.length - 1
      if numChars ≤ 1 then some []
      else
        (enc.mergeLoop heap piece (3 * numChars) (enc.initialState piece positions)).bind fun s =>
          (collect piece s.symbols numChars 0).map enc.finalTokens

/-- `encode`: what it returns, and the ids that it appends. -/
def encode (heap : PopHeap) (piece : Bytes) : Option (Bool × List Rank) :=
  if piece = [] then some (true, [])
  else if kMaxTokenPieceSizeBytes < piece.length then some (false, [])
  else
    match enc.mType with
    | .BPE => (enc.bytePairEncode heap piece).map fun ids => (true, ids)
    | _ => some (false, [])

theorem charPositions_mem :
    ∀ (piece : Bytes) (pos skip : Nat), ∀ p ∈ enc.charPositions pos skip piece,
      pos ≤ p ∧ p ≤ pos + piece.length := by
  intro piece
  induction piece with
  | nil =>
    intro pos skip p hp
    rw [charPositions, List.mem_singleton] at hp
    simp [hp]
  | cons c rest ih =>
    intro pos skip p hp
    rw [List.length_cons]
    cases skip with
    | zero =>
      rw [charPositions] at hp
      rcases List.mem_cons.1 hp with rfl | hlater
      · omega
      · have hbounds := ih _ _ p hlater
        omega
    | succ skip =>
      rw [charPositions] at hp
      have hbounds := ih _ _ p hp
      omega

theorem charPositions_pairwise :
    ∀ (piece : Bytes) (pos skip : Nat), (enc.charPositions pos skip piece).Pairwise (· < ·) := by
  intro piece
  induction piece with
  | nil =>
    intro pos skip
    exact List.pairwise_singleton _ _
  | cons c rest ih =>
    intro pos skip
    cases skip with
    | zero =>
      rw [charPositions, List.pairwise_cons]
      refine ⟨?_, ih _ _⟩
      intro p hp
      have hbounds := enc.charPositions_mem rest _ _ p hp
      omega
    | succ skip => exact ih _ _

end TokenEncoder

end EdgeLLM.Ports.Encoding
