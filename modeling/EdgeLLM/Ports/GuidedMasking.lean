import EdgeLLM.Ports.GuidedDecoder

/-!
# The masks of a draft tree are those of its paths

The walk threads one matcher through the tree and rolls it back.  What it is compared
with feeds the grammar the tokens of one path.
-/

namespace EdgeLLM.Ports.Generation

open Verified

variable {Matcher : Type}

/-! ## Paths -/

/-- The grammar over one token of a path; `none` where it refuses. -/
def GuideState.follow (config : GuideConfig Matcher) (st : GuideState Matcher) (fullId : Token) :
    Option (GuideState Matcher) :=
  if st.reasoningEnded = false then
    some { st with reasoningEnded := config.isReasoningEnd fullId }
  else if config.api.isTerminated st.matcher then some st
  else
    let outputId := config.vocab.toOutputSpace fullId
    if outputId < 0 then none
    else
      let accepted := config.api.acceptToken st.matcher outputId.toNat
      if accepted.1 then some { st with matcher := accepted.2 } else none

/-- The grammar over a path. -/
def GuideState.followPath (config : GuideConfig Matcher) (st : GuideState Matcher)
    (path : List Token) : Option (GuideState Matcher) :=
  path.foldlM (fun st fullId => st.follow config fullId) st

/-- The grammar decides about the next token. -/
def GuideState.governs (config : GuideConfig Matcher) (st : GuideState Matcher) : Bool :=
  st.reasoningEnded && !config.api.isTerminated st.matcher

/-- The mask of a state: none where the grammar does not govern, and else exactly the
tokens that it accepts. -/
def GuideState.Masks (config : GuideConfig Matcher) (st : GuideState Matcher) :
    Option BitmaskRow → Prop
  | none => st.governs config = false
  | some row => st.governs config = true ∧ ∀ t, t < config.vocab.outputVocabSize →
      rowAllows row t = (config.api.acceptToken st.matcher t).1

/-- A token can be sampled under a mask. -/
def Allows (config : GuideConfig Matcher) (mask : Option BitmaskRow) (fullId : Token) : Prop :=
  match mask with
  | none => True
  | some row => 0 ≤ config.vocab.toOutputSpace fullId ∧
      rowAllows row (config.vocab.toOutputSpace fullId).toNat = true

section Follow

variable {config : GuideConfig Matcher} {st st' : GuideState Matcher} {fullId : Token}

theorem follow_open (hopen : st.reasoningEnded = false) :
    st.follow config fullId = some { st with reasoningEnded := config.isReasoningEnd fullId } := by
  rw [GuideState.follow, if_pos hopen]

theorem follow_terminated (hended : st.reasoningEnded = true)
    (hterminated : config.api.isTerminated st.matcher = true) :
    st.follow config fullId = some st := by
  rw [GuideState.follow, if_neg (by rw [hended]; exact Bool.noConfusion), if_pos hterminated]

theorem follow_governed (hgoverns : st.governs config = true) :
    st.follow config fullId =
      if 0 ≤ config.vocab.toOutputSpace fullId ∧ (config.api.acceptToken st.matcher
          (config.vocab.toOutputSpace fullId).toNat).1 = true then
        some { st with matcher := (config.api.acceptToken st.matcher
          (config.vocab.toOutputSpace fullId).toNat).2 }
      else none := by
  rw [GuideState.governs, Bool.and_eq_true, Bool.not_eq_true'] at hgoverns
  rw [GuideState.follow, if_neg (by rw [hgoverns.1]; exact Bool.noConfusion),
    if_neg (by rw [hgoverns.2]; exact Bool.noConfusion)]
  dsimp only
  split
  · rename_i hnone
    rw [if_neg (by omega)]
  · rename_i hsome
    split
    · rename_i haccepts
      rw [if_pos ⟨by omega, haccepts⟩]
    · rename_i hrejects
      rw [if_neg]
      intro hboth
      exact hrejects hboth.2

/-- A token that the mask of a state allows is followed. -/
theorem follow_of_allows {mask : Option BitmaskRow} (hmask : st.Masks config mask)
    (hallows : Allows config mask fullId) : ∃ st', st.follow config fullId = some st' := by
  cases mask with
  | none =>
    by_cases hopen : st.reasoningEnded = false
    · exact ⟨_, follow_open hopen⟩
    · rw [Bool.not_eq_false] at hopen
      rw [GuideState.Masks, GuideState.governs, hopen, Bool.true_and, Bool.not_eq_false'] at hmask
      exact ⟨_, follow_terminated hopen hmask⟩
  | some row =>
    have hlt := config.vocab.toOutputSpace_lt fullId
    have haccepts := hmask.2 (config.vocab.toOutputSpace fullId).toNat (by
      have := hallows.1
      omega)
    rw [hallows.2] at haccepts
    rw [follow_governed hmask.1, if_pos ⟨hallows.1, haccepts.symm⟩]
    exact ⟨_, rfl⟩

/-- A state that does not govern never governs again, unless the reasoning ends. -/
theorem follow_reachable {m : Matcher} (hreachable : config.api.Reachable m st.matcher)
    (hfollow : st.follow config fullId = some st') : config.api.Reachable m st'.matcher := by
  rw [GuideState.follow] at hfollow
  split at hfollow
  · cases hfollow
    exact hreachable
  · split at hfollow
    · cases hfollow
      exact hreachable
    · dsimp only at hfollow
      split at hfollow
      · cases hfollow
      · split at hfollow
        · rename_i haccepts
          cases hfollow
          exact .accepted _ _ hreachable haccepts
        · cases hfollow

/-- `advanceCommitted` takes a path that the grammar follows, and ends in its state. -/
theorem advanceTokens_of_followPath (path : List Token) :
    ∀ {st st' : GuideState Matcher}, st.followPath config path = some st' →
      advanceTokens config path st = (true, st') := by
  induction path with
  | nil =>
    intro st st' hpath
    cases hpath
    rfl
  | cons fullId rest ih =>
    intro st st' hpath
    rw [GuideState.followPath, List.foldlM_cons] at hpath
    rw [advanceTokens]
    by_cases hopen : st.reasoningEnded = false
    · rw [follow_open hopen] at hpath
      rw [if_pos hopen]
      exact ih hpath
    · rw [if_neg hopen]
      rw [Bool.not_eq_false] at hopen
      by_cases hterminated : config.api.isTerminated st.matcher = true
      · rw [if_pos hterminated]
        have hstays : ∀ tokens : List Token, st.followPath config tokens = some st := by
          intro tokens
          induction tokens with
          | nil => rfl
          | cons token tokens ihtokens =>
            rw [GuideState.followPath, List.foldlM_cons, follow_terminated hopen hterminated]
            exact ihtokens
        rw [follow_terminated hopen hterminated] at hpath
        have hsame := (hstays rest).symm.trans hpath
        cases hsame
        rfl
      · have hgoverns : st.governs config = true := by
          rw [GuideState.governs, hopen, Bool.true_and, Bool.not_eq_true']
          rw [Bool.not_eq_true] at hterminated
          exact hterminated
        rw [follow_governed hgoverns] at hpath
        rw [if_neg hterminated]
        split at hpath
        · rename_i hboth
          dsimp only
          rw [if_neg (by omega), if_pos hboth.2]
          exact ih hpath
        · cases hpath

end Follow

/-! ## Nodes of a tree -/

namespace SlotTree

/-- A node that was built, below its parent. -/
structure Edge (tree : SlotTree) (parent node : Nat) : Prop where
  pos : 0 < node
  built : node < tree.nodeCount
  parentOf : tree.parentOf node = parent

/-- The nodes of a subtree. -/
inductive Below (tree : SlotTree) (top : Nat) : Nat → Prop
  | top : tree.Below top top
  | child {parent node : Nat} (below : tree.Below top parent) (edge : tree.Edge parent node) :
      tree.Below top node

/-- The state of the grammar at a node, and the path to it, for a state at the root. -/
inductive At (tree : SlotTree) (config : GuideConfig Matcher) (start : GuideState Matcher) :
    Nat → List Token → GuideState Matcher → Prop
  | root : tree.At config start 0 [] start
  | child {parent node : Nat} {path : List Token} {st st' : GuideState Matcher}
      (at' : tree.At config start parent path st) (edge : tree.Edge parent node)
      (follow : st.follow config (tree.token node) = some st') :
      tree.At config start node (path ++ [tree.token node]) st'

section Nodes

variable {tree : SlotTree} {config : GuideConfig Matcher} {start st st' : GuideState Matcher}
variable {parent node top : Nat} {path path' : List Token}

theorem Edge.parent_eq {other : Nat} (h : tree.Edge parent node) (h' : tree.Edge other node) :
    parent = other :=
  Int.ofNat.inj (h.parentOf.symm.trans h'.parentOf)

theorem Below.head (h : tree.Below top node) :
    node = top ∨ ∃ child, tree.Edge top child ∧ tree.Below child node := by
  induction h with
  | top => exact Or.inl rfl
  | @child parent node below edge ih =>
    apply Or.inr
    rcases ih with hsame | hchild
    · exact ⟨node, hsame ▸ edge, .top⟩
    · obtain ⟨child, hedge, hbelow⟩ := hchild
      exact ⟨child, hedge, .child hbelow edge⟩

theorem At.unique (h : tree.At config start node path st) :
    ∀ {path' : List Token} {st' : GuideState Matcher}, tree.At config start node path' st' →
      path = path' ∧ st = st' := by
  induction h with
  | root =>
    intro path' st' h'
    cases h' with
    | root => exact ⟨rfl, rfl⟩
    | child _ edge _ => exact absurd edge.pos (Nat.lt_irrefl 0)
  | child at' edge follow ih =>
    intro path' st' h'
    cases h' with
    | root => exact absurd edge.pos (Nat.lt_irrefl 0)
    | child at'' edge' follow' =>
      cases edge.parent_eq edge'
      obtain ⟨hpath, hst⟩ := ih at''
      rw [hst, follow', Option.some.injEq] at follow
      exact ⟨by rw [hpath], follow.symm⟩

/-- A node below `top` has its state by way of the state at `top`. -/
theorem At.of_below (hbelow : tree.Below top node) :
    ∀ {path : List Token} {st : GuideState Matcher}, tree.At config start node path st →
      ∃ path' st', tree.At config start top path' st' := by
  induction hbelow with
  | top =>
    intro path st h
    exact ⟨path, st, h⟩
  | child below edge ih =>
    intro path st h
    cases h with
    | root => exact absurd edge.pos (Nat.lt_irrefl 0)
    | child at' edge' _ =>
      cases edge.parent_eq edge'
      exact ih at'

/-- Below a terminated state nothing changes. -/
theorem At.terminated (htop : tree.At config start top path st)
    (hended : st.reasoningEnded = true) (hterminated : config.api.isTerminated st.matcher = true)
    (hbelow : tree.Below top node) :
    ∀ {path' : List Token} {st' : GuideState Matcher}, tree.At config start node path' st' →
      st' = st := by
  induction hbelow with
  | top =>
    intro path' st' h
    exact (h.unique htop).2
  | child below edge ih =>
    intro path' st' h
    cases h with
    | root => exact absurd edge.pos (Nat.lt_irrefl 0)
    | child at' edge' follow =>
      cases edge.parent_eq edge'
      rw [ih at', follow_terminated hended hterminated, Option.some.injEq] at follow
      exact follow.symm

theorem At.followPath (h : tree.At config start node path st) :
    start.followPath config path = some st := by
  induction h with
  | root => rfl
  | child at' edge follow ih =>
    rw [GuideState.followPath] at ih ⊢
    rw [List.foldlM_append, ih]
    exact congrArg (fun o => o.bind some) follow

theorem At.reachable (h : tree.At config start node path st) :
    config.api.Reachable start.matcher st.matcher := by
  induction h with
  | root => exact .start
  | child at' edge follow ih => exact follow_reachable ih follow

end Nodes

end SlotTree

/-! ## The walk -/

section Visit

variable {config : GuideConfig Matcher} {tree : SlotTree} {start st : GuideState Matcher}
variable {w w' w'' : Walk Matcher}

/-- The flagged rows of the slot are those of states that govern, with their masks. -/
def Walk.Sound (w : Walk Matcher) (config : GuideConfig Matcher) (tree : SlotTree)
    (start : GuideState Matcher) : Prop :=
  ∀ node, node < tree.nodeCount → w.rowNeedsMask (tree.base + node) = true →
    w.anyRowNeedsMask = true ∧ ∃ path st, tree.At config start node path st ∧
      st.Masks config (some (w.hostBitmask (tree.base + node)))

/-- The walk went over some nodes: the matcher is back, flags stay, other slots are left
alone, and the rows that the grammar governs are flagged. -/
structure Visited (config : GuideConfig Matcher) (tree : SlotTree) (start : GuideState Matcher)
    (nodes : Nat → Prop) (w w' : Walk Matcher) : Prop where
  matcher : w'.matcher = w.matcher
  sound : w'.Sound config tree start
  any : w.anyRowNeedsMask = true → w'.anyRowNeedsMask = true
  flags : ∀ row, w.rowNeedsMask row = true → w'.rowNeedsMask row = true
  outside : ∀ row, row < tree.base ∨ tree.base + tree.nodeCount ≤ row →
    w'.rowNeedsMask row = w.rowNeedsMask row ∧ w'.hostBitmask row = w.hostBitmask row
  complete : ∀ node, nodes node → ∀ path st, tree.At config start node path st →
    st.governs config = true → w'.rowNeedsMask (tree.base + node) = true

theorem Visited.trans {nodes nodes' both : Nat → Prop} (h : Visited config tree start nodes w w')
    (h' : Visited config tree start nodes' w' w'')
    (hboth : ∀ node, both node → nodes node ∨ nodes' node) :
    Visited config tree start both w w'' where
  matcher := h'.matcher.trans h.matcher
  sound := h'.sound
  any := fun hany => h'.any (h.any hany)
  flags := fun row hrow => h'.flags row (h.flags row hrow)
  outside := fun row hrow =>
    ⟨(h'.outside row hrow).1.trans (h.outside row hrow).1,
      (h'.outside row hrow).2.trans (h.outside row hrow).2⟩
  complete := by
    intro node hnode path st hat hgoverns
    rcases hboth node hnode with hfirst | hsecond
    · exact h'.flags _ (h.complete node hfirst path st hat hgoverns)
    · exact h'.complete node hsecond path st hat hgoverns

theorem Visited.refl {nodes : Nat → Prop} (hsound : w.Sound config tree start)
    (hnone : ∀ node, nodes node → ∀ path st, tree.At config start node path st →
      st.governs config = false) : Visited config tree start nodes w w where
  matcher := rfl
  sound := hsound
  any := id
  flags := fun _ => id
  outside := fun _ _ => ⟨rfl, rfl⟩
  complete := by
    intro node hnode path st hat hgoverns
    rw [hnone node hnode path st hat] at hgoverns
    cases hgoverns

theorem Visited.init (hsound : w.Sound config tree start) :
    Visited config tree start (fun _ => False) w w :=
  Visited.refl hsound fun _ hfalse => hfalse.elim

theorem fill_masks (hlawful : config.api.Lawful config.vocab.outputVocabSize)
    (hgoverns : st.governs config = true) :
    st.Masks config (some (config.api.fillNextTokenBitmask st.matcher)) := by
  refine ⟨hgoverns, ?_⟩
  rw [GuideState.governs, Bool.and_eq_true, Bool.not_eq_true'] at hgoverns
  intro t ht
  exact hlawful.fill _ _ hgoverns.2 ht

/-- The row of a node whose state governs is filled. -/
theorem Visited.fillRow (hlawful : config.api.Lawful config.vocab.outputVocabSize)
    (hsound : w.Sound config tree start) {node : Nat} {path : List Token}
    (hbuilt : node < tree.nodeCount) (hat : tree.At config start node path st)
    (hmatcher : w.matcher = st.matcher) (hgoverns : st.governs config = true) :
    Visited config tree start (fun other => other = node) w
      (w.fillRow config.api (tree.base + node)) where
  matcher := rfl
  sound := by
    intro other hother hflag
    refine ⟨rfl, ?_⟩
    by_cases hsame : other = node
    · rw [hsame]
      refine ⟨path, st, hat, ?_⟩
      have hrow : (w.fillRow config.api (tree.base + node)).hostBitmask (tree.base + node) =
          config.api.fillNextTokenBitmask st.matcher := by
        rw [Walk.fillRow, ← hmatcher]
        exact Function.update_self _ _ _
      rw [hrow]
      exact fill_masks hlawful hgoverns
    · have hne : tree.base + other ≠ tree.base + node := by omega
      have hold : w.rowNeedsMask (tree.base + other) = true := by
        rw [← hflag]
        exact (Function.update_of_ne hne _ _).symm
      obtain ⟨_, path', st', hat', hmasks⟩ := hsound other hother hold
      refine ⟨path', st', hat', ?_⟩
      have hrow : (w.fillRow config.api (tree.base + node)).hostBitmask (tree.base + other) =
          w.hostBitmask (tree.base + other) := Function.update_of_ne hne _ _
      rw [hrow]
      exact hmasks
  any := fun _ => rfl
  flags := by
    intro row hrow
    show Function.update w.rowNeedsMask (tree.base + node) true row = true
    by_cases hsame : row = tree.base + node
    · rw [hsame, Function.update_self]
    · rw [Function.update_of_ne hsame]
      exact hrow
  outside := by
    intro row hrow
    have hne : row ≠ tree.base + node := by omega
    exact ⟨Function.update_of_ne hne _ _, Function.update_of_ne hne _ _⟩
  complete := by
    intro other hother _ _ _ _
    rw [hother]
    exact Function.update_self _ _ _

theorem Visited.foldl {step : Walk Matcher → Nat → Walk Matcher} (children : List Nat)
    (hstep : ∀ child ∈ children, ∀ before : Walk Matcher,
      Visited config tree start (fun _ => False) w before →
        Visited config tree start (fun other => tree.Below child other) before
          (step before child)) :
    ∀ before : Walk Matcher, Visited config tree start (fun _ => False) w before →
      Visited config tree start (fun other => ∃ child ∈ children, tree.Below child other) before
        (children.foldl step before) := by
  induction children with
  | nil =>
    intro before hbefore
    apply Visited.refl hbefore.sound
    intro other hother
    obtain ⟨child, hmem, _⟩ := hother
    cases hmem
  | cons child rest ih =>
    intro before hbefore
    have hfirst := hstep child List.mem_cons_self before hbefore
    have hnext : Visited config tree start (fun _ => False) w (step before child) :=
      hbefore.trans hfirst fun _ hfalse => hfalse.elim
    have hrest := ih (fun c hc => hstep c (List.mem_cons_of_mem _ hc)) _ hnext
    apply hfirst.trans hrest
    intro other hother
    obtain ⟨c, hmem, hbelow⟩ := hother
    rw [List.mem_cons] at hmem
    rcases hmem with hsame | hin
    · exact Or.inl (hsame ▸ hbelow)
    · exact Or.inr ⟨c, hin, hbelow⟩

/-- Visiting the children of a node that is in place. -/
theorem Visited.children (st : GuideState Matcher) {links : SiblingLinks} {step : Walk Matcher → Nat → Walk Matcher}
    {node : Nat} (hlinks : links.Linked tree.parentOf tree.nodeCount 1)
    (hbuilt : node < tree.nodeCount) (hmatcher : w.matcher = st.matcher)
    (hsound : w.Sound config tree start)
    (hflag : st.reasoningEnded = true → w.rowNeedsMask (tree.base + node) = true)
    (hstep : ∀ child, tree.Edge node child → ∀ before : Walk Matcher,
      before.matcher = st.matcher → before.Sound config tree start →
        (st.reasoningEnded = true → before.rowNeedsMask (tree.base + node) = true) →
          Visited config tree start (tree.Below child) before (step before child)) :
    Visited config tree start (fun other => ∃ child, tree.Edge node child ∧ tree.Below child other)
      w ((links.children tree.nodeCount node).foldl step w) := by
  have hchildren := hlinks.children hbuilt
  have hedge : ∀ child, child ∈ links.children tree.nodeCount node ↔ tree.Edge node child := by
    intro child
    rw [hchildren, SiblingLinks.mem_childrenFrom]
    constructor
    · intro hmem
      exact ⟨hmem.1, hmem.2.1, hmem.2.2⟩
    · intro hedge
      exact ⟨hedge.pos, hedge.built, hedge.parentOf⟩
  have hall := Visited.foldl (links.children tree.nodeCount node) (by
    intro child hmem before hbefore
    exact hstep child ((hedge child).1 hmem) before (hbefore.matcher.trans hmatcher) hbefore.sound
      fun hended => hbefore.flags _ (hflag hended)) w (Visited.init hsound)
  apply (Visited.init hsound).trans hall
  intro other hother
  obtain ⟨child, hchild, hbelow⟩ := hother
  exact Or.inr ⟨child, (hedge child).2 hchild, hbelow⟩

theorem row_of_live {m : Matcher} (hlawful : config.api.Lawful config.vocab.outputVocabSize)
    (hlive : config.api.Live config.vocab.outputVocabSize start.matcher)
    (hreachable : config.api.Reachable start.matcher m)
    (hrunning : config.api.isTerminated m = false) :
    rowHasAnyToken (config.api.fillNextTokenBitmask m) = true := by
  obtain ⟨t, ht, haccepts⟩ := hlive m hreachable hrunning
  apply rowHasAnyToken_of_allows
  rw [hlawful.fill m t hrunning ht]
  exact haccepts

variable {links : SiblingLinks}

/-- The walk over a subtree, started where its parent has left the matcher.  The induction
is on the fuel; a child has a larger number than its parent, so the nodes suffice. -/
theorem visit_spec (hlawful : config.api.Lawful config.vocab.outputVocabSize)
    (hlive : config.api.Live config.vocab.outputVocabSize start.matcher)
    (hlinks : links.Linked tree.parentOf tree.nodeCount 1)
    (hordered : ∀ parent node, tree.Edge parent node → parent < node) (fuel : Nat) :
    ∀ {parent node : Nat} {path : List Token} {st : GuideState Matcher} {w : Walk Matcher},
      tree.Edge parent node → tree.nodeCount - node ≤ fuel →
        tree.At config start parent path st → config.api.isTerminated st.matcher = false →
          w.matcher = st.matcher → w.Sound config tree start →
            (st.reasoningEnded = true → w.rowNeedsMask (tree.base + parent) = true) →
              Visited config tree start (tree.Below node) w
                (visit config tree links fuel node st.reasoningEnded w) := by
  induction fuel with
  | zero =>
    intro parent node path st w hedge hfuel _ _ _ _ _
    have hbuilt := hedge.built
    omega
  | succ fuel ih =>
    intro parent node path st w hedge hfuel hat hrunning hmatcher hsound hflag
    have hbuilt := hedge.built
    have hless : ∀ child, tree.Edge node child → tree.nodeCount - child ≤ fuel := by
      intro child hchild
      have hlt := hordered node child hchild
      omega
    have hsplit : ∀ other, tree.Below node other →
        other = node ∨ ∃ child, tree.Edge node child ∧ tree.Below child other :=
      fun other hbelow => hbelow.head
    rw [visit]
    by_cases hopen : st.reasoningEnded = false
    · rw [if_pos hopen]
      have hfollow := @follow_open _ config st (tree.token node) hopen
      have hnode := hat.child hedge hfollow
      by_cases hseparator : config.isReasoningEnd (tree.token node) = true
      · -- the separator: its own row is the first one that the grammar governs
        have hgoverns : GuideState.governs config
            { st with reasoningEnded := config.isReasoningEnd (tree.token node) } = true := by
          rw [GuideState.governs, hseparator, hrunning]
          rfl
        have hrow : w.fillSeparatorRow config.api (tree.base + node) =
            w.fillRow config.api (tree.base + node) := by
          rw [Walk.fillSeparatorRow, if_pos]
          rw [hmatcher]
          exact row_of_live hlawful hlive hat.reachable hrunning
        have hfill := Visited.fillRow hlawful hsound hbuilt hnode hmatcher hgoverns
        have hbelow := Visited.children { st with
            reasoningEnded := config.isReasoningEnd (tree.token node) } hlinks hbuilt
          (hfill.matcher.trans hmatcher) hfill.sound
          (fun _ => hfill.complete node rfl _ _ hnode hgoverns)
          (fun child hchild before hbefore hbeforeSound hbeforeFlag =>
            ih hchild (hless child hchild) hnode hrunning hbefore hbeforeSound hbeforeFlag)
        dsimp only
        rw [if_pos hseparator, hrow]
        exact hfill.trans hbelow hsplit
      · have hbelow := Visited.children { st with
            reasoningEnded := config.isReasoningEnd (tree.token node) } hlinks hbuilt hmatcher
          hsound (fun hended => absurd hended hseparator)
          (fun child hchild before hbefore hbeforeSound hbeforeFlag =>
            ih hchild (hless child hchild) hnode hrunning hbefore hbeforeSound hbeforeFlag)
        dsimp only
        rw [if_neg hseparator]
        apply (Visited.refl hsound ?_).trans hbelow hsplit
        intro other hother path' st' hat'
        cases hother
        rw [(hat'.unique hnode).2, GuideState.governs, Bool.and_eq_false_iff]
        rw [Bool.not_eq_true] at hseparator
        exact Or.inl hseparator
    · rw [if_neg hopen]
      rw [Bool.not_eq_false] at hopen
      have hgoverns : st.governs config = true := by
        rw [GuideState.governs, hopen, hrunning]
        rfl
      have hfollow := @follow_governed _ config st (tree.token node) hgoverns
      -- a token that the grammar refuses has no state below it
      have hrefused : st.follow config (tree.token node) = none → ∀ other,
          tree.Below node other → ∀ path' st', tree.At config start other path' st' →
            st'.governs config = false := by
        intro hnone other hbelow path' st' hat'
        obtain ⟨path'', st'', hat''⟩ := SlotTree.At.of_below hbelow hat'
        cases hat'' with
        | root => exact absurd hedge.pos (Nat.lt_irrefl 0)
        | child at' edge follow =>
          cases hedge.parent_eq edge
          rw [(hat.unique at').2.symm, hnone] at follow
          cases follow
      have hparentRow : tree.base + (tree.parentOf node).toNat = tree.base + parent := by
        rw [hedge.parentOf, Int.toNat_natCast]
      obtain ⟨_, path', st', hat', hmasks⟩ := hsound parent
        (Nat.lt_trans (hordered _ _ hedge) hbuilt) (hflag hopen)
      rw [(hat'.unique hat).2] at hmasks
      dsimp only
      by_cases hmapped : config.vocab.toOutputSpace (tree.token node) < 0
      · rw [if_pos hmapped]
        rw [if_neg (by omega)] at hfollow
        have hsame := Visited.refl hsound (hrefused hfollow)
        exact ⟨hsame.matcher, hsame.sound, hsame.any, hsame.flags, hsame.outside, hsame.complete⟩
      · have hlt := config.vocab.toOutputSpace_lt (tree.token node)
        rw [if_neg hmapped, hparentRow, hmasks.2 _ (by omega), hmatcher]
        set accepted := config.api.acceptToken st.matcher
          (config.vocab.toOutputSpace (tree.token node)).toNat with haccepted
        by_cases haccepts : accepted.1 = true
        · rw [if_pos haccepts, if_pos haccepts]
          rw [if_pos ⟨by omega, haccepts⟩] at hfollow
          have hnode := hat.child hedge hfollow
          have hback := hlawful.rollback_accepted _ _ haccepts
          -- the matcher stands at the node now
          have hmoved : Walk.Sound { w with matcher := accepted.2 } config tree start := hsound
          by_cases hterminated : config.api.isTerminated accepted.2 = true
          · rw [if_pos hterminated, hback]
            have hsame := @Visited.refl _ config tree start w (tree.Below node) hsound (by
              intro other hbelow path'' st'' hat''
              rw [hnode.terminated hopen hterminated hbelow hat'', GuideState.governs,
                hterminated, Bool.not_true, Bool.and_false])
            exact ⟨hmatcher.symm, hsame.sound, hsame.any, hsame.flags, hsame.outside,
              hsame.complete⟩
          · rw [if_neg hterminated]
            rw [Bool.not_eq_true] at hterminated
            have hgovernsNode : GuideState.governs config { st with matcher := accepted.2 } =
                true := by
              rw [GuideState.governs, hopen, hterminated]
              rfl
            have hfill := Visited.fillRow hlawful hmoved hbuilt hnode rfl hgovernsNode
            have hbelow := Visited.children { st with matcher := accepted.2 } hlinks hbuilt
              hfill.matcher hfill.sound
              (fun _ => hfill.complete node rfl _ _ hnode hgovernsNode)
              (fun child hchild before hbefore hbeforeSound hbeforeFlag =>
                ih hchild (hless child hchild) hnode hterminated hbefore hbeforeSound hbeforeFlag)
            have hwalk := hfill.trans hbelow hsplit
            rw [hopen] at hwalk
            exact ⟨by rw [hwalk.matcher, hback, hmatcher], hwalk.sound, hwalk.any, hwalk.flags,
              hwalk.outside, hwalk.complete⟩
        · rw [if_neg haccepts]
          rw [if_neg (by
            intro hboth
            exact haccepts hboth.2)] at hfollow
          exact Visited.refl hsound (hrefused hfollow)

end Visit

/-! ## The slots of a batch -/

/-- The descending pass links each node to its parent. -/
theorem linkNodes_linked {parentOf : Nat → Int} {count : Nat} (node : Nat) :
    ∀ {links : SiblingLinks}, node < count → links.Linked parentOf count (node + 1) →
      (∀ other, 0 < other → other ≤ node → parentOf other < other) →
        ∃ links', linkNodes parentOf node links = .ok links' ∧ links'.Linked parentOf count 1 := by
  induction node with
  | zero =>
    intro links _ hlinked _
    exact ⟨links, rfl, hlinked⟩
  | succ node ih =>
    intro links hnode hlinked hordered
    have hrest : ∀ other, 0 < other → other ≤ node → parentOf other < other :=
      fun other hpos hle => hordered other hpos (Nat.le_succ_of_le hle)
    rw [linkNodes]
    by_cases hnone : parentOf (node + 1) < 0
    · rw [if_pos hnone]
      exact ih (Nat.lt_of_succ_lt hnode) (hlinked.skip hnode hnone) hrest
    · have hparent := hordered (node + 1) (Nat.succ_pos node) (Nat.le_refl _)
      rw [if_neg hnone, if_pos hparent]
      exact ih (Nat.lt_of_succ_lt hnode) (hlinked.push hnode (by omega)) hrest

/-- No node was built without a parent before it. -/
def SlotTree.Ordered (tree : SlotTree) : Prop :=
  ∀ node, 0 < node → node < tree.nodeCount → tree.parentOf node < node

variable {node rowsPerSlot : Nat} {config : GuideConfig Matcher}
variable (topology : DraftTopology)

theorem SlotTree.Ordered.lt {tree : SlotTree} (h : tree.Ordered) {parent : Nat}
    (hedge : tree.Edge parent node) : parent < node := by
  have hlt := h node hedge.pos hedge.built
  rw [hedge.parentOf] at hlt
  omega

theorem SlotTree.At.stays_terminated {tree : SlotTree} {start st : GuideState Matcher}
    {path : List Token} (h : tree.At config start node path st)
    (hterminated : config.api.isTerminated start.matcher = true) :
    config.api.isTerminated st.matcher = true := by
  induction h with
  | root => exact hterminated
  | @child parent node path st st' at' edge follow ih =>
    by_cases hopen : st.reasoningEnded = false
    · rw [follow_open hopen, Option.some.injEq] at follow
      rw [← follow]
      exact ih
    · rw [Bool.not_eq_false] at hopen
      rw [follow_terminated hopen ih, Option.some.injEq] at follow
      rw [← follow]
      exact ih

/-- The masks of the rows of a slot: none where it is suppressed or has no grammar. -/
def SlotMasks (config : GuideConfig Matcher) (tree : SlotTree) (rowsPerSlot : Nat)
    (suppressed reasoningEnded : Bool) (matcher : Option Matcher)
    (mask : Nat → Option BitmaskRow) : Prop :=
  match matcher with
  | none => ∀ node, node < rowsPerSlot → mask node = none
  | some matcher =>
    if suppressed then ∀ node, node < rowsPerSlot → mask node = none
    else ∀ node path st, node < tree.nodeCount →
      tree.At config ⟨matcher, reasoningEnded⟩ node path st → st.Masks config (mask node)

/-- The mask of a row on the host. -/
def GuidedDecoder.hostMask (decoder : GuidedDecoder Matcher) (row : Nat) : Option BitmaskRow :=
  if decoder.hostRowNeedsMask row then some (decoder.hostBitmask row) else none

/-- After the walk over a tree, its rows have their masks. -/
theorem walkTree_spec {config : GuideConfig Matcher} {tree : SlotTree} {links : SiblingLinks}
    {matcher : Matcher} {rootReasoningEnded : Bool} {w : Walk Matcher}
    (hlawful : config.api.Lawful config.vocab.outputVocabSize)
    (hlive : config.api.Live config.vocab.outputVocabSize matcher)
    (hlinks : links.Linked tree.parentOf tree.nodeCount 1) (hordered : tree.Ordered)
    (hpos : 0 < tree.nodeCount) (hrunning : config.api.isTerminated matcher = false)
    (hmatcher : w.matcher = matcher)
    (hclear : ∀ node, node < tree.nodeCount → w.rowNeedsMask (tree.base + node) = false) :
    ∃ w' rest, walkTree config tree links rootReasoningEnded w = (some w', rest) ∧
      Visited config tree ⟨matcher, rootReasoningEnded⟩ (tree.Below 0) w w' := by
  have hsound : w.Sound config tree ⟨matcher, rootReasoningEnded⟩ := by
    intro node hnode hflag
    rw [hclear node hnode] at hflag
    cases hflag
  have hroot : tree.At config ⟨matcher, rootReasoningEnded⟩ 0 [] ⟨matcher, rootReasoningEnded⟩ :=
    .root
  have hchildren : ∀ before : Walk Matcher, before.matcher = matcher →
      before.Sound config tree ⟨matcher, rootReasoningEnded⟩ →
        (rootReasoningEnded = true → before.rowNeedsMask (tree.base + 0) = true) →
          Visited config tree ⟨matcher, rootReasoningEnded⟩
            (fun other => ∃ child, tree.Edge 0 child ∧ tree.Below child other) before
            ((links.children tree.nodeCount 0).foldl
              (fun w child => visit config tree links tree.nodeCount child rootReasoningEnded w)
              before) := by
    intro before hbefore hbeforeSound hflag
    apply Visited.children ⟨matcher, rootReasoningEnded⟩ hlinks hpos hbefore hbeforeSound hflag
    intro child hedge next hnext hnextSound hnextFlag
    exact visit_spec hlawful hlive hlinks (fun _ _ => hordered.lt) tree.nodeCount hedge
      (Nat.sub_le _ _) hroot hrunning hnext hnextSound hnextFlag
  rw [walkTree]
  cases rootReasoningEnded with
  | false =>
    refine ⟨_, _, rfl, ?_⟩
    apply (Visited.refl hsound ?_).trans (hchildren w hmatcher hsound
      (fun hended => by cases hended)) fun other hbelow => hbelow.head
    intro other hother path st hat
    cases hother
    rw [(hat.unique hroot).2]
    rfl
  | true =>
    have hhas := @row_of_live _ config ⟨matcher, true⟩ matcher hlawful hlive .start hrunning
    have hgoverns : GuideState.governs config ⟨matcher, true⟩ = true := by
      rw [GuideState.governs, hrunning]
      rfl
    have hfill := Visited.fillRow hlawful hsound hpos hroot hmatcher hgoverns
    rw [if_pos rfl, hmatcher]
    dsimp only
    rw [if_pos hhas]
    refine ⟨_, _, rfl, ?_⟩
    exact hfill.trans (hchildren _ (hfill.matcher.trans hmatcher) hfill.sound
      (fun _ => hfill.complete 0 rfl _ _ hroot hgoverns)) fun other hbelow => hbelow.head

/-- What the loop body does for one slot. -/
structure SlotFilled (topology : DraftTopology) (rowsPerSlot : Nat)
    (slotSuppressed reasoningEndedPerSlot : List Bool) (slot : Nat)
    (before after : FillState Matcher) : Prop where
  config : after.decoder.config = before.decoder.config
  matchers : after.decoder.matchers = before.decoder.matchers
  satisfiable : after.unsatisfiableSlots = before.unsatisfiableSlots
  any : before.anyRowNeedsMask = true → after.anyRowNeedsMask = true
  outside : ∀ row, row < slot * rowsPerSlot ∨ slot * rowsPerSlot + rowsPerSlot ≤ row →
    after.decoder.hostRowNeedsMask row = before.decoder.hostRowNeedsMask row ∧
      after.decoder.hostBitmask row = before.decoder.hostBitmask row
  flagged : ∀ node, node < rowsPerSlot →
    after.decoder.hostRowNeedsMask (slot * rowsPerSlot + node) = true →
      after.anyRowNeedsMask = true
  masks : SlotMasks before.decoder.config (topology.tree rowsPerSlot slot) rowsPerSlot
    (slotSuppressed.getD slot false) (reasoningEndedPerSlot.getD slot false)
    (before.decoder.matcher? slot)
    fun node => after.decoder.hostMask (slot * rowsPerSlot + node)

theorem nodeCount_le (rowsPerSlot slot : Nat) :
    topology.nodeCount rowsPerSlot slot ≤ rowsPerSlot := by
  rw [DraftTopology.nodeCount]
  split
  · exact Nat.le_refl _
  · omega

theorem fillSlot_spec (rowsPerSlot : Nat) (slotSuppressed reasoningEndedPerSlot : List Bool)
    (fill : FillState Matcher) (slot : Nat)
    (hlawful : fill.decoder.config.api.Lawful fill.decoder.config.vocab.outputVocabSize)
    (hlive : ∀ matcher, fill.decoder.matcher? slot = some matcher →
      fill.decoder.config.api.Live fill.decoder.config.vocab.outputVocabSize matcher)
    (hordered : (topology.tree rowsPerSlot slot).Ordered) :
    ∃ after, fillSlot topology rowsPerSlot slotSuppressed reasoningEndedPerSlot fill slot =
        .ok after ∧
      SlotFilled topology rowsPerSlot slotSuppressed reasoningEndedPerSlot slot fill after := by
  rw [fillSlot]
  dsimp only
  set tree := topology.tree rowsPerSlot slot with htree
  set cleared := fill.decoder.clearRows tree.base rowsPerSlot with hcl
  have hbase : tree.base = slot * rowsPerSlot := rfl
  have hclear : ∀ node, node < rowsPerSlot →
      cleared.hostRowNeedsMask (slot * rowsPerSlot + node) = false := by
    intro node hnode
    rw [hcl, GuidedDecoder.clearRows]
    exact if_pos (by omega)
  have hkept : ∀ row, row < slot * rowsPerSlot ∨ slot * rowsPerSlot + rowsPerSlot ≤ row →
      cleared.hostRowNeedsMask row = fill.decoder.hostRowNeedsMask row := by
    intro row hrow
    rw [hcl, GuidedDecoder.clearRows]
    exact if_neg (by omega)
  have hcleared : ∀ node, node < rowsPerSlot →
      cleared.hostMask (slot * rowsPerSlot + node) = none := by
    intro node hnode
    rw [GuidedDecoder.hostMask, hclear node hnode]
    rfl
  -- the slots that are skipped have cleared flags
  have hskipped : SlotMasks fill.decoder.config tree rowsPerSlot
        (slotSuppressed.getD slot false) (reasoningEndedPerSlot.getD slot false)
        (fill.decoder.matcher? slot)
        (fun node => cleared.hostMask (slot * rowsPerSlot + node)) →
      SlotFilled topology rowsPerSlot slotSuppressed reasoningEndedPerSlot slot fill
        { fill with decoder := cleared } := by
    intro hmasks
    refine ⟨rfl, rfl, rfl, id, fun row hrow => ⟨hkept row hrow, rfl⟩, ?_, hmasks⟩
    intro node hnode hflag
    rw [hclear node hnode] at hflag
    cases hflag
  have hcount := nodeCount_le topology rowsPerSlot slot
  have hsame : cleared.matcher? slot = fill.decoder.matcher? slot := rfl
  rw [hsame]
  cases hmatcher : fill.decoder.matcher? slot with
  | none =>
    rw [hmatcher] at hskipped
    exact ⟨_, rfl, hskipped hcleared⟩
  | some matcher =>
    rw [hmatcher] at hskipped
    dsimp only
    split
    · rename_i hskip
      refine ⟨_, rfl, hskipped ?_⟩
      rw [SlotMasks]
      split
      · exact hcleared
      · rename_i hlivingSlot
        rw [Bool.not_eq_true] at hlivingSlot
        rw [hlivingSlot, Bool.false_or] at hskip
        intro node path st hnode hat
        rw [hcleared node (Nat.lt_of_lt_of_le hnode hcount)]
        show st.governs fill.decoder.config = false
        rw [GuideState.governs, hat.stays_terminated hskip, Bool.not_true, Bool.and_false]
    · rename_i hwalk
      rw [Bool.not_eq_true, Bool.or_eq_false_iff] at hwalk
      split
      · rename_i hempty
        refine ⟨_, rfl, hskipped ?_⟩
        rw [SlotMasks, if_neg (by rw [hwalk.1]; exact Bool.false_ne_true)]
        intro node path st hnode _
        rw [hempty] at hnode
        cases hnode
      · rename_i hnonempty
        have hpos : 0 < tree.nodeCount := Nat.pos_of_ne_zero hnonempty
        have hstart : SiblingLinks.Linked ⟨fun _ => -1, fun _ => -1⟩ tree.parentOf tree.nodeCount
            tree.nodeCount :=
          SiblingLinks.linked_start fun _ _ => Int.negSucc_lt_zero 0
        obtain ⟨links, hlink, hlinked⟩ := linkNodes_linked (tree.nodeCount - 1)
          (Nat.sub_lt hpos Nat.one_pos) (by rw [Nat.sub_add_cancel hpos]; exact hstart)
          (fun other hother hle => hordered other hother (by omega))
        rw [hlink]
        dsimp only
        obtain ⟨w, rest, hvisit, hvisited⟩ := @walkTree_spec _ fill.decoder.config tree links
          matcher (reasoningEndedPerSlot.getD slot false)
          { matcher := matcher
            hostBitmask := cleared.hostBitmask
            rowNeedsMask := cleared.hostRowNeedsMask
            anyRowNeedsMask := fill.anyRowNeedsMask
            warnedUnmappable := cleared.warnedUnmappable.getD slot false }
          hlawful (hlive matcher hmatcher) hlinked hordered hpos hwalk.2 rfl
          (fun node hnode => hclear node (Nat.lt_of_lt_of_le hnode hcount))
        have hconfig : cleared.config = fill.decoder.config := rfl
        rw [hconfig, hvisit]
        refine ⟨_, rfl, ?_⟩
        have hunflagged : ∀ node, node < rowsPerSlot → tree.nodeCount ≤ node →
            w.rowNeedsMask (slot * rowsPerSlot + node) = false := by
          intro node hnode hbeyond
          have hout := (hvisited.outside (slot * rowsPerSlot + node) (Or.inr
            (Nat.add_le_add_left hbeyond _))).1
          rw [hout]
          exact hclear node hnode
        refine ⟨rfl, ?_, rfl, hvisited.any, ?_, ?_, ?_⟩
        · show fill.decoder.matchers.set slot (some w.matcher) = fill.decoder.matchers
          rw [hvisited.matcher]
          have hget : fill.decoder.matchers[slot]? = some (some matcher) :=
            Option.join_eq_some_iff.1 hmatcher
          obtain ⟨hin, helem⟩ := List.getElem?_eq_some_iff.1 hget
          rw [← helem]
          exact List.set_getElem_self hin
        · intro row hrow
          have hout : row < tree.base ∨ tree.base + tree.nodeCount ≤ row := by
            rcases hrow with hbefore | hbehind
            · exact Or.inl hbefore
            · exact Or.inr (Nat.le_trans (Nat.add_le_add_left hcount _) hbehind)
          obtain ⟨hflags, hrows⟩ := hvisited.outside row hout
          exact ⟨hflags.trans (hkept row hrow), hrows⟩
        · intro node hnode hflag
          by_cases hbuilt : node < tree.nodeCount
          · exact (hvisited.sound node hbuilt hflag).1
          · have hoff := hunflagged node hnode (Nat.le_of_not_lt hbuilt)
            exact absurd (hflag.symm.trans hoff) Bool.noConfusion
        · rw [hmatcher, SlotMasks, if_neg (by rw [hwalk.1]; exact Bool.false_ne_true)]
          intro node path st hnode hat
          show st.Masks fill.decoder.config (if w.rowNeedsMask (slot * rowsPerSlot + node) = true
            then some (w.hostBitmask (slot * rowsPerSlot + node)) else none)
          split
          · rename_i hflag
            obtain ⟨_, path', st', hat', hmasks⟩ := hvisited.sound node hnode hflag
            rw [(hat.unique hat').2]
            exact hmasks
          · rename_i hoff
            show st.governs fill.decoder.config = false
            rw [← Bool.not_eq_true]
            intro hgoverns
            apply hoff
            have hbelow : ∀ {other : Nat} {p : List Token} {s : GuideState Matcher},
                tree.At fill.decoder.config ⟨matcher, reasoningEndedPerSlot.getD slot false⟩
                  other p s → tree.Below 0 other := by
              intro other p s h
              induction h with
              | root => exact .top
              | child _ edge _ ih => exact .child ih edge
            exact hvisited.complete node (hbelow hat) path st hat hgoverns

/-! ## The batch -/

theorem SlotMasks.congr {tree : SlotTree} {suppressed reasoningEnded : Bool}
    {matcher : Option Matcher} {mask mask' : Nat → Option BitmaskRow}
    (hcount : tree.nodeCount ≤ rowsPerSlot)
    (hmask : ∀ node, node < rowsPerSlot → mask' node = mask node)
    (h : SlotMasks config tree rowsPerSlot suppressed reasoningEnded matcher mask) :
    SlotMasks config tree rowsPerSlot suppressed reasoningEnded matcher mask' := by
  have hnone : (∀ node, node < rowsPerSlot → mask node = none) →
      ∀ node, node < rowsPerSlot → mask' node = none :=
    fun hall node hnode => (hmask node hnode).trans (hall node hnode)
  cases matcher with
  | none => exact hnone h
  | some matcher =>
    rw [SlotMasks] at h ⊢
    split
    · rename_i hsuppressed
      rw [if_pos hsuppressed] at h
      exact hnone h
    · rename_i hsuppressed
      rw [if_neg hsuppressed] at h
      intro node path st hnode hat
      rw [hmask node (Nat.lt_of_lt_of_le hnode hcount)]
      exact h node path st hnode hat

theorem rows_disjoint {slot other : Nat} (hne : slot ≠ other) (hnode : node < rowsPerSlot) :
    slot * rowsPerSlot + node < other * rowsPerSlot ∨
      other * rowsPerSlot + rowsPerSlot ≤ slot * rowsPerSlot + node := by
  rcases Nat.lt_or_gt_of_ne hne with hlt | hgt
  · have hmul := Nat.mul_le_mul_right rowsPerSlot hlt
    rw [Nat.succ_mul] at hmul
    omega
  · have hmul := Nat.mul_le_mul_right rowsPerSlot hgt
    rw [Nat.succ_mul] at hmul
    omega

theorem fillSlots_spec (rowsPerSlot : Nat) (slotSuppressed reasoningEndedPerSlot : List Bool)
    (slots : List Nat) : ∀ fill : FillState Matcher, slots.Nodup →
      fill.decoder.config.api.Lawful fill.decoder.config.vocab.outputVocabSize →
      (∀ slot matcher, fill.decoder.matcher? slot = some matcher →
        fill.decoder.config.api.Live fill.decoder.config.vocab.outputVocabSize matcher) →
      (∀ slot ∈ slots, (topology.tree rowsPerSlot slot).Ordered) →
        ∃ after, fillSlots topology rowsPerSlot slotSuppressed reasoningEndedPerSlot slots fill =
            .ok after ∧ after.decoder.config = fill.decoder.config ∧
          after.decoder.matchers = fill.decoder.matchers ∧
          after.unsatisfiableSlots = fill.unsatisfiableSlots ∧
          (fill.anyRowNeedsMask = true → after.anyRowNeedsMask = true) ∧
          (∀ slot, slot ∉ slots → ∀ node, node < rowsPerSlot →
            after.decoder.hostRowNeedsMask (slot * rowsPerSlot + node) =
                fill.decoder.hostRowNeedsMask (slot * rowsPerSlot + node) ∧
              after.decoder.hostBitmask (slot * rowsPerSlot + node) =
                fill.decoder.hostBitmask (slot * rowsPerSlot + node)) ∧ ∀ slot ∈ slots,
            (∀ node, node < rowsPerSlot →
              after.decoder.hostRowNeedsMask (slot * rowsPerSlot + node) = true →
                after.anyRowNeedsMask = true) ∧
            SlotMasks fill.decoder.config (topology.tree rowsPerSlot slot) rowsPerSlot
              (slotSuppressed.getD slot false) (reasoningEndedPerSlot.getD slot false)
              (fill.decoder.matcher? slot)
              fun node => after.decoder.hostMask (slot * rowsPerSlot + node) := by
  induction slots with
  | nil =>
    intro fill _ _ _ _
    exact ⟨fill, rfl, rfl, rfl, rfl, id, fun _ _ _ _ => ⟨rfl, rfl⟩, fun slot hmem => by cases hmem⟩
  | cons slot rest ih =>
    intro fill hnodup hlawful hlive hordered
    rw [List.nodup_cons] at hnodup
    obtain ⟨mid, hfill, hfilled⟩ := fillSlot_spec topology rowsPerSlot slotSuppressed
      reasoningEndedPerSlot fill slot hlawful (hlive slot) (hordered slot List.mem_cons_self)
    have hmatcher : ∀ other, mid.decoder.matcher? other = fill.decoder.matcher? other := by
      intro other
      rw [GuidedDecoder.matcher?, GuidedDecoder.matcher?, hfilled.matchers]
    have hmidLive : ∀ other matcher, mid.decoder.matcher? other = some matcher →
        mid.decoder.config.api.Live mid.decoder.config.vocab.outputVocabSize matcher := by
      intro other matcher hget
      rw [hfilled.config]
      rw [hmatcher] at hget
      exact hlive other matcher hget
    obtain ⟨after, hrest, hconfig, hmatchers, hunsat, hany, houtside, hslots⟩ :=
      ih mid hnodup.2 (hfilled.config ▸ hlawful) hmidLive
        (fun other hmem => hordered other (List.mem_cons_of_mem _ hmem))
    refine ⟨after, ?_, hconfig.trans hfilled.config, hmatchers.trans hfilled.matchers,
      hunsat.trans hfilled.satisfiable, fun h => hany (hfilled.any h), ?_, ?_⟩
    · rw [fillSlots, hfill]
      exact hrest
    · intro other hother node hnode
      rw [List.mem_cons, not_or] at hother
      obtain ⟨hflags, hrows⟩ := houtside other hother.2 node hnode
      obtain ⟨hflags', hrows'⟩ := hfilled.outside (other * rowsPerSlot + node)
        (rows_disjoint hother.1 hnode)
      exact ⟨hflags.trans hflags', hrows.trans hrows'⟩
    · intro other hmem
      rw [List.mem_cons] at hmem
      rcases hmem with hsame | hin
      · rw [hsame]
        constructor
        · intro node hnode hflag
          rw [(houtside slot hnodup.1 node hnode).1] at hflag
          exact hany (hfilled.flagged node hnode hflag)
        · apply hfilled.masks.congr (nodeCount_le _ _ _)
          intro node hnode
          obtain ⟨hflags, hrows⟩ := houtside slot hnodup.1 node hnode
          rw [GuidedDecoder.hostMask, GuidedDecoder.hostMask, hflags, hrows]
      · have hother := hslots other hin
        rw [hfilled.config, hmatcher] at hother
        exact hother

/-- The nodes that sampling can reach from the root, with the tokens on the way. -/
inductive Sampled (config : GuideConfig Matcher) (tree : SlotTree)
    (mask : Nat → Option BitmaskRow) : Nat → List Token → Prop
  | root : Sampled config tree mask 0 []
  | child {parent node : Nat} {path : List Token} (sampled : Sampled config tree mask parent path)
      (edge : tree.Edge parent node) (allows : Allows config (mask parent) (tree.token node)) :
      Sampled config tree mask node (path ++ [tree.token node])

/-- A node that sampling can reach has a state, and its mask is the mask of this state. -/
theorem Sampled.at {tree : SlotTree} {start : GuideState Matcher} {mask : Nat → Option BitmaskRow}
    (hpos : 0 < tree.nodeCount)
    (hmasks : ∀ node path st, node < tree.nodeCount → tree.At config start node path st →
      st.Masks config (mask node)) {path : List Token} (h : Sampled config tree mask node path) :
    ∃ st, tree.At config start node path st ∧ st.Masks config (mask node) := by
  induction h with
  | root => exact ⟨start, .root, hmasks 0 [] start hpos .root⟩
  | child sampled edge allows ih =>
    obtain ⟨st, hat, hmask⟩ := ih
    obtain ⟨st', hfollow⟩ := follow_of_allows hmask allows
    have hnext := hat.child edge hfollow
    exact ⟨st', hnext, hmasks _ _ st' edge.built hnext⟩

section Batch

variable {decoder : GuidedDecoder Matcher} {activeBatchSize rowsPerSlot : Nat}
variable {topology : DraftTopology} (slotSuppressed reasoningEndedPerSlot : List Bool)
variable (hrows : activeBatchSize * rowsPerSlot ≤ decoder.maxRows)
variable (hlawful : decoder.config.api.Lawful decoder.config.vocab.outputVocabSize)
variable (hlive : ∀ slot matcher, decoder.matcher? slot = some matcher →
  decoder.config.api.Live decoder.config.vocab.outputVocabSize matcher)
variable (hordered : ∀ slot, slot < activeBatchSize → (topology.tree rowsPerSlot slot).Ordered)

include hrows hlawful hlive hordered

/-- The masks that are uploaded for the slots of a batch. -/
theorem fillMasksForDraftTree_spec :
    ∃ after, decoder.fillMasksForDraftTree activeBatchSize rowsPerSlot topology slotSuppressed
        reasoningEndedPerSlot = .ok (after, []) ∧
      after.config = decoder.config ∧ after.matchers = decoder.matchers ∧
      ∀ slot, slot < activeBatchSize → 0 < rowsPerSlot →
        SlotMasks decoder.config (topology.tree rowsPerSlot slot) rowsPerSlot
          (slotSuppressed.getD slot false) (reasoningEndedPerSlot.getD slot false)
          (decoder.matcher? slot) fun node => after.mask (slot * rowsPerSlot + node) := by
  rw [GuidedDecoder.fillMasksForDraftTree]
  split
  · rename_i hempty
    refine ⟨decoder, rfl, rfl, rfl, ?_⟩
    intro slot hslot hpos
    omega
  · obtain ⟨fill, hfill, hconfig, hmatchers, hunsat, _, _, hslots⟩ := fillSlots_spec topology
      rowsPerSlot slotSuppressed reasoningEndedPerSlot (List.range activeBatchSize)
      { decoder := decoder } List.nodup_range hlawful hlive
      (fun slot hmem => hordered slot (List.mem_range.1 hmem))
    rw [hfill]
    dsimp only
    rw [hunsat]
    refine ⟨_, rfl, hconfig, hmatchers, ?_⟩
    intro slot hslot _
    obtain ⟨hflagged, hmasks⟩ := hslots slot (List.mem_range.2 hslot)
    apply hmasks.congr (nodeCount_le _ _ _)
    intro node hnode
    have hrow : slot * rowsPerSlot + node < activeBatchSize * rowsPerSlot := by
      have hmul := Nat.mul_le_mul_right rowsPerSlot (Nat.succ_le_of_lt hslot)
      rw [Nat.succ_mul] at hmul
      omega
    have huploaded : (fill.decoder.upload (activeBatchSize * rowsPerSlot)
        fill.anyRowNeedsMask).deviceRowNeedsMask (slot * rowsPerSlot + node) =
          fill.decoder.hostRowNeedsMask (slot * rowsPerSlot + node) := if_pos hrow
    rw [GuidedDecoder.mask, GuidedDecoder.hostMask, huploaded]
    split
    · rename_i hflag
      have hany := hflagged node hnode hflag
      have hbits : (fill.decoder.upload (activeBatchSize * rowsPerSlot)
          fill.anyRowNeedsMask).deviceBitmask (slot * rowsPerSlot + node) =
            fill.decoder.hostBitmask (slot * rowsPerSlot + node) :=
        if_pos (by rw [hany, decide_eq_true hrow]; rfl)
      rw [hbits]
    · rfl

/-- After `fillMasksForDraftTree` every matcher is where it was, a finished slot has no
mask, and in the other slots each node that sampling can reach has the mask of the path to
it.  `advanceCommitted` takes each path that was sampled so, and a token sampled after it. -/
theorem fillMasksForDraftTree_masks :
    ∃ after, decoder.fillMasksForDraftTree activeBatchSize rowsPerSlot topology slotSuppressed
        reasoningEndedPerSlot = .ok (after, []) ∧
      after.matchers = decoder.matchers ∧
      ∀ slot, slot < activeBatchSize → ∀ matcher, decoder.matcher? slot = some matcher →
        (slotSuppressed.getD slot false = true → ∀ node, node < rowsPerSlot →
          after.mask (slot * rowsPerSlot + node) = none) ∧
        (slotSuppressed.getD slot false = false → ∀ node path,
          node < (topology.tree rowsPerSlot slot).nodeCount →
            Sampled decoder.config (topology.tree rowsPerSlot slot)
              (fun node => after.mask (slot * rowsPerSlot + node)) node path →
          (∃ st, GuideState.followPath decoder.config
              ⟨matcher, reasoningEndedPerSlot.getD slot false⟩ path = some st ∧
            st.Masks decoder.config (after.mask (slot * rowsPerSlot + node))) ∧
          ∀ tokens, (tokens = path ∨ ∃ fullId, tokens = path ++ [fullId] ∧
              Allows decoder.config (after.mask (slot * rowsPerSlot + node)) fullId) →
            ∃ st, GuideState.followPath decoder.config
                ⟨matcher, reasoningEndedPerSlot.getD slot false⟩ tokens = some st ∧
              after.advanceCommitted slot tokens (reasoningEndedPerSlot.getD slot false) =
                (true, { after with matchers := after.matchers.set slot (some st.matcher) },
                  st.reasoningEnded)) := by
  obtain ⟨after, hfill, hconfig, hmatchers, hslots⟩ := fillMasksForDraftTree_spec slotSuppressed
    reasoningEndedPerSlot hrows hlawful hlive hordered
  refine ⟨after, hfill, hmatchers, ?_⟩
  intro slot hslot matcher hmatcher
  constructor
  · intro hsuppressed node hnode
    have hmasks := hslots slot hslot (by omega)
    rw [hmatcher, SlotMasks, if_pos hsuppressed] at hmasks
    exact hmasks node hnode
  · intro hliving node path hnode hsampled
    have hcount := nodeCount_le topology rowsPerSlot slot
    have hbound : node < topology.nodeCount rowsPerSlot slot := hnode
    have hmasks := hslots slot hslot (by omega)
    rw [hmatcher, SlotMasks, if_neg (by rw [hliving]; exact Bool.false_ne_true)] at hmasks
    obtain ⟨st, hat, hmask⟩ := hsampled.at (Nat.lt_of_le_of_lt (Nat.zero_le _) hnode) hmasks
    refine ⟨⟨st, hat.followPath, hmask⟩, ?_⟩
    have hcommitted : ∀ tokens st', GuideState.followPath decoder.config
        ⟨matcher, reasoningEndedPerSlot.getD slot false⟩ tokens = some st' →
          after.advanceCommitted slot tokens (reasoningEndedPerSlot.getD slot false) =
            (true, { after with matchers := after.matchers.set slot (some st'.matcher) },
              st'.reasoningEnded) := by
      intro tokens st' hpath
      have hafter : after.matcher? slot = some matcher := by
        rw [GuidedDecoder.matcher?, hmatchers]
        exact hmatcher
      rw [GuidedDecoder.advanceCommitted, hafter]
      dsimp only
      rw [hconfig, advanceTokens_of_followPath tokens hpath]
    intro tokens htokens
    rcases htokens with hsame | hmore
    · rw [hsame]
      exact ⟨st, hat.followPath, hcommitted path st hat.followPath⟩
    · obtain ⟨fullId, rfl, hallows⟩ := hmore
      obtain ⟨st', hfollow⟩ := follow_of_allows hmask hallows
      have hpath : GuideState.followPath decoder.config
          ⟨matcher, reasoningEndedPerSlot.getD slot false⟩ (path ++ [fullId]) = some st' := by
        have hbegins := hat.followPath
        rw [GuideState.followPath] at hbegins ⊢
        rw [List.foldlM_append, hbegins]
        exact congrArg (fun o => o.bind some) hfollow
      exact ⟨st', hpath, hcommitted _ _ hpath⟩

end Batch

/-! ## A small matcher -/

/-- A matcher that accepts token zero only, and counts. -/
def countingApi : MatcherApi Nat where
  acceptToken := fun m t => if t = 0 then (true, m + 1) else (false, m)
  rollback := fun m => m - 1
  isTerminated := fun _ => false
  fillNextTokenBitmask := fun _ => [1]

theorem countingApi_lawful : countingApi.Lawful 2 where
  rejected := by
    intro m t h
    rw [countingApi] at h ⊢
    dsimp only at h ⊢
    split at h
    · cases h
    · rename_i hne
      rw [if_neg hne]
  rollback_accepted := by
    intro m t h
    rw [countingApi] at h ⊢
    dsimp only at h ⊢
    split at h
    · rename_i hzero
      rw [if_pos hzero]
      rfl
    · cases h
  fill := by
    intro m t _ ht
    have hcases : t = 0 ∨ t = 1 := by omega
    rcases hcases with hzero | hone
    · rw [hzero]
      show rowAllows [1] 0 = true
      decide
    · rw [hone]
      show rowAllows [1] 1 = false
      decide

/-- A decoder with this matcher in its only slot. -/
def countingDecoder (rowsPerSlot : Nat) : GuidedDecoder Nat where
  config := { api := countingApi, vocab := .full 2 }
  maxRows := rowsPerSlot
  matchers := [some 0]

theorem fillMasksForDraftTree_masks_chain :
    ∃ after, (countingDecoder 3).fillMasksForDraftTree 1 3
        { draftTokensFullSpace := fun _ => 0 } [false] [true] = .ok (after, []) ∧
      after.matchers = (countingDecoder 3).matchers := by
  obtain ⟨after, hfill, hmatchers, _⟩ := @fillMasksForDraftTree_masks _ (countingDecoder 3) 1 3
    { draftTokensFullSpace := fun _ => 0 } [false] [true] (Nat.le_refl _) countingApi_lawful
    (fun _ _ _ _ _ _ => ⟨0, by decide, rfl⟩)
    (fun slot _ node hpos _ => by
      show (node : Int) - 1 < node
      omega)
  exact ⟨after, hfill, hmatchers⟩

/-- The slot of a finished request: its row has no mask, although the grammar refuses a
token. -/
theorem finished_slot_unmasked :
    ((countingDecoder 1).fillMasksForDraftTree 1 1 { draftTokensFullSpace := fun _ => 0 }
        [true] [true]).toOption.map (fun out => out.1.mask 0) = some none ∧
      GuideState.governs (countingDecoder 1).config ⟨0, true⟩ = true ∧
      (countingApi.acceptToken 0 1).1 = false := by
  decide +kernel

end EdgeLLM.Ports.Generation
