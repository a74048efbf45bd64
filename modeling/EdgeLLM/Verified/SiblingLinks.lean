import Mathlib.Data.List.Range

/-!
# First children and next siblings

A forest over the nodes `0, 1, …` as two arrays: the first child of each node and the
next sibling of each node, a negative number where there is none.  The arrays are built
by one descending pass that puts each node in front of its siblings.
-/

namespace EdgeLLM.Verified

/-- The two arrays. -/
structure SiblingLinks where
  firstChild : Nat → Int
  nextSibling : Nat → Int

namespace SiblingLinks

/-- `node`, in front of the children of `parent`. -/
def push (links : SiblingLinks) (parent node : Nat) : SiblingLinks where
  firstChild := Function.update links.firstChild parent node
  nextSibling := Function.update links.nextSibling node (links.firstChild parent)

/-- The siblings from `child` on; the fuel bounds their number. -/
def siblings (nextSibling : Nat → Int) : Nat → Int → List Nat
  | 0, _ => []
  | fuel + 1, child =>
    if child < 0 then []
    else child.toNat :: siblings nextSibling fuel (nextSibling child.toNat)

/-- The children of `node`. -/
def children (links : SiblingLinks) (fuel node : Nat) : List Nat :=
  siblings links.nextSibling fuel (links.firstChild node)

/-- The siblings from `child` on are the nodes of the list. -/
def Lists (nextSibling : Nat → Int) : Int → List Nat → Prop
  | child, [] => child < 0
  | child, node :: rest => child = node ∧ Lists nextSibling (nextSibling node) rest

theorem Lists.siblings_eq {nextSibling : Nat → Int} {nodes : List Nat} :
    ∀ {child : Int} {fuel : Nat}, Lists nextSibling child nodes → nodes.length ≤ fuel →
      siblings nextSibling fuel child = nodes := by
  induction nodes with
  | nil =>
    intro child fuel h _
    cases fuel with
    | zero => rfl
    | succ fuel =>
      have hnone : child < 0 := h
      rw [siblings, if_pos hnone]
  | cons node rest ih =>
    intro child fuel h hfuel
    cases fuel with
    | zero => cases hfuel
    | succ fuel =>
      rw [List.length_cons] at hfuel
      rw [siblings, h.1, if_neg (by omega), Int.toNat_natCast, ih h.2 (by omega)]

/-- A node that is not listed may get another sibling. -/
theorem Lists.update {nextSibling : Nat → Int} {other : Nat} {sibling : Int} {nodes : List Nat} :
    ∀ {child : Int}, Lists nextSibling child nodes → other ∉ nodes →
      Lists (Function.update nextSibling other sibling) child nodes := by
  induction nodes with
  | nil =>
    intro child h _
    exact h
  | cons node rest ih =>
    intro child h hother
    rw [List.mem_cons, not_or] at hother
    refine ⟨h.1, ?_⟩
    rw [Function.update_of_ne (Ne.symm hother.1)]
    exact ih h.2 hother.2

/-- The nodes from `first` to `count` with this parent. -/
def childrenFrom (parentOf : Nat → Int) (count first parent : Nat) : List Nat :=
  (List.range' first (count - first)).filter fun node => decide (parentOf node = parent)

theorem mem_childrenFrom {parentOf : Nat → Int} {count first parent node : Nat} :
    node ∈ childrenFrom parentOf count first parent ↔
      first ≤ node ∧ node < count ∧ parentOf node = parent := by
  rw [childrenFrom, List.mem_filter, List.mem_range'_1, decide_eq_true_eq]
  omega

theorem childrenFrom_succ {parentOf : Nat → Int} {count first : Nat} (hfirst : first < count)
    (parent : Nat) : childrenFrom parentOf count first parent =
      if parentOf first = parent then first :: childrenFrom parentOf count (first + 1) parent
      else childrenFrom parentOf count (first + 1) parent := by
  rw [childrenFrom, show count - first = (count - (first + 1)) + 1 by omega, List.range'_succ,
    List.filter_cons]
  by_cases hparent : parentOf first = parent
  · rw [if_pos (decide_eq_true hparent), if_pos hparent, childrenFrom]
  · rw [if_neg (by rw [decide_eq_true_eq]; exact hparent), if_neg hparent, childrenFrom]

theorem length_childrenFrom (parentOf : Nat → Int) (count first parent : Nat) :
    (childrenFrom parentOf count first parent).length ≤ count := by
  apply Nat.le_trans (List.length_filter_le _ _)
  rw [List.length_range']
  omega

/-- The nodes from `first` on are linked to their parents. -/
def Linked (links : SiblingLinks) (parentOf : Nat → Int) (count first : Nat) : Prop :=
  ∀ parent, parent < count →
    Lists links.nextSibling (links.firstChild parent) (childrenFrom parentOf count first parent)

variable {links : SiblingLinks} {parentOf : Nat → Int} {count first : Nat}

theorem linked_start (h : ∀ parent, parent < count → links.firstChild parent < 0) :
    Linked links parentOf count count := by
  intro parent hparent
  rw [childrenFrom, Nat.sub_self]
  exact h parent hparent

theorem Linked.skip (h : Linked links parentOf count (first + 1)) (hfirst : first < count)
    (hnone : parentOf first < 0) : Linked links parentOf count first := by
  intro parent hparent
  rw [childrenFrom_succ hfirst, if_neg (by omega)]
  exact h parent hparent

theorem Linked.push (h : Linked links parentOf count (first + 1)) (hfirst : first < count)
    {parent : Nat} (hparent : parentOf first = parent) :
    Linked (links.push parent first) parentOf count first := by
  intro other hother
  have hnotin : ∀ p, first ∉ childrenFrom parentOf count (first + 1) p := by
    intro p hin
    have hle := (mem_childrenFrom.1 hin).1
    omega
  rw [childrenFrom_succ hfirst]
  show Lists (Function.update links.nextSibling first (links.firstChild parent))
    (Function.update links.firstChild parent (first : Int) other) _
  by_cases hsame : other = parent
  · rw [hsame, Function.update_self, if_pos hparent]
    refine ⟨rfl, ?_⟩
    rw [Function.update_self]
    exact (h parent (by omega)).update (hnotin parent)
  · rw [Function.update_of_ne hsame, if_neg (by omega)]
    exact (h other hother).update (hnotin other)

/-- The children of a node, once all nodes but the root are linked. -/
theorem Linked.children (h : Linked links parentOf count 1) {node : Nat} (hnode : node < count) :
    links.children count node = childrenFrom parentOf count 1 node :=
  (h node hnode).siblings_eq (length_childrenFrom _ _ _ _)

end SiblingLinks

end EdgeLLM.Verified
