/-
What a walk over a tree collects, and the same for a tree in the making. A walk visits the nodes in the order of the
pattern; what it collects from leaves alone does not depend on how they are grouped. So the parts of a tree in the
making, from the outermost open group to the expression at hand, already hold what a walk over the tree will collect
from them.

Main statements:
- `Node.collect_seq`, `Node.collect_alt`, `Node.collect_group`, `Node.collect_rep`: a node that holds others gives what
  they give;
- `Reader.collect_push`: factors add what they give;
- `Reader.collect_nextArm`, `Reader.collect_openGroup`, `Reader.collect_close`: the boundaries of arms and groups add
  nothing;
- `Reading.root_collect`: so a walk over the tree collects what the reader holds at its end.
-/
import MatcherGen.Proofs.ReaderSteps

namespace MatcherGen

variable {α : Type} {f : Node → Option α}

/-! ## Trees -/

/-- what a walk over the tree collects, in its order -/
def Node.collect (f : Node → Option α) (x : Node) : List α := x.nodes.filterMap f

/-- nothing is collected from a node that holds others -/
structure Node.OnLeaves (f : Node → Option α) : Prop where
  seq : ∀ l, f (.seq l) = none
  alt : ∀ l, f (.alt l) = none
  group : ∀ x capturing name, f (.group x capturing name) = none
  rep : ∀ x q, f (.rep x q) = none

namespace Node

theorem collect_seq (hf : OnLeaves f) (l : List Node) : (Node.seq l).collect f = l.flatMap (collect f) := by
  rw [collect, nodes_seq, List.filterMap_cons, hf.seq, List.filterMap_flatMap]
  rfl

theorem collect_alt (hf : OnLeaves f) (l : List Node) : (Node.alt l).collect f = l.flatMap (collect f) := by
  rw [collect, nodes_alt, List.filterMap_cons, hf.alt, List.filterMap_flatMap]
  rfl

theorem collect_group (hf : OnLeaves f) (x : Node) (capturing : Bool) (name : List Char) :
    (Node.group x capturing name).collect f = x.collect f := by
  rw [collect, nodes_group, List.filterMap_cons, hf.group]
  rfl

theorem collect_rep (hf : OnLeaves f) (x : Node) (q : Quantity) : (Node.rep x q).collect f = x.collect f := by
  rw [collect, nodes_rep, List.filterMap_cons, hf.rep]
  rfl

end Node

/-! ## Trees in the making -/

/-- what a walk collects from an expression in the making -/
def Branches.collect (f : Node → Option α) (b : Branches) : List α := (b.arms ++ b.term).flatMap (Node.collect f)

theorem Branches.collect_node (hf : Node.OnLeaves f) (b : Branches) : b.node.collect f = b.collect f := by
  unfold Branches.node Branches.collect
  split
  · rename_i harms
    rw [Node.collect_seq hf, harms, List.nil_append]
  · rw [Node.collect_alt hf, List.flatMap_append, List.flatMap_append, List.flatMap_singleton, Node.collect_seq hf]

theorem Branches.collect_push (b : Branches) (l : List Node) :
    (b.push l).collect f = b.collect f ++ l.flatMap (Node.collect f) := by
  simp [Branches.push, Branches.collect]

theorem Branches.collect_nextArm (hf : Node.OnLeaves f) (b : Branches) : b.nextArm.collect f = b.collect f := by
  simp [Branches.nextArm, Branches.collect, Node.collect_seq hf]

/-- what a walk collects around the open groups, from the outermost in -/
def openedCollect (f : Node → Option α) (opened : List OpenGroup) : List α :=
  opened.reverse.flatMap fun g => g.outer.collect f

theorem openedCollect_cons (g : OpenGroup) (outer : List OpenGroup) :
    openedCollect f (g :: outer) = openedCollect f outer ++ g.outer.collect f := by
  simp [openedCollect]

namespace Reader

/-- what a walk collects from a tree in the making, in the order of the pattern -/
def collect (f : Node → Option α) (r : Reader) : List α := openedCollect f r.opened ++ r.here.collect f

theorem collect_push (r : Reader) (l : List Node) :
    collect f { r with here := r.here.push l } = r.collect f ++ l.flatMap (Node.collect f) := by
  rw [collect, Branches.collect_push, ← List.append_assoc]
  rfl

theorem collect_nextArm (hf : Node.OnLeaves f) (r : Reader) :
    collect f { r with here := r.here.nextArm } = r.collect f := by
  rw [collect, Branches.collect_nextArm hf]
  rfl

theorem collect_openGroup (r : Reader) (capturing : Bool) (name : List Char) (size : Nat) :
    (r.openGroup capturing name size).collect f = r.collect f :=
  (List.append_nil _).trans (openedCollect_cons _ r.opened)

/-- what is inside a group stays where it is when the group is closed -/
theorem collect_close (hf : Node.OnLeaves f) {r : Reader} {g : OpenGroup} {outer : List OpenGroup}
    (ho : r.opened = g :: outer) :
    collect f { r with opened := outer, here := g.outer } ++ (Node.group r.here.node g.capturing g.name).collect f =
      r.collect f := by
  rw [Node.collect_group hf, Branches.collect_node hf, collect, collect, ho, openedCollect_cons]

/-- **Closing the groups that are still open** adds nothing and moves nothing. -/
theorem collect_closeAll (hf : Node.OnLeaves f) (opened : List OpenGroup) (here : Branches) (remarks : List Diagnostic) :
    (closeAll opened here remarks).1.collect f = openedCollect f opened ++ here.collect f := by
  induction opened generalizing here remarks with
  | nil => rfl
  | cons g outer ih =>
    calc (closeAll (g :: outer) here remarks).1.collect f
        = openedCollect f outer ++ (g.outer.push [.group here.node g.capturing g.name]).collect f := ih _ _
      _ = openedCollect f outer ++ (g.outer.collect f ++ here.collect f) := by
          rw [Branches.collect_push, List.flatMap_singleton, Node.collect_group hf, Branches.collect_node hf]
      _ = openedCollect f (g :: outer) ++ here.collect f := by rw [openedCollect_cons, List.append_assoc]

end Reader

/-- **A walk over the tree collects what the reader holds at its end.** -/
theorem Reading.root_collect (hf : Node.OnLeaves f) (pattern : Text) :
    (Reading.ofPattern pattern).root.collect f =
      ((Reader.start pattern.chars).run pattern.chars.length).collect f :=
  (Branches.collect_node hf _).trans (Reader.collect_closeAll hf _ _ _)

end MatcherGen
