/-
The tree of a regular expression. The reader builds it, the analysis and the emitter walk it. A tree may also come from
outside, so the type is wider than what the reader returns: a node may be absent, a class member may be any integer, a
repetition may have an operator that nobody knows, and bounds are kept where they mean nothing.
-/

namespace MatcherGen

/-- a position assertion -/
inductive AnchorKind where
  | lineStart
  | lineEnd
  | textStart
  | textEnd
deriving DecidableEq, Repr

/-- the shape of a repetition; `unknown` stands for every other operator -/
inductive RepeatOp where
  | star
  | plus
  | quest
  | exact
  | atLeast
  | between
  | unknown
deriving DecidableEq, Repr

/-- a closed range of code points in a class -/
structure ClassRange where
  lo : Int
  hi : Int
deriving DecidableEq, Repr

/-- a bracketed class: single members and ranges in the order written; they may overlap -/
structure CharClass where
  negated : Bool
  singles : List Int
  ranges : List ClassRange
deriving DecidableEq, Repr

/-- a repetition: `min` and `max` matter for the brace forms only, `greedy` not for `exact` -/
structure Quantity where
  op : RepeatOp
  min : Int64
  max : Int64
  greedy : Bool
deriving DecidableEq, Repr

/-- the switches set by inline flag groups -/
structure Flags where
  fold : Bool
  dotAll : Bool
deriving DecidableEq, Repr

/-- a node of the tree -/
inductive Node where
  | absent
  /-- a concatenation; the empty one matches the empty text -/
  | seq (children : List Node)
  /-- an ordered choice -/
  | alt (arms : List Node)
  | group (inner : Node) (capturing : Bool) (name : List Char)
  /-- `fold` is the switch in force where the literal stood -/
  | lit (text : List Char) (fold : Bool)
  /-- `dotAll` is the switch in force where the dot stood -/
  | dot (dotAll : Bool)
  | anchor (kind : AnchorKind)
  | cls (c : CharClass)
  /-- a shorthand class such as `\d`, by its letter -/
  | esc (letter : Char)
  | rep (atom : Node) (q : Quantity)
  /-- a construct that has no rendering; `message` says which -/
  | stub (message : List Char)
deriving Repr, Inhabited

/-- the name of an anchor in dumps -/
def AnchorKind.label : AnchorKind → String
  | .lineStart => "bol"
  | .lineEnd => "eol"
  | .textStart => "bos"
  | .textEnd => "eos"

/-- the anchor with a given number -/
def AnchorKind.ofCode? (n : Int) : Option AnchorKind :=
  if n = 0 then some .lineStart
  else if n = 1 then some .lineEnd
  else if n = 2 then some .textStart
  else if n = 3 then some .textEnd
  else none

/-- the name of the anchor with a given number; numbers without an anchor have one too -/
def AnchorKind.labelOfCode (n : Int) : String :=
  match AnchorKind.ofCode? n with
  | some k => k.label
  | none => "anchor?"

/-- the name of a repetition operator in dumps -/
def RepeatOp.label : RepeatOp → String
  | .star => "star"
  | .plus => "plus"
  | .quest => "quest"
  | .exact => "exact"
  | .atLeast => "atleast"
  | .between => "between"
  | .unknown => "repeat?"

/-- the repetition operator with a given number -/
def RepeatOp.ofCode (n : Int) : RepeatOp :=
  if n = 0 then .star
  else if n = 1 then .plus
  else if n = 2 then .quest
  else if n = 3 then .exact
  else if n = 4 then .atLeast
  else if n = 5 then .between
  else .unknown

/-- add a single member unless it is there already -/
def CharClass.addSingle (c : CharClass) (n : Int) : CharClass :=
  if n ∈ c.singles then c else { c with singles := c.singles ++ [n] }

/-- add a range at the end -/
def CharClass.addRange (c : CharClass) (lo hi : Int) : CharClass :=
  { c with ranges := c.ranges ++ [⟨lo, hi⟩] }

/-- is the shorthand class the complement form? -/
def isNegatedLetter (letter : Char) : Bool :=
  letter == 'D' || letter == 'W' || letter == 'S'

mutual
/-- the nodes in the order of a walk from the top, a parent before its children; below a node that `descend` refuses
nothing is visited, and absent nodes never are -/
def Node.visit (descend : Node → Bool) : Node → List Node
  | .absent => []
  | .seq children => .seq children :: if descend (.seq children) then Node.visitAll descend children else []
  | .alt arms => .alt arms :: if descend (.alt arms) then Node.visitAll descend arms else []
  | .group inner capturing name =>
    .group inner capturing name :: if descend (.group inner capturing name) then Node.visit descend inner else []
  | .rep atom q => .rep atom q :: if descend (.rep atom q) then Node.visit descend atom else []
  | .lit text fold => [.lit text fold]
  | .dot dotAll => [.dot dotAll]
  | .anchor kind => [.anchor kind]
  | .cls c => [.cls c]
  | .esc letter => [.esc letter]
  | .stub message => [.stub message]

/-- `visit`, one node after the other -/
def Node.visitAll (descend : Node → Bool) : List Node → List Node
  | [] => []
  | n :: r => Node.visit descend n ++ Node.visitAll descend r
end

mutual
/-- the same walk with a state in hand: `act` sees every node with the state so far, and says with which state to go on and
whether to go below the node -/
def Node.walk {σ : Type} (act : σ → Node → σ × Bool) (s : σ) : Node → σ
  | .absent => s
  | .seq children =>
    let r := act s (.seq children)
    if r.2 then Node.walkAll act r.1 children else r.1
  | .alt arms =>
    let r := act s (.alt arms)
    if r.2 then Node.walkAll act r.1 arms else r.1
  | .group inner capturing name =>
    let r := act s (.group inner capturing name)
    if r.2 then Node.walk act r.1 inner else r.1
  | .rep atom q =>
    let r := act s (.rep atom q)
    if r.2 then Node.walk act r.1 atom else r.1
  | .lit text fold => (act s (.lit text fold)).1
  | .dot dotAll => (act s (.dot dotAll)).1
  | .anchor kind => (act s (.anchor kind)).1
  | .cls c => (act s (.cls c)).1
  | .esc letter => (act s (.esc letter)).1
  | .stub message => (act s (.stub message)).1

/-- `walk`, one node after the other -/
def Node.walkAll {σ : Type} (act : σ → Node → σ × Bool) (s : σ) : List Node → σ
  | [] => s
  | n :: r => Node.walkAll act (Node.walk act s n) r
end

/-- every node of the tree, a parent before its children -/
def Node.nodes (n : Node) : List Node := n.visit fun _ => true

theorem Node.visitAll_eq_flatMap (descend : Node → Bool) (l : List Node) :
    Node.visitAll descend l = l.flatMap (Node.visit descend) := by
  induction l with
  | nil => rfl
  | cons x r ih => rw [Node.visitAll, ih, List.flatMap_cons]

@[simp] theorem Node.nodes_seq (l : List Node) : (Node.seq l).nodes = .seq l :: l.flatMap Node.nodes := by
  rw [Node.nodes, Node.visit, if_pos rfl, Node.visitAll_eq_flatMap]
  rfl

@[simp] theorem Node.nodes_alt (l : List Node) : (Node.alt l).nodes = .alt l :: l.flatMap Node.nodes := by
  rw [Node.nodes, Node.visit, if_pos rfl, Node.visitAll_eq_flatMap]
  rfl

@[simp] theorem Node.nodes_group (x : Node) (capturing : Bool) (name : List Char) :
    (Node.group x capturing name).nodes = .group x capturing name :: x.nodes := by
  rw [Node.nodes, Node.visit, if_pos rfl]
  rfl

@[simp] theorem Node.nodes_rep (x : Node) (q : Quantity) : (Node.rep x q).nodes = .rep x q :: x.nodes := by
  rw [Node.nodes, Node.visit, if_pos rfl]
  rfl

theorem Node.nodes_subset_seq {l : List Node} {x : Node} (hx : x ∈ l) : x.nodes ⊆ (Node.seq l).nodes := by
  intro y hy
  rw [Node.nodes_seq]
  exact List.mem_cons_of_mem _ (List.mem_flatMap.2 ⟨x, hx, hy⟩)

theorem Node.nodes_subset_alt {l : List Node} {x : Node} (hx : x ∈ l) : x.nodes ⊆ (Node.alt l).nodes := by
  intro y hy
  rw [Node.nodes_alt]
  exact List.mem_cons_of_mem _ (List.mem_flatMap.2 ⟨x, hx, hy⟩)

end MatcherGen
