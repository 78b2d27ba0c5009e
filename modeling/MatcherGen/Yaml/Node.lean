/-
Documents as trees. Events are put together one by one: a collection that has started waits on a stack until its end. An
anchor gives its node a number when the node starts, and a reference holds that number, so a reference may stand inside the
node it refers to.
-/
import MatcherGen.Yaml.Event
import MatcherGen.Yaml.Plain

namespace MatcherGen.Yaml

/-- a node, with its tag and the line it starts on, from one -/
inductive Node where
  | scalar (tag : String) (text : List Char) (line : Nat)
  | sequence (tag : String) (items : List Node) (line : Nat)
  | mapping (tag : String) (pairs : List (Node × Node)) (line : Nat)
  /-- the anchor's name and number, and the reference's own number -/
  | reference (name : List Char) (anchor : Nat) (number : Nat) (line : Nat)
deriving Inhabited

namespace Node

/-- the line that a node starts on -/
def line : Node → Nat
  | .scalar _ _ n | .sequence _ _ n | .mapping _ _ n | .reference _ _ _ n => n

/-- the tag of a node; a reference has none -/
def tag : Node → String
  | .scalar t _ _ | .sequence t _ _ | .mapping t _ _ => t
  | .reference _ _ _ _ => ""

/-- the text of a node: a scalar's text or a reference's name -/
def text : Node → List Char
  | .scalar _ s _ => s
  | .reference s _ _ _ => s
  | _ => []

/-- do two keys count as the same: nodes of one form with one text? -/
def sameKey : Node → Node → Bool
  | .scalar _ a _, .scalar _ b _ => a == b
  | .reference a _ _ _, .reference b _ _ _ => a == b
  | .sequence _ _ _, .sequence _ _ _ => true
  | .mapping _ _ _, .mapping _ _ _ => true
  | _, _ => false

end Node

/-- the front of the tags that the language itself defines -/
def tagFront : List Char := "tag:yaml.org,2002:".toList

/-- the short form of a tag: two exclamation marks for the language's own -/
def shortTag (tag : List Char) : String :=
  if tagFront.isPrefixOf tag then "!!" ++ String.ofList (tag.drop tagFront.length) else String.ofList tag

/-- the tag of a node: the one it was given, or else the usual one -/
def givenTag (p : Properties) (usual : String) : String :=
  if p.tag.isEmpty || p.tag == ['!'] then usual else shortTag p.tag

/-- the usual tag of a scalar: a quoted one is text, two angles ask for a merge, and a plain one has the tag of its kind -/
def scalarTag (text : List Char) (plain : Bool) : String :=
  if !plain then "!!str" else if text == ['<', '<'] then "!!merge" else (plainKind true text).tag

/-- a collection that has started -/
structure OpenNode where
  mapping : Bool
  tag : String
  line : Nat
  anchor : Option Nat
  /-- what it holds so far, the last first; keys and values by turns in a mapping -/
  content : List Node

/-- keys and values by turns, as pairs -/
def pairUp : List Node → List (Node × Node)
  | k :: v :: r => (k, v) :: pairUp r
  | _ => []

/-- the finished collection -/
def OpenNode.node (o : OpenNode) : Node :=
  if o.mapping then .mapping o.tag (pairUp o.content.reverse) o.line else .sequence o.tag o.content.reverse o.line

/-- a tree being put together -/
structure Builder where
  opened : List OpenNode
  root : Option Node
  /-- anchor names with their numbers, the latest first -/
  names : List (List Char × Nat)
  /-- the anchored nodes that are finished -/
  anchored : List (Nat × Node)
  /-- how many references there were -/
  references : Nat

namespace Builder

/-- nothing read yet -/
def start : Builder := ⟨[], none, [], [], 0⟩

/-- note an anchor; the number says how many came before -/
def name (b : Builder) (anchor : Option (List Char)) : Option Nat × Builder :=
  match anchor with
  | none => (none, b)
  | some s => (some b.names.length, { b with names := (s, b.names.length) :: b.names })

/-- put a finished node where it belongs -/
def add (b : Builder) (anchor : Option Nat) (n : Node) : Builder :=
  let b := match anchor with
    | some a => { b with anchored := (a, n) :: b.anchored }
    | none => b
  match b.opened with
  | o :: more => { b with opened := { o with content := n :: o.content } :: more }
  | [] => { b with root := some n }

/-- a collection starts -/
def openNode (b : Builder) (mapping : Bool) (p : Properties) : Builder :=
  let (anchor, b) := b.name p.anchor
  let usual := if mapping then "!!map" else "!!seq"
  { b with opened := ⟨mapping, givenTag p usual, p.line + 1, anchor, []⟩ :: b.opened }

/-- the innermost collection ends -/
def closeNode (b : Builder) : Builder :=
  match b.opened with
  | o :: more => { b with opened := more }.add o.anchor o.node
  | [] => b

/-- one event -/
def step (b : Builder) : Event → Except Fault Builder
  | .documentStart | .documentEnd | .streamEnd => .ok b
  | .reference name line =>
    match b.names.find? fun a => a.1 == name with
    | some (_, anchor) =>
      .ok ({ b with references := b.references + 1 }.add none (.reference name anchor b.references (line + 1)))
    | none => .error (.unknownAnchor name)
  | .scalar p text plain =>
    let (anchor, b) := b.name p.anchor
    .ok (b.add anchor (.scalar (givenTag p (scalarTag text plain)) text (p.line + 1)))
  | .sequenceStart p => .ok (b.openNode false p)
  | .mappingStart p => .ok (b.openNode true p)
  | .sequenceEnd | .mappingEnd => .ok b.closeNode

end Builder

/-- a document: its root, and the nodes that references refer to -/
structure Document where
  root : Node
  anchored : List (Nat × Node)
  /-- how many references it has -/
  references : Nat

/-- read a text as a document; a text that holds none has no document -/
def Document.read (s : List Char) : Except Fault (Option Document) :=
  let events := Events.ofText s
  match events.events.foldlM Builder.step Builder.start with
  | .error f => .error f
  | .ok b =>
    match events.fault with
    | some f => .error f
    | none => .ok (b.root.map fun root => ⟨root, b.anchored, b.references⟩)

/-- what a node refers to; a node that is no reference stands for itself -/
def Document.target (d : Document) : Node → Node
  | .reference name a k line =>
    match d.anchored.find? fun x => x.1 == a with
    | some (_, n) => n
    | none => .reference name a k line
  | n => n

end MatcherGen.Yaml
