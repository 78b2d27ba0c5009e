/-
What a tree tells before any code is made of it: the features it uses, whether repetitions are nested, and the fewest
characters a match takes, in 64-bit words that wrap.
-/
import MatcherGen.Pattern.Node

namespace MatcherGen

/-- the first code point beyond ASCII -/
def asciiLimit : Nat := 128

/-- a feature of a pattern -/
inductive Feature where
  | alternation
  | anchored
  | captures
  | charClass
  | multibyte
  | nonCapturing
  | quantifiers
  | simple
  | stubs
deriving DecidableEq, Repr

/-- the label of a feature -/
def Feature.label : Feature → String
  | .alternation => "Alternation"
  | .anchored => "Anchored"
  | .captures => "Captures"
  | .charClass => "CharClass"
  | .multibyte => "Multibyte"
  | .nonCapturing => "NonCapturing"
  | .quantifiers => "Quantifiers"
  | .simple => "Simple"
  | .stubs => "Stubs"

/-- does a class name a member beyond ASCII? -/
def CharClass.isWide (c : CharClass) : Bool :=
  c.singles.any (fun n => (asciiLimit : Int) ≤ n) || c.ranges.any (fun r => (asciiLimit : Int) ≤ r.hi)

/-- the features that one node shows -/
def Node.features : Node → List Feature
  | .alt _ => [.alternation]
  | .anchor _ => [.anchored]
  | .group _ capturing _ => if capturing then [.captures] else [.nonCapturing]
  | .cls c => if c.isWide then [.charClass, .multibyte] else [.charClass]
  | .esc _ => [.charClass]
  | .lit text _ => if text.any (fun c => asciiLimit ≤ c.toNat) then [.multibyte] else []
  | .rep _ _ => [.quantifiers]
  | .stub _ => [.stubs]
  | .absent | .seq _ | .dot _ => []

/-- can the repetition apply its atom more than once? -/
def Quantity.repeats (q : Quantity) : Bool :=
  match q.op with
  | .quest => false
  | .exact => 1 < q.min
  | .between => 1 < q.max
  | _ => true

/-- is the node a repetition? -/
def Node.isRep : Node → Bool
  | .rep _ _ => true
  | _ => false

/-- on a walk in search of a repetition: one that is found ends it -/
def Node.seekRep (found : Bool) (n : Node) : Bool × Bool :=
  let found := found || n.isRep
  (found, !found)

/-- on a walk in search of a repetition that can repeat and has a repetition inside: one that is found ends it, and a second
walk looks inside each that can repeat -/
def Node.seekNested (found : Bool) (n : Node) : Bool × Bool :=
  if found then (found, false)
  else
    match n with
    | .rep atom q =>
      if q.repeats then
        let found := atom.walk Node.seekRep found
        (found, !found)
      else (found, true)
    | _ => (found, true)

/-- is there a repetition that can repeat and has a repetition inside? -/
def Node.hasNested (root : Node) : Bool := root.walk Node.seekNested false

/-- the smaller of the best length so far and the next one; a negative best is no best -/
def shorter (best next : Int64) : Int64 := if best < 0 || next < best then next else best

mutual
/-- the fewest characters a match takes; stubs count as empty -/
def Node.minLength : Node → Int64
  | .seq children => Node.minLengthSum 0 children
  | .alt arms => let best := Node.minLengthBest (-1) arms; if best < 0 then 0 else best
  | .group inner _ _ => inner.minLength
  | .lit text _ => Int64.ofNat text.length
  | .dot _ | .cls _ | .esc _ => 1
  | .rep atom q =>
    match q.op with
    | .star | .quest => 0
    | .plus => atom.minLength
    | _ => q.min * atom.minLength
  | .absent | .anchor _ | .stub _ => 0

/-- the sum of the lengths, added to `total` from the left -/
def Node.minLengthSum (total : Int64) : List Node → Int64
  | [] => total
  | n :: r => Node.minLengthSum (total + n.minLength) r

/-- the best of the lengths, taken from the left -/
def Node.minLengthBest (best : Int64) : List Node → Int64
  | [] => best
  | n :: r => Node.minLengthBest (shorter best n.minLength) r
end

/-- the outcome of the analysis -/
structure Analysis where
  /-- in alphabetical order of their labels -/
  features : List Feature
  nested : Bool
  captures : Nat
  stubs : Nat
  minLength : Int64

/-- every feature but `simple`, in alphabetical order -/
def Feature.all : List Feature :=
  [.alternation, .anchored, .captures, .charClass, .multibyte, .nonCapturing, .quantifiers, .stubs]

/-- is the node a capturing group? -/
def Node.isCapture : Node → Bool
  | .group _ capturing _ => capturing
  | _ => false

/-- is the node a stub? -/
def Node.isStub : Node → Bool
  | .stub _ => true
  | _ => false

/-- analyse a tree -/
def Node.analysis (root : Node) : Analysis :=
  let nodes := root.nodes
  let shown := nodes.flatMap Node.features
  let features := Feature.all.filter (shown.contains ·)
  { features := if features.isEmpty then [.simple] else features
    nested := root.hasNested
    captures := nodes.countP Node.isCapture
    stubs := nodes.countP Node.isStub
    minLength := root.minLength }

end MatcherGen
