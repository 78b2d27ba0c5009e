/-
The tree as a listing over several lines, every field on a line of its own. Fields that follow each other on single lines
have their values aligned.
-/
import MatcherGen.Pattern.Node
import MatcherGen.Text.Quoted

namespace MatcherGen

/-- a value to list -/
inductive Listing where
  | atom (text : List Char)
  | record (type : String) (fields : List (String × Listing))
  | items (type : String) (values : List Listing)

/-- lists with more items than this are not listed -/
def listingLimit : Nat := 1024

/-- put `n` spaces in front of every line -/
def indentLines (n : Nat) (lines : List (List Char)) : List (List Char) := lines.map fun l => List.replicate n ' ' ++ l

/-- add text to the end of the last line -/
def endLines (text : List Char) : List (List Char) → List (List Char)
  | [] => [text]
  | [l] => [l ++ text]
  | l :: r => l :: endLines text r

/-- the width of the labels that stand on directly following lines, from the front: those up to the first value of several
lines -/
def labelWidth : List (String × List (List Char)) → Nat
  | [] => 0
  | (label, lines) :: r => if lines.length ≤ 1 then max label.length (labelWidth r) else label.length

/-- the lines of fields, each with its label in front of the first line of its value; `width` is what the lines directly
before agreed on, if there were any -/
def fieldLines : Option Nat → List (String × List (List Char)) → List (List Char)
  | _, [] => []
  | width, (label, lines) :: r =>
    let w := width.getD (labelWidth ((label, lines) :: r))
    let front := label.toList ++ ':' :: List.replicate (w + 1 - label.length) ' '
    let own := match lines with
      | [] => [front]
      | first :: more => (front ++ first) :: more
    own ++ fieldLines (if lines.length ≤ 1 then some w else none) r

mutual

/-- the lines of a value -/
def Listing.lines : Listing → List (List Char)
  | .atom text => [text]
  | .record type fields =>
    (type.toList ++ ['\x7b']) :: indentLines 2 (fieldLines none (Listing.fieldValues fields)) ++ [['\x7d']]
  | .items type values =>
    if values.isEmpty then [type.toList ++ "(nil)".toList]
    else if listingLimit < values.length then [type.toList ++ "\x7b...\x7d".toList]
    else (type.toList ++ ['\x7b']) :: indentLines 2 (Listing.itemLines values) ++ [['\x7d']]

/-- fields with the lines of their values, a comma behind each -/
def Listing.fieldValues : List (String × Listing) → List (String × List (List Char))
  | [] => []
  | (label, v) :: r => (label, endLines [','] v.lines) :: Listing.fieldValues r

/-- the lines of items, a comma behind each -/
def Listing.itemLines : List Listing → List (List Char)
  | [] => []
  | v :: r => endLines [','] v.lines ++ Listing.itemLines r

end

/-- a number -/
def listNumber (n : Int) : Listing := .atom (decimal n)

/-- a truth value -/
def listTruth (b : Bool) : Listing := .atom (truth b)

/-- a text -/
def listText (s : List Char) : Listing := .atom (quoted s)

/-- the number of an anchor -/
def AnchorKind.code : AnchorKind → Int
  | .lineStart => 0
  | .lineEnd => 1
  | .textStart => 2
  | .textEnd => 3

/-- the number of a repetition operator; an unknown one has the next -/
def RepeatOp.code : RepeatOp → Int
  | .star => 0
  | .plus => 1
  | .quest => 2
  | .exact => 3
  | .atLeast => 4
  | .between => 5
  | .unknown => 6

/-- a class as a listing -/
def CharClass.listing (c : CharClass) : Listing :=
  .record "&ast.CharClass"
    [("Negated", listTruth c.negated),
      ("Singles", .items "[]int32" (c.singles.map listNumber)),
      ("Ranges", .items "[]ast.Range"
        (c.ranges.map fun r => .record "ast.Range" [("Lo", listNumber r.lo), ("Hi", listNumber r.hi)]))]

mutual

/-- a node as a listing -/
def Node.listing : Node → Listing
  | .absent => .atom "nil".toList
  | .seq children => .record "&ast.Sequence" [("Children", .items "[]ast.Node" (Node.listings children))]
  | .alt arms => .record "&ast.Alternation" [("Arms", .items "[]*ast.Sequence" (Node.listings arms))]
  | .group inner capturing name =>
    .record "&ast.Group" [("Inner", inner.listing), ("Capturing", listTruth capturing), ("Name", listText name)]
  | .lit text fold => .record "&ast.Literal" [("Text", listText text), ("Fold", listTruth fold)]
  | .dot dotAll => .record "&ast.Dot" [("DotAll", listTruth dotAll)]
  | .anchor kind => .record "&ast.Anchor" [("Kind", listNumber kind.code)]
  | .cls c => c.listing
  | .esc letter => .record "&ast.EscapeClass" [("Class", listNumber letter.toNat)]
  | .rep atom q =>
    .record "&ast.Quantifier"
      [("Atom", atom.listing), ("Op", listNumber q.op.code), ("Min", listNumber q.min.toInt),
        ("Max", listNumber q.max.toInt), ("Greedy", listTruth q.greedy)]
  | .stub message => .record "&ast.Stub" [("Message", listText message)]

/-- nodes as listings -/
def Node.listings : List Node → List Listing
  | [] => []
  | n :: r => n.listing :: Node.listings r

end

/-- the listing of a tree, with a line end behind every line -/
def Node.listingText (n : Node) : List Char := n.listing.lines.flatMap (· ++ ['\n'])

end MatcherGen
