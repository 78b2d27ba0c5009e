/-
The tree as one line of nested parentheses, for example `(seq (lit "ab") (star (class ^ 'a'-'c')))`.
-/
import MatcherGen.Pattern.Node
import MatcherGen.Text.Quoted

namespace MatcherGen

/-- a class without its parentheses -/
def CharClass.sexp (c : CharClass) : List Char :=
  "class".toList ++ (if c.negated then " ^".toList else []) ++ c.singles.flatMap (fun n => ' ' :: quotedCode n) ++
    c.ranges.flatMap (fun r => ' ' :: (quotedCode r.lo ++ '-' :: quotedCode r.hi))

/-- the operator of a repetition with its bounds -/
def Quantity.sexp (q : Quantity) : List Char :=
  q.op.label.toList ++ (if q.op != .exact && !q.greedy then " lazy".toList else []) ++
    match q.op with
    | .exact | .atLeast => ' ' :: decimal q.min.toInt
    | .between => ' ' :: (decimal q.min.toInt ++ ' ' :: decimal q.max.toInt)
    | _ => []

/-- the front of a group up to its inner node -/
def groupSexp (capturing : Bool) (name : List Char) : List Char :=
  if !capturing then "group".toList
  else if name.isEmpty then "capture".toList
  else "capture name=".toList ++ name

mutual
/-- a node in parentheses -/
def Node.sexp : Node → List Char
  | .absent => "(nil)".toList
  | .seq children => "(seq".toList ++ Node.sexpAll children ++ [')']
  | .alt arms => "(alt".toList ++ Node.sexpAll arms ++ [')']
  | .group inner capturing name => '(' :: (groupSexp capturing name ++ ' ' :: (inner.sexp ++ [')']))
  | .lit text fold => (if fold then "(lit/i ".toList else "(lit ".toList) ++ quoted text ++ [')']
  | .dot dotAll => if dotAll then "(dot/s)".toList else "(dot)".toList
  | .anchor kind => '(' :: (kind.label.toList ++ [')'])
  | .cls c => '(' :: (c.sexp ++ [')'])
  | .esc letter => "(esc \\".toList ++ [letter, ')']
  | .rep atom q => '(' :: (q.sexp ++ ' ' :: (atom.sexp ++ [')']))
  | .stub message => "(stub ".toList ++ quoted message ++ [')']

/-- nodes with a space before each -/
def Node.sexpAll : List Node → List Char
  | [] => []
  | n :: r => ' ' :: (n.sexp ++ Node.sexpAll r)
end

end MatcherGen
