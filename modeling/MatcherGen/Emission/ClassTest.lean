/-
Tests of the current character against a class. Members below 128 are compared with the current byte, the others with the
current character; a range across that limit is split in two. The class's negation applies once, to the whole test.
-/
import MatcherGen.Emission.Cont
import MatcherGen.Pattern.Analysis

namespace MatcherGen

/-- the members of a class on one side of the ASCII limit -/
structure ClassSide where
  singles : List Int
  ranges : List ClassRange

/-- the part of a range below the ASCII limit; an inverted range stays with its lower end -/
def ClassRange.asciiPart (r : ClassRange) : List ClassRange :=
  if r.hi < r.lo then if r.lo < asciiLimit then [r] else []
  else if r.hi < asciiLimit then [r]
  else if (asciiLimit : Int) ≤ r.lo then []
  else [⟨r.lo, asciiLimit - 1⟩]

/-- the part of a range from the ASCII limit on -/
def ClassRange.widePart (r : ClassRange) : List ClassRange :=
  if r.hi < r.lo then if r.lo < asciiLimit then [] else [r]
  else if r.hi < asciiLimit then []
  else if (asciiLimit : Int) ≤ r.lo then [r]
  else [⟨asciiLimit, r.hi⟩]

/-- the members compared with the current byte -/
def CharClass.asciiSide (c : CharClass) : ClassSide :=
  ⟨c.singles.filter (· < asciiLimit), c.ranges.flatMap ClassRange.asciiPart⟩

/-- the members compared with the current character -/
def CharClass.wideSide (c : CharClass) : ClassSide :=
  ⟨c.singles.filter (fun n => (asciiLimit : Int) ≤ n), c.ranges.flatMap ClassRange.widePart⟩

/-- the conditions joined from the left -/
def Expr.orAll : List Expr → Option Expr
  | [] => none
  | e :: r => some (r.foldl (.binary .or) e)

/-- one test per member of a side -/
def ClassSide.tests (s : ClassSide) (subject : Ident) : List Expr :=
  s.singles.map (fun n => .binary .eq (.name subject) (.code n)) ++
    s.ranges.map fun r =>
      .paren (.binary .and (.binary .ge (.name subject) (.code r.lo)) (.binary .le (.name subject) (.code r.hi)))

/-- when one side of a class turns the current character down -/
inductive Rejection where
  | always
  | never
  | when (test : Expr)

/-- the rejection of a side; an empty side has no members before negation -/
def ClassSide.rejection (s : ClassSide) (subject : Ident) (negated : Bool) : Rejection :=
  match Expr.orAll (s.tests subject) with
  | none => if negated then .never else .always
  | some member => .when (if negated then member else .not (.paren member))

/-- the statements that turn down a character on the ASCII side -/
def Rejection.asciiStmts : Rejection → Block
  | .always => [failStmt]
  | .never => []
  | .when test => [.cond [] test [failStmt] []]

/-- the statements that turn down a character on the other side -/
def Rejection.wideStmts : Rejection → Block
  | .always => [failStmt]
  | .never => []
  | .when test => [.cond [.define [.rune] (.method .peek [])] test [failStmt] []]

/-- fail at the end of the input -/
def failAtEnd : Stmt := .cond [] (.method .atEnd []) [failStmt] []

/-- the conditional that looks at the current byte, if it is needed -/
def classCheck (ascii wide : Rejection) : Block :=
  let name : Ident := match ascii with | .when _ => .byte | _ => .blank
  let look : Block := [.define [name, .ok] (.method .peekByte [])]
  match ascii, wide with
  | .never, .never => []
  | .never, w => [.cond look (.not (.name .ok)) w.wideStmts []]
  | a, .never => [.cond look (.name .ok) a.asciiStmts []]
  | a, w => [.cond look (.name .ok) a.asciiStmts w.wideStmts]

/-- match one character of a class and go on with `k`; a class that can never match drops `k` -/
def emitClass (c : CharClass) (k : Cont) : Making Block := fun n =>
  match c.asciiSide.rejection .byte c.negated, c.wideSide.rejection .rune c.negated with
  | .always, .always => ([failStmt], n)
  | ascii, wide =>
    let (skip, n') := retCall .skip [.number 1] k n
    (failAtEnd :: (classCheck ascii wide ++ skip), n')

/-- the test behind a shorthand class that has no matcher method; letters other than the six test for space -/
def shorthandTest (letter : Char) : Expr :=
  let r : Expr := .name .rune
  if letter == 'D' then .test .isDigit r
  else if letter == 'W' then
    .binary .or (.binary .or (.test .isLetter r) (.test .isDigit r)) (.binary .eq r (.code '_'.toNat))
  else .test .isSpace r

/-- match one character of a shorthand class and go on with `k` -/
def emitShorthand (letter : Char) (k : Cont) : Making Block := fun n =>
  if letter == 'd' then retCall .digit [] k n
  else if letter == 'w' then retCall .word [] k n
  else
    let holds := shorthandTest letter
    let rejects := if isNegatedLetter letter then holds else .not holds
    let (skip, n') := retCall .skip [.number 1] k n
    (failAtEnd :: .cond [.define [.rune] (.method .peek [])] rejects [failStmt] [] :: skip, n')

end MatcherGen
