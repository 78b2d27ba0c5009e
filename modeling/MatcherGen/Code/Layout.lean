/-
The layout of generated code: tabs for indentation, one statement a line, the body of every function and conditional on
lines of its own, blanks around every operator. Parentheses around parentheses, and around a whole condition, are dropped.
-/
import MatcherGen.Code.Comment
import MatcherGen.Code.Expr
import MatcherGen.Text.Quoted

namespace MatcherGen

/-- the name of the local for a bound continuation -/
def contName (id : Int) : List Char := 'k' :: decimal id

/-- the name of the parameter of a repetition unit -/
def nextName (depth : Int) : List Char := "next".toList ++ decimal depth

/-- a name as written -/
def Ident.text : Ident → List Char
  | .cont id => contName id
  | .next depth => nextName depth
  | .input => "input".toList
  | .matcher => "m".toList
  | .byte => "b".toList
  | .rune => "r".toList
  | .ok => "ok".toList
  | .blank => "_".toList

/-- a method as written -/
def Method.label : Method → String
  | .runMatch => "Match"
  | .char => "Char"
  | .charFold => "CharFold"
  | .string => "String"
  | .stringFold => "StringFold"
  | .any => "Any"
  | .skip => "Skip"
  | .digit => "Digit"
  | .word => "Word"
  | .lineStart => "BOL"
  | .lineEnd => "EOL"
  | .textStart => "BOS"
  | .textEnd => "EOS"
  | .atEnd => "AtEnd"
  | .peek => "Peek"
  | .peekByte => "PeekByte"
  | .star => "Star"
  | .starLazy => "StarLazy"
  | .plus => "Plus"
  | .plusLazy => "PlusLazy"
  | .optional => "Optional"
  | .optionalLazy => "OptionalLazy"
  | .exactly => "Exactly"
  | .atLeast => "AtLeast"
  | .atLeastLazy => "AtLeastLazy"
  | .between => "Between"
  | .betweenLazy => "BetweenLazy"

/-- a predicate on characters as written -/
def CharTest.label : CharTest → String
  | .isDigit => "IsDigit"
  | .isLetter => "IsLetter"
  | .isSpace => "IsSpace"

/-- an operator with the blanks around it -/
def BinOp.text : BinOp → List Char
  | .or => " || ".toList
  | .and => " && ".toList
  | .eq => " == ".toList
  | .ge => " >= ".toList
  | .le => " <= ".toList

/-- the names by which generated code calls its packages -/
structure PackageNames where
  runtime : List Char
  tests : List Char

/-- `n` tabs -/
def tabs (n : Nat) : List Char := List.replicate n '\t'

/-- the front of a function literal -/
def funcFront (param : Option Nat) : List Char :=
  match param with
  | none => "func() bool \x7b".toList
  | some depth => "func(".toList ++ (Ident.next depth).text ++ " func() bool) bool \x7b".toList

/-- comment lines at an indentation; a comment that is blank keeps its mark only -/
def commentLines (indent : Nat) (lines : List (List Char)) : List Char :=
  lines.flatMap fun l => tabs indent ++ trimEnd l ++ ['\n']

/-- are comments above this statement documentation? -/
def Stmt.takesDoc : Stmt → Bool
  | .ret _ | .retNothing | .cond _ _ _ _ => true
  | _ => false

mutual
/-- an expression in front of `rest`, its inner lines at `indent`; a `bare` one goes without parentheses around the
whole -/
def Expr.layout (p : PackageNames) (indent : Nat) (bare : Bool) : Expr → List Char → List Char
  | .name x, rest => x.text ++ rest
  | .truth b, rest => MatcherGen.truth b ++ rest
  | .code n, rest => quotedCode n ++ rest
  | .text s, rest => quoted s ++ rest
  | .number n, rest => decimal n ++ rest
  | .newMatcher arg, rest => p.runtime ++ (".New(".toList ++ arg.layout p indent false (')' :: rest))
  | .method m args, rest => "m.".toList ++ (m.label.toList ++ '(' :: Expr.layoutArgs p indent args (')' :: rest))
  | .test t arg, rest => p.tests ++ '.' :: (t.label.toList ++ '(' :: arg.layout p indent false (')' :: rest))
  | .func param body, rest =>
    funcFront param ++ '\n' :: Stmt.layoutBlock p (indent + 1) [] body (tabs indent ++ '}' :: rest)
  | .invoke f, rest => f.layout p indent false ('(' :: ')' :: rest)
  | .binary op left right, rest => left.layout p indent false (op.text ++ right.layout p indent false rest)
  | .not e, rest => '!' :: e.layout p indent false rest
  | .paren e, rest => if bare then e.layout p indent true rest else '(' :: e.layout p indent true (')' :: rest)

/-- arguments in front of `rest`, with commas between them -/
def Expr.layoutArgs (p : PackageNames) (indent : Nat) : List Expr → List Char → List Char
  | [], rest => rest
  | [e], rest => e.layout p indent false rest
  | e :: r, rest => e.layout p indent false (',' :: ' ' :: Expr.layoutArgs p indent r rest)

/-- a statement in front of `rest`, without its indentation and line end -/
def Stmt.layout (p : PackageNames) (indent : Nat) : Stmt → List Char → List Char
  | .comment text, rest => trimEnd (commentLine text.chars) ++ rest
  | .define names value, rest =>
    joinWith ", ".toList (names.map Ident.text) ++ (" := ".toList ++ value.layout p indent false rest)
  | .ret value, rest => "return ".toList ++ value.layout p indent false rest
  | .retNothing, rest => "return".toList ++ rest
  | .abort message, rest => "panic(".toList ++ (quoted message ++ ')' :: rest)
  | .cond init test body other, rest =>
    let closing : List Char :=
      if other.isEmpty then '}' :: rest
      else "\x7d else \x7b\n".toList ++ Stmt.layoutBlock p (indent + 1) [] other (tabs indent ++ '}' :: rest)
    "if ".toList ++ Stmt.layoutInit p indent init (test.layout p indent true
      (" \x7b\n".toList ++ Stmt.layoutBlock p (indent + 1) [] body (tabs indent ++ closing)))

/-- the declaration in front of a condition, and `rest` -/
def Stmt.layoutInit (p : PackageNames) (indent : Nat) : List Stmt → List Char → List Char
  | [], rest => rest
  | s :: r, rest => s.layout p indent (';' :: ' ' :: Stmt.layoutInit p indent r rest)

/-- statements, one a line, in front of `rest`; `pending` holds the comment lines directly above the next statement -/
def Stmt.layoutBlock (p : PackageNames) (indent : Nat) (pending : List (List Char)) : List Stmt → List Char → List Char
  | [], rest => commentLines indent pending ++ rest
  | .comment text :: r, rest => Stmt.layoutBlock p indent (pending ++ [commentLine text.chars]) r rest
  | s :: r, rest =>
    commentLines indent (if s.takesDoc then docLines pending else pending) ++ (tabs indent ++
      s.layout p indent ('\n' :: Stmt.layoutBlock p indent [] r rest))
end

/-- statements, one a line -/
def Block.text (p : PackageNames) (indent : Nat) (b : Block) : List Char := Stmt.layoutBlock p indent [] b []

end MatcherGen
