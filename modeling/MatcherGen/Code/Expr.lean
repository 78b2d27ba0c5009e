/-
The generated code: the small part of Go that a matcher is made of. Names, matcher methods and character tests are closed
lists, so that scopes and arguments can be checked; everything else is ordinary expressions and statements.
-/
import MatcherGen.Text.Glyph

namespace MatcherGen

/-- the names that occur in generated functions -/
inductive Ident where
  /-- a continuation bound to a local -/
  | cont (id : Nat)
  /-- the parameter of a repetition unit, `depth` repetitions deep -/
  | next (depth : Nat)
  | input
  | matcher
  | byte
  | rune
  | ok
  | blank
deriving DecidableEq, Repr

/-- the methods of the matcher -/
inductive Method where
  | runMatch
  | char
  | charFold
  | string
  | stringFold
  | any
  | skip
  | digit
  | word
  | lineStart
  | lineEnd
  | textStart
  | textEnd
  | atEnd
  | peek
  | peekByte
  | star
  | starLazy
  | plus
  | plusLazy
  | optional
  | optionalLazy
  | exactly
  | atLeast
  | atLeastLazy
  | between
  | betweenLazy
deriving DecidableEq, Repr

/-- the predicates on characters that generated code calls -/
inductive CharTest where
  | isDigit
  | isLetter
  | isSpace
deriving DecidableEq, Repr

/-- the binary operators -/
inductive BinOp where
  | or
  | and
  | eq
  | ge
  | le
deriving DecidableEq, Repr

mutual
/-- an expression -/
inductive Expr where
  | name (x : Ident)
  | truth (b : Bool)
  /-- a character literal, by its code point -/
  | code (n : Int)
  | text (s : List Char)
  | number (n : Int)
  /-- a new matcher over its argument -/
  | newMatcher (arg : Expr)
  /-- a method call on the matcher -/
  | method (m : Method) (args : List Expr)
  | test (t : CharTest) (arg : Expr)
  /-- a function that returns a truth value; with a depth it takes the continuation of a repetition unit -/
  | func (param : Option Nat) (body : List Stmt)
  /-- a call without arguments -/
  | invoke (f : Expr)
  | binary (op : BinOp) (left right : Expr)
  | not (e : Expr)
  | paren (e : Expr)

/-- a statement -/
inductive Stmt where
  | comment (text : Text)
  /-- a declaration of names with a value -/
  | define (names : List Ident) (value : Expr)
  | ret (value : Expr)
  /-- a return without a value -/
  | retNothing
  /-- a panic with a message -/
  | abort (message : List Char)
  /-- a conditional; `init` holds at most one declaration, and an empty `other` is no alternative -/
  | cond (init : List Stmt) (test : Expr) (body other : List Stmt)
end

/-- a sequence of statements -/
abbrev Block := List Stmt

mutual
/-- does the name occur in the expression? -/
def Expr.mentions (x : Ident) : Expr → Bool
  | .name y => x == y
  | .truth _ | .code _ | .text _ | .number _ => false
  | .newMatcher arg => Expr.mentions x arg
  | .method _ args => Expr.anyMentions x args
  | .test _ arg => Expr.mentions x arg
  | .func _ body => Stmt.anyMentions x body
  | .invoke f => Expr.mentions x f
  | .binary _ left right => Expr.mentions x left || Expr.mentions x right
  | .not e => Expr.mentions x e
  | .paren e => Expr.mentions x e

/-- does the name occur in one of the expressions? -/
def Expr.anyMentions (x : Ident) : List Expr → Bool
  | [] => false
  | e :: r => Expr.mentions x e || Expr.anyMentions x r

/-- does the name occur in the statement, declarations not counted? -/
def Stmt.mentions (x : Ident) : Stmt → Bool
  | .comment _ | .retNothing | .abort _ => false
  | .define _ value => Expr.mentions x value
  | .ret value => Expr.mentions x value
  | .cond init test body other =>
    Stmt.anyMentions x init || Expr.mentions x test || Stmt.anyMentions x body || Stmt.anyMentions x other

/-- does the name occur in one of the statements? -/
def Stmt.anyMentions (x : Ident) : List Stmt → Bool
  | [] => false
  | s :: r => Stmt.mentions x s || Stmt.anyMentions x r
end

mutual
/-- does the expression call a predicate on characters? -/
def Expr.usesTests : Expr → Bool
  | .name _ | .truth _ | .code _ | .text _ | .number _ => false
  | .newMatcher arg => Expr.usesTests arg
  | .method _ args => Expr.anyUsesTests args
  | .test _ _ => true
  | .func _ body => Stmt.anyUsesTests body
  | .invoke f => Expr.usesTests f
  | .binary _ left right => Expr.usesTests left || Expr.usesTests right
  | .not e => Expr.usesTests e
  | .paren e => Expr.usesTests e

/-- does one of the expressions call a predicate on characters? -/
def Expr.anyUsesTests : List Expr → Bool
  | [] => false
  | e :: r => Expr.usesTests e || Expr.anyUsesTests r

/-- does the statement call a predicate on characters? -/
def Stmt.usesTests : Stmt → Bool
  | .comment _ | .retNothing | .abort _ => false
  | .define _ value => Expr.usesTests value
  | .ret value => Expr.usesTests value
  | .cond init test body other =>
    Stmt.anyUsesTests init || Expr.usesTests test || Stmt.anyUsesTests body || Stmt.anyUsesTests other

/-- does one of the statements call a predicate on characters? -/
def Stmt.anyUsesTests : List Stmt → Bool
  | [] => false
  | s :: r => Stmt.usesTests s || Stmt.anyUsesTests r
end

/-- a function without parameters -/
def Expr.thunk (body : Block) : Expr := .func none body

end MatcherGen
