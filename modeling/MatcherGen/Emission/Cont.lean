/-
Continuations: the code to run once a node has matched. A continuation is the name of a function in scope, or statements
that are made when they are needed; one that is never needed is never made, so it takes no name and leaves no trace.
Making code hands out numbers for the names of bound continuations, in the order of making.
-/
import MatcherGen.Code.Expr

namespace MatcherGen

/-- code in the making: from the next free number to the code and the next free number after it -/
abbrev Making (α : Type) := Nat → α × Nat

/-- the code to run after a node -/
inductive Cont where
  /-- a function in scope -/
  | named (x : Ident)
  /-- statements that end in a return, made on demand -/
  | delayed (make : Making Block)

namespace Cont

/-- report a match -/
def accept : Cont := .delayed fun n => ([.ret (.truth true)], n)

/-- the continuation as a function value -/
def func (k : Cont) : Making Expr := fun n =>
  match k with
  | .named x => (.name x, n)
  | .delayed make => let (body, n') := make n; (.thunk body, n')

/-- the continuation as statements -/
def stmts (k : Cont) : Making Block := fun n =>
  match k with
  | .named x => ([.ret (.invoke (.name x))], n)
  | .delayed make => make n

end Cont

/-- a method call on the matcher with the continuation as its last argument, returned -/
def retCall (m : Method) (args : List Expr) (k : Cont) : Making Block := fun n =>
  let (f, n') := k.func n
  ([.ret (.method m (args ++ [f]))], n')

/-- report a failure -/
def failStmt : Stmt := .ret (.truth false)

end MatcherGen
