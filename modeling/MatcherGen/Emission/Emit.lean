/-
From tree to code. `Node.emit` gives the statements that match a node and then run a continuation; they end in a return or,
for a strict stub, in a panic. A sequence is emitted from the left, each element with the rest as its continuation. A
choice binds its continuation to a local that every arm refers to, and only if one does.
-/
import MatcherGen.Code.Comment
import MatcherGen.Emission.ClassTest

namespace MatcherGen

/-- which state of the inline switches a literal or a dot is emitted with -/
inductive FlagScope where
  /-- the state at the end of the pattern, for every node -/
  | pattern
  /-- the state where the node stood -/
  | positional
  /-- a number without a meaning; it acts as `pattern` -/
  | other (code : Int)
deriving DecidableEq, Repr

/-- how to emit -/
structure Style where
  scope : FlagScope
  /-- arms of a choice succeed on their own and drop what follows -/
  legacy : Bool
  /-- stubs panic -/
  strict : Bool
  /-- the switches at the end of the pattern -/
  flags : Flags

/-- the case switch for a literal that carries `stamp` -/
def Style.fold (c : Style) (stamp : Bool) : Bool :=
  match c.scope with
  | .positional => stamp
  | _ => c.flags.fold

/-- the dot switch for a dot that carries `stamp` -/
def Style.dotAll (c : Style) (stamp : Bool) : Bool :=
  match c.scope with
  | .positional => stamp
  | _ => c.flags.dotAll

/-- what a strict stub says before its own message -/
def abortMark : List Char := "regcps: ".toList

/-- a comment in place of a construct, then a panic or the continuation -/
def emitStub (c : Style) (message : List Char) (k : Cont) : Making Block := fun n =>
  let note : Stmt := .comment (commentText (Text.ofChars message))
  if c.strict then ([note, .abort (abortMark ++ message)], n)
  else
    let (rest, n') := k.stmts n
    (note :: rest, n')

/-- match a literal text and go on with `k` -/
def emitLiteral (c : Style) (text : List Char) (stamp : Bool) (k : Cont) : Making Block :=
  match text with
  | [] => k.stmts
  | [x] => retCall (if c.fold stamp then .charFold else .char) [.code x.toNat] k
  | s => retCall (if c.fold stamp then .stringFold else .string) [.text s] k

/-- match any character and go on with `k` -/
def emitDot (c : Style) (stamp : Bool) (k : Cont) : Making Block :=
  if c.dotAll stamp then retCall .skip [.number 1] k else retCall .any [] k

/-- the method for an anchor -/
def AnchorKind.method : AnchorKind → Method
  | .lineStart => .lineStart
  | .lineEnd => .lineEnd
  | .textStart => .textStart
  | .textEnd => .textEnd

/-- the method and the bounds for a repetition -/
def Quantity.driver (q : Quantity) : Option (Method × List Expr) :=
  let lo : Expr := .number q.min.toInt
  let hi : Expr := .number q.max.toInt
  match q.op with
  | .star => some (if q.greedy then .star else .starLazy, [])
  | .plus => some (if q.greedy then .plus else .plusLazy, [])
  | .quest => some (if q.greedy then .optional else .optionalLazy, [])
  | .exact => some (.exactly, [lo])
  | .atLeast => some (if q.greedy then .atLeast else .atLeastLazy, [lo])
  | .between => some (if q.greedy then .between else .betweenLazy, [lo, hi])
  | .unknown => none

/-- return the first of the arms that succeeds -/
def retArms (arms : List Expr) : Stmt :=
  match Expr.orAll arms with
  | none => .retNothing
  | some e => .ret e

mutual
/-- the statements that match a node, `depth` repetitions deep, and then run `k` -/
def Node.emit (c : Style) (depth : Nat) : Node → Cont → Making Block
  | .absent, k => emitStub c "unknown node <nil>".toList k
  | .seq children, k => Node.emitSeq c depth children k
  | .alt arms, k => fun n =>
    if c.legacy then
      let (tries, n') := Node.emitArms c depth arms .accept n
      ([retArms tries], n')
    else
      match k with
      | .named x =>
        let (tries, n') := Node.emitArms c depth arms (.named x) n
        ([retArms tries], n')
      | .delayed make =>
        let (tries, n₁) := Node.emitArms c depth arms (.named (.cont n)) (n + 1)
        if Expr.anyMentions (.cont n) tries then
          let (tail, n₂) := make n₁
          ([.define [.cont n] (.thunk tail), retArms tries], n₂)
        else ([retArms tries], n₁)
  | .group inner _ _, k => inner.emit c depth k
  | .lit text fold, k => emitLiteral c text fold k
  | .dot dotAll, k => emitDot c dotAll k
  | .anchor kind, k => retCall kind.method [] k
  | .cls members, k => emitClass members k
  | .esc letter, k => emitShorthand letter k
  | .rep atom q, k => fun n =>
    let (body, n') := atom.emit c (depth + 1) (.named (.next (depth + 1))) n
    match q.driver with
    | some (m, bounds) => retCall m (bounds ++ [.func (some (depth + 1)) body]) k n'
    | none => emitStub c ("unknown repetition ".toList ++ q.op.label.toList) k n'
  | .stub message, k => emitStub c message k

/-- the statements that match nodes one after the other and then run `k` -/
def Node.emitSeq (c : Style) (depth : Nat) : List Node → Cont → Making Block
  | [], k => k.stmts
  | [x], k => x.emit c depth k
  | x :: y :: r, k => x.emit c depth (.delayed (Node.emitSeq c depth (y :: r) k))

/-- one call per arm, each with the same continuation -/
def Node.emitArms (c : Style) (depth : Nat) : List Node → Cont → Making (List Expr)
  | [], _ => fun n => ([], n)
  | x :: r, k => fun n =>
    let (body, n₁) := x.emit c depth k n
    let (tries, n₂) := Node.emitArms c depth r k n₁
    (.invoke (.thunk body) :: tries, n₂)
end

/-- the whole tree against the accepting continuation -/
def Node.body (c : Style) (root : Node) : Block := (root.emit c 0 .accept 0).1

end MatcherGen
