/-
How code is made: the equations of a choice and of a shorthand class, and the numbers of bound continuations. Code is
made out of order (arms before the tail they share, a tail inside the node it follows), but every piece of it takes
its numbers from an interval of its own.

Main statements:
- `Node.emit_alt_legacy`, `Node.emit_alt_named`, `Node.emit_alt_used`, `Node.emit_alt_unused`: the four ways to make a
  choice;
- `Node.emit_numbered`: a node binds continuations with different numbers, all between the free number before it and
  the one after it.
-/
import Mathlib.Tactic
import MatcherGen.Emission.Emit

namespace MatcherGen

/-! ## Equations -/

/-- a shorthand class that has no method -/
theorem emitShorthand_test (letter : Char) (k : Cont) (n : Nat) (hd : letter ≠ 'd') (hw : letter ≠ 'w') :
    emitShorthand letter k n =
      (failAtEnd :: .cond [.define [.rune] (.method .peek [])]
        (if isNegatedLetter letter then shorthandTest letter else .not (shorthandTest letter)) [failStmt] [] ::
          (retCall .skip [.number 1] k n).1, (retCall .skip [.number 1] k n).2) := by
  simp [emitShorthand, hd, hw]

section Choice

variable {c : Style} (d : Nat) (arms : List Node) (n : Nat)

/-- arms that accept on their own -/
theorem Node.emit_alt_legacy (h : c.legacy = true) (k : Cont) :
    (Node.alt arms).emit c d k n =
      ([retArms (Node.emitArms c d arms .accept n).1], (Node.emitArms c d arms .accept n).2) := by
  simp [Node.emit, h]

/-- arms that refer to a continuation that has a name -/
theorem Node.emit_alt_named (h : c.legacy = false) (x : Ident) :
    (Node.alt arms).emit c d (.named x) n =
      ([retArms (Node.emitArms c d arms (.named x) n).1], (Node.emitArms c d arms (.named x) n).2) := by
  simp [Node.emit, h]

/-- arms that refer to a local, which is bound before them and made after them -/
theorem Node.emit_alt_used (h : c.legacy = false) (make : Making Block)
    (hused : Expr.anyMentions (.cont n) (Node.emitArms c d arms (.named (.cont n)) (n + 1)).1 = true) :
    (Node.alt arms).emit c d (.delayed make) n =
      ([.define [.cont n] (.thunk (make (Node.emitArms c d arms (.named (.cont n)) (n + 1)).2).1),
          retArms (Node.emitArms c d arms (.named (.cont n)) (n + 1)).1],
        (make (Node.emitArms c d arms (.named (.cont n)) (n + 1)).2).2) := by
  simp [Node.emit, h, hused]

/-- arms that drop what follows: the local is not bound, its number is spent -/
theorem Node.emit_alt_unused (h : c.legacy = false) (make : Making Block)
    (hused : Expr.anyMentions (.cont n) (Node.emitArms c d arms (.named (.cont n)) (n + 1)).1 = false) :
    (Node.alt arms).emit c d (.delayed make) n =
      ([retArms (Node.emitArms c d arms (.named (.cont n)) (n + 1)).1],
        (Node.emitArms c d arms (.named (.cont n)) (n + 1)).2) := by
  simp [Node.emit, h, hused]

end Choice

/-! ## Bound continuations -/

/-- the number of a continuation's name -/
def Ident.contNumber : Ident → Option Nat
  | .cont i => some i
  | _ => none

mutual
/-- the numbers of the continuations that are bound in an expression -/
def Expr.locals : Expr → List Nat
  | .name _ | .truth _ | .code _ | .text _ | .number _ => []
  | .newMatcher arg => Expr.locals arg
  | .method _ args => Expr.localsAll args
  | .test _ arg => Expr.locals arg
  | .func _ body => Block.locals body
  | .invoke f => Expr.locals f
  | .binary _ left right => Expr.locals left ++ Expr.locals right
  | .not e => Expr.locals e
  | .paren e => Expr.locals e

/-- those in several expressions -/
def Expr.localsAll : List Expr → List Nat
  | [] => []
  | e :: r => Expr.locals e ++ Expr.localsAll r

/-- those in a statement -/
def Stmt.locals : Stmt → List Nat
  | .comment _ | .retNothing | .abort _ => []
  | .define names value => names.filterMap Ident.contNumber ++ Expr.locals value
  | .ret value => Expr.locals value
  | .cond init test body other => Block.locals init ++ Expr.locals test ++ Block.locals body ++ Block.locals other

/-- the numbers of the continuations that are bound anywhere in a block, once for each binding -/
def Block.locals : List Stmt → List Nat
  | [] => []
  | s :: r => Stmt.locals s ++ Block.locals r
end

theorem Expr.localsAll_append (l r : List Expr) : Expr.localsAll (l ++ r) = Expr.localsAll l ++ Expr.localsAll r := by
  induction l with
  | nil => rfl
  | cons e l ih => simp [Expr.localsAll, ih]

theorem Block.locals_append (l r : List Stmt) : Block.locals (l ++ r) = Block.locals l ++ Block.locals r := by
  induction l with
  | nil => rfl
  | cons s l ih => simp [Block.locals, ih]

theorem Expr.locals_foldl (op : BinOp) (e : Expr) (r : List Expr) :
    (r.foldl (.binary op) e).locals = e.locals ++ Expr.localsAll r := by
  induction r generalizing e with
  | nil => simp [Expr.localsAll]
  | cons x r ih => simp [ih, Expr.locals, Expr.localsAll]

/-- joined conditions bind what the conditions bind -/
theorem Expr.locals_orAll {l : List Expr} {e : Expr} (h : Expr.orAll l = some e) : e.locals = Expr.localsAll l := by
  cases l with
  | nil => simp [Expr.orAll] at h
  | cons x r =>
    simp only [Expr.orAll, Option.some.injEq] at h
    rw [← h, Expr.locals_foldl, Expr.localsAll]

/-- binding a continuation -/
theorem locals_bind (i : Nat) (body : Block) :
    Stmt.locals (.define [.cont i] (.thunk body)) = [i] ++ Block.locals body := rfl

theorem locals_retArms (tries : List Expr) : Block.locals [retArms tries] = Expr.localsAll tries := by
  unfold retArms
  split
  · rename_i h
    cases tries with
    | nil => rfl
    | cons e r => simp [Expr.orAll] at h
  · rename_i e h
    simp [Block.locals, Stmt.locals, Expr.locals_orAll h]

/-! ## Class tests bind nothing -/

theorem ClassSide.locals_tests (s : ClassSide) (x : Ident) : Expr.localsAll (s.tests x) = [] := by
  have hsingles : ∀ l : List Int, Expr.localsAll (l.map fun n => .binary .eq (.name x) (.code n)) = [] := by
    intro l
    induction l with
    | nil => rfl
    | cons n r ih => simp [Expr.localsAll, Expr.locals, ih]
  unfold ClassSide.tests
  rw [Expr.localsAll_append, hsingles, List.nil_append]
  induction s.ranges with
  | nil => rfl
  | cons r l ih => simp [Expr.localsAll, Expr.locals, ih]

/-- the test of a side binds no continuation -/
def Rejection.Unbound : Rejection → Prop
  | .when test => test.locals = []
  | _ => True

theorem ClassSide.rejection_unbound (s : ClassSide) (x : Ident) (negated : Bool) : (s.rejection x negated).Unbound := by
  unfold ClassSide.rejection
  split
  · split_ifs <;> trivial
  · rename_i member h
    have hm : member.locals = [] := (Expr.locals_orAll h).trans (s.locals_tests x)
    show Expr.locals _ = []
    split_ifs
    · exact hm
    · simp [Expr.locals, hm]

theorem locals_classCheck {ascii wide : Rejection} (ha : ascii.Unbound) (hw : wide.Unbound) :
    Block.locals (classCheck ascii wide) = [] := by
  cases ascii <;> cases wide <;>
    simp_all [classCheck, Rejection.Unbound, Rejection.asciiStmts, Rejection.wideStmts, Block.locals, Stmt.locals,
      Expr.locals, Expr.localsAll, Ident.contNumber, failStmt]

/-! ## Intervals -/

/-- different numbers from `n` on and below `n'` -/
structure Numbered (n : Nat) (l : List Nat) (n' : Nat) : Prop where
  le : n ≤ n'
  nodup : l.Nodup
  bounds : ∀ i ∈ l, n ≤ i ∧ i < n'

namespace Numbered

theorem nil (n : Nat) : Numbered n [] n := ⟨le_refl n, List.nodup_nil, by simp⟩

theorem append {n m n' : Nat} {l l' : List Nat} (h : Numbered n l m) (h' : Numbered m l' n') :
    Numbered n (l ++ l') n' := by
  refine ⟨le_trans h.le h'.le, List.nodup_append'.2 ⟨h.nodup, h'.nodup, fun i hi hi' => ?_⟩, fun i hi => ?_⟩
  · have := h.bounds i hi
    have := h'.bounds i hi'
    omega
  · rcases List.mem_append.1 hi with hi | hi
    · exact ⟨(h.bounds i hi).1, lt_of_lt_of_le (h.bounds i hi).2 h'.le⟩
    · exact ⟨le_trans h.le (h'.bounds i hi).1, (h'.bounds i hi).2⟩

theorem perm {n n' : Nat} {l l' : List Nat} (h : Numbered n l n') (hp : l.Perm l') : Numbered n l' n' :=
  ⟨h.le, hp.nodup_iff.1 h.nodup, fun i hi => h.bounds i (hp.mem_iff.2 hi)⟩

theorem single (n : Nat) : Numbered n [n] (n + 1) :=
  ⟨Nat.le_succ n, List.nodup_singleton n, fun i hi => by rw [List.mem_singleton.1 hi]; omega⟩

/-- numbers may be spent and not used -/
theorem after {n m n' : Nat} {l : List Nat} (h : Numbered m l n') (hn : n ≤ m) : Numbered n l n' :=
  ⟨le_trans hn h.le, h.nodup, fun i hi => ⟨le_trans hn (h.bounds i hi).1, (h.bounds i hi).2⟩⟩

end Numbered

/-! ## Continuations and leaves -/

/-- what the continuation makes takes its numbers from where it is made -/
def Cont.Numbers : Cont → Prop
  | .named _ => True
  | .delayed make => ∀ n, Numbered n (Block.locals (make n).1) (make n).2

theorem Cont.accept_numbers : Cont.accept.Numbers := fun n => .nil n

theorem Cont.Numbers.func {k : Cont} (hk : k.Numbers) (n : Nat) : Numbered n (k.func n).1.locals (k.func n).2 := by
  cases k with
  | named x => exact .nil n
  | delayed make => exact hk n

theorem Cont.Numbers.stmts {k : Cont} (hk : k.Numbers) (n : Nat) :
    Numbered n (Block.locals (k.stmts n).1) (k.stmts n).2 := by
  cases k with
  | named x => exact .nil n
  | delayed make => exact hk n

theorem retCall_numbered {k : Cont} (hk : k.Numbers) (m : Method) {args : List Expr} {n n' : Nat}
    (hargs : Numbered n (Expr.localsAll args) n') :
    Numbered n (Block.locals (retCall m args k n').1) (retCall m args k n').2 := by
  have hlocals : Block.locals (retCall m args k n').1 = Expr.localsAll args ++ (k.func n').1.locals := by
    simp [retCall, Block.locals, Stmt.locals, Expr.locals, Expr.localsAll_append, Expr.localsAll]
  rw [hlocals]
  exact hargs.append (hk.func n')

theorem emitStub_numbered {k : Cont} (hk : k.Numbers) (c : Style) (message : List Char) (n : Nat) :
    Numbered n (Block.locals (emitStub c message k n).1) (emitStub c message k n).2 := by
  unfold emitStub
  dsimp only
  split_ifs
  · exact .nil n
  · exact hk.stmts n

theorem emitLiteral_numbered {k : Cont} (hk : k.Numbers) (c : Style) (text : List Char) (fold : Bool) (n : Nat) :
    Numbered n (Block.locals (emitLiteral c text fold k n).1) (emitLiteral c text fold k n).2 := by
  unfold emitLiteral
  split
  · exact hk.stmts n
  · exact retCall_numbered hk _ (.nil n)
  · exact retCall_numbered hk _ (.nil n)

theorem emitDot_numbered {k : Cont} (hk : k.Numbers) (c : Style) (dotAll : Bool) (n : Nat) :
    Numbered n (Block.locals (emitDot c dotAll k n).1) (emitDot c dotAll k n).2 := by
  unfold emitDot
  split_ifs
  · exact retCall_numbered hk _ (.nil n)
  · exact retCall_numbered hk _ (.nil n)

theorem emitClass_numbered {k : Cont} (hk : k.Numbers) (members : CharClass) (n : Nat) :
    Numbered n (Block.locals (emitClass members k n).1) (emitClass members k n).2 := by
  have hcheck := locals_classCheck (members.asciiSide.rejection_unbound .byte members.negated)
    (members.wideSide.rejection_unbound .rune members.negated)
  unfold emitClass
  split
  · exact .nil n
  · dsimp only
    rw [Block.locals, Block.locals_append, hcheck]
    exact retCall_numbered hk .skip (.nil n)

theorem locals_shorthandTest (letter : Char) : (shorthandTest letter).locals = [] := by
  unfold shorthandTest
  dsimp only
  split_ifs <;> rfl

theorem emitShorthand_numbered {k : Cont} (hk : k.Numbers) (letter : Char) (n : Nat) :
    Numbered n (Block.locals (emitShorthand letter k n).1) (emitShorthand letter k n).2 := by
  by_cases hd : letter = 'd'
  · subst hd
    exact retCall_numbered hk .digit (.nil n)
  · by_cases hw : letter = 'w'
    · subst hw
      exact retCall_numbered hk .word (.nil n)
    · have htest :
          (if isNegatedLetter letter then shorthandTest letter else .not (shorthandTest letter)).locals = [] := by
        split_ifs <;> simp [Expr.locals, locals_shorthandTest letter]
      have hguard : ∀ e : Expr, e.locals = [] →
          Stmt.locals (.cond [.define [.rune] (.method .peek [])] e [failStmt] []) = [] := by
        intro e he
        simp only [Stmt.locals, he]
        rfl
      rw [emitShorthand_test letter k n hd hw]
      simp only [Block.locals, hguard _ htest]
      exact retCall_numbered hk .skip (.nil n)

theorem Quantity.locals_driver (q : Quantity) {m : Method} {bounds : List Expr} (h : q.driver = some (m, bounds)) :
    Expr.localsAll bounds = [] := by
  obtain ⟨op, lo, hi, greedy⟩ := q
  cases op with
  | unknown => simp [Quantity.driver] at h
  | _ =>
    simp only [Quantity.driver, Option.some.injEq, Prod.mk.injEq] at h
    rw [← h.2]
    rfl

/-! ## Trees -/

mutual
/-- **A node binds each number once**, between the free number before it and the one after it. -/
theorem Node.emit_numbered (c : Style) (d : Nat) (x : Node) {k : Cont} (hk : k.Numbers) (n : Nat) :
    Numbered n (Block.locals (x.emit c d k n).1) (x.emit c d k n).2 := by
  match x with
  | .absent => simp only [Node.emit]; exact emitStub_numbered hk c _ n
  | .seq children => simp only [Node.emit]; exact Node.emitSeq_numbered c d children hk n
  | .alt arms =>
    cases hl : c.legacy with
    | true =>
      rw [Node.emit_alt_legacy d arms n hl k]
      dsimp only
      rw [locals_retArms]
      exact Node.emitArms_numbered c d arms Cont.accept_numbers n
    | false =>
      cases k with
      | named x =>
        rw [Node.emit_alt_named d arms n hl x]
        dsimp only
        rw [locals_retArms]
        exact Node.emitArms_numbered c d arms hk n
      | delayed make =>
        have hlocal : (Cont.named (.cont n)).Numbers := trivial
        have harms := Node.emitArms_numbered c d arms hlocal (n + 1)
        cases hused : Expr.anyMentions (.cont n) (Node.emitArms c d arms (.named (.cont n)) (n + 1)).1 with
        | true =>
          -- the numbers of the tail follow those of the arms, its code stands before them
          have htail := hk (Node.emitArms c d arms (.named (.cont n)) (n + 1)).2
          rw [Node.emit_alt_used d arms n hl make hused]
          dsimp only
          rw [Block.locals, locals_retArms]
          have hboth := (Numbered.single n).append (harms.append htail)
          refine hboth.perm ?_
          rw [locals_bind, List.append_assoc]
          exact List.perm_append_comm.append_left [n]
        | false =>
          rw [Node.emit_alt_unused d arms n hl make hused]
          dsimp only
          rw [locals_retArms]
          exact harms.after (Nat.le_succ n)
  | .group inner _ _ => simp only [Node.emit]; exact Node.emit_numbered c d inner hk n
  | .lit text fold => simp only [Node.emit]; exact emitLiteral_numbered hk c text fold n
  | .dot dotAll => simp only [Node.emit]; exact emitDot_numbered hk c dotAll n
  | .anchor kind => simp only [Node.emit]; exact retCall_numbered hk _ (.nil n)
  | .cls members => simp only [Node.emit]; exact emitClass_numbered hk members n
  | .esc letter => simp only [Node.emit]; exact emitShorthand_numbered hk letter n
  | .rep atom q =>
    have hnext : (Cont.named (.next (d + 1))).Numbers := trivial
    have hbody := Node.emit_numbered c (d + 1) atom hnext n
    simp only [Node.emit]
    cases hq : q.driver with
    | none => exact (emitStub_numbered hk c _ _).after hbody.le
    | some driver =>
      obtain ⟨m, bounds⟩ := driver
      refine retCall_numbered hk m ?_
      rw [Expr.localsAll_append, q.locals_driver hq]
      simpa [Expr.localsAll, Expr.locals] using hbody
  | .stub message => simp only [Node.emit]; exact emitStub_numbered hk c message n

theorem Node.emitSeq_numbered (c : Style) (d : Nat) (l : List Node) {k : Cont} (hk : k.Numbers) (n : Nat) :
    Numbered n (Block.locals (Node.emitSeq c d l k n).1) (Node.emitSeq c d l k n).2 := by
  match l with
  | [] => simp only [Node.emitSeq]; exact hk.stmts n
  | [x] => simp only [Node.emitSeq]; exact Node.emit_numbered c d x hk n
  | x :: y :: r =>
    have htail : (Cont.delayed (Node.emitSeq c d (y :: r) k)).Numbers :=
      fun m => Node.emitSeq_numbered c d (y :: r) hk m
    simp only [Node.emitSeq]
    exact Node.emit_numbered c d x htail n

theorem Node.emitArms_numbered (c : Style) (d : Nat) (l : List Node) {k : Cont} (hk : k.Numbers) (n : Nat) :
    Numbered n (Expr.localsAll (Node.emitArms c d l k n).1) (Node.emitArms c d l k n).2 := by
  match l with
  | [] => exact .nil n
  | x :: r =>
    simp only [Node.emitArms, Expr.localsAll, Expr.thunk, Expr.locals]
    exact (Node.emit_numbered c d x hk n).append (Node.emitArms_numbered c d r hk _)
end

end MatcherGen
