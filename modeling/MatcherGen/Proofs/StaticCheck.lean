/-
When generated code is valid: what kind of value each expression has, which names are in scope where, that every local
is used, and that functions end in a return or a panic. The check is a function, so it can be run on any block.

Main statements: `Expr.kinds_congr` and `Block.valid_congr`, names that code does not mention do not matter.
-/
import Mathlib.Tactic
import MatcherGen.Emission.Emit

namespace MatcherGen

/-! ## Kinds -/

/-- what a value is -/
inductive Kind where
  | truth
  | byte
  | rune
  | number
  | text
  /-- a function without parameters that returns a truth value -/
  | cont
  /-- a function from a continuation to a truth value: one repetition -/
  | unit
deriving DecidableEq, Repr

/-- the parameters of a method -/
def Method.params : Method → List Kind
  | .char | .charFold => [.rune, .cont]
  | .string | .stringFold => [.text, .cont]
  | .skip => [.number, .cont]
  | .runMatch | .any | .digit | .word | .lineStart | .lineEnd | .textStart | .textEnd => [.cont]
  | .atEnd | .peek | .peekByte => []
  | .star | .starLazy | .plus | .plusLazy | .optional | .optionalLazy => [.unit, .cont]
  | .exactly | .atLeast | .atLeastLazy => [.number, .unit, .cont]
  | .between | .betweenLazy => [.number, .number, .unit, .cont]

/-- the results of a method -/
def Method.results : Method → List Kind
  | .peek => [.rune]
  | .peekByte => [.byte, .truth]
  | _ => [.truth]

/-- is the number a code point? -/
def isCodePoint (n : Int) : Bool := 0 ≤ n && n ≤ 0x10FFFF

/-- can a value of this kind be compared with the expression? Only with a character literal, and a byte only with one
below the ASCII limit. -/
def Kind.comparesWith : Kind → Expr → Bool
  | .byte, .code n => 0 ≤ n && n < asciiLimit
  | .rune, .code n => isCodePoint n
  | _, _ => false

/-! ## Scopes -/

/-- the names in scope, each with the kind of its value -/
abbrev Scope := Ident → Option Kind

/-- no names -/
def Scope.empty : Scope := fun _ => none

/-- declare a name; the blank is no name -/
def Scope.declare (Γ : Scope) (x : Ident) (τ : Kind) : Scope := if x = .blank then Γ else Function.update Γ x (some τ)

/-- declare names for the values of one expression -/
def Scope.declareAll (Γ : Scope) (names : List Ident) (kinds : List Kind) : Scope :=
  (names.zip kinds).foldl (fun Γ p => Γ.declare p.1 p.2) Γ

/-- the names that a statement declares for the code after it -/
def Stmt.declares : Stmt → List Ident
  | .define names _ => names.filter (· ≠ .blank)
  | _ => []

/-- does the statement leave the function, with a value or by a panic? -/
def Stmt.leaves : Stmt → Bool
  | .ret _ | .abort _ => true
  | _ => false

/-- may the statement stand before the test of a conditional? -/
def Stmt.isDefine : Stmt → Bool
  | .define _ _ => true
  | _ => false

/-! ## The check -/

mutual
/-- the kinds of the values of an expression; none if the expression is not valid -/
def Expr.kinds (Γ : Scope) : Expr → List Kind
  | .name x => (Γ x).toList
  | .truth _ => [.truth]
  | .code n => if isCodePoint n then [.rune] else []
  | .text _ => [.text]
  | .number _ => [.number]
  | .newMatcher _ => []
  | .method m args => if Expr.kindsAll Γ args = m.params.map (fun τ => [τ]) then m.results else []
  | .test _ arg => if Expr.kinds Γ arg = [.rune] then [.truth] else []
  | .func none body => if Block.valid Γ true body then [.cont] else []
  | .func (some d) body =>
    -- the parameter must not hide another of the same name
    if Γ (.next d) = none ∧ Block.valid (Γ.declare (.next d) .cont) true body then [.unit] else []
  | .invoke f => if Expr.kinds Γ f = [.cont] then [.truth] else []
  | .binary .or left right | .binary .and left right =>
    if Expr.kinds Γ left = [.truth] ∧ Expr.kinds Γ right = [.truth] then [.truth] else []
  | .binary .eq left right | .binary .ge left right | .binary .le left right =>
    match Expr.kinds Γ left with
    | [τ] => if τ.comparesWith right then [.truth] else []
    | _ => []
  | .not e => if Expr.kinds Γ e = [.truth] then [.truth] else []
  | .paren e => Expr.kinds Γ e

/-- the kinds of several expressions -/
def Expr.kindsAll (Γ : Scope) : List Expr → List (List Kind)
  | [] => []
  | e :: r => Expr.kinds Γ e :: Expr.kindsAll Γ r

/-- is the statement valid on its own? -/
def Stmt.valid (Γ : Scope) : Stmt → Bool
  | .comment _ | .abort _ => true
  | .define names value => names.length = (Expr.kinds Γ value).length ∧ names ≠ []
  | .ret value => Expr.kinds Γ value = [.truth]
  | .retNothing => false
  | .cond init test body other =>
    -- what is declared before the test is in scope in all three parts, and one of them uses it
    init.length ≤ 1 ∧ init.all Stmt.isDefine ∧ Stmt.allValid Γ init ∧
      (init.flatMap Stmt.declares).all
        (fun x => test.mentions x || Stmt.anyMentions x body || Stmt.anyMentions x other) ∧
      Expr.kinds (Stmt.afterAll Γ init) test = [.truth] ∧
      Block.valid (Stmt.afterAll Γ init) false body ∧ Block.valid (Stmt.afterAll Γ init) false other

/-- the scope after a statement -/
def Stmt.after (Γ : Scope) : Stmt → Scope
  | .define names value => Γ.declareAll names (Expr.kinds Γ value)
  | _ => Γ

/-- are the statements valid one after the other? -/
def Stmt.allValid (Γ : Scope) : List Stmt → Bool
  | [] => true
  | s :: r => Stmt.valid Γ s && Stmt.allValid (Stmt.after Γ s) r

/-- the scope after several statements -/
def Stmt.afterAll (Γ : Scope) : List Stmt → Scope
  | [] => Γ
  | s :: r => Stmt.afterAll (Stmt.after Γ s) r

/-- is the block valid? Every name it declares is used after the declaration, and nothing follows a statement that
leaves the function. The whole body of a function does not fall off its end. -/
def Block.valid (Γ : Scope) (whole : Bool) : List Stmt → Bool
  | [] => !whole
  | s :: r =>
    Stmt.valid Γ s && s.declares.all (fun x => Stmt.anyMentions x r) &&
      if s.leaves then r.isEmpty else Block.valid (Stmt.after Γ s) whole r
end

/-! ## Names that are not mentioned -/

/-- the scopes agree on the names in `P` and on all parameters -/
def Scope.Agree (P : Ident → Prop) (Γ Γ' : Scope) : Prop := ∀ x, (P x ∨ ∃ d, x = .next d) → Γ x = Γ' x

theorem Scope.Agree.declare {P : Ident → Prop} {Γ Γ' : Scope} (h : Scope.Agree P Γ Γ') (x : Ident) (τ : Kind) :
    Scope.Agree P (Γ.declare x τ) (Γ'.declare x τ) := by
  intro y hy
  unfold Scope.declare
  split_ifs
  · exact h y hy
  · by_cases hxy : y = x
    · subst hxy; simp
    · simp [hxy, h y hy]

theorem Scope.Agree.declareAll {P : Ident → Prop} {Γ Γ' : Scope} (h : Scope.Agree P Γ Γ') (names : List Ident)
    (kinds : List Kind) : Scope.Agree P (Γ.declareAll names kinds) (Γ'.declareAll names kinds) := by
  unfold Scope.declareAll
  induction names.zip kinds generalizing Γ Γ' with
  | nil => exact h
  | cons p r ih => exact ih (h.declare p.1 p.2)

section Frame

variable {P : Ident → Prop}

mutual
/-- **The kinds of an expression depend only on the names it mentions**, and on the parameters in scope. -/
theorem Expr.kinds_congr (e : Expr) {Γ Γ' : Scope} (he : ∀ x, Expr.mentions x e = true → P x) (h : Scope.Agree P Γ Γ') :
    Expr.kinds Γ e = Expr.kinds Γ' e := by
  match e with
  | .name x => simp only [Expr.kinds, h x (.inl (he x (by simp [Expr.mentions])))]
  | .truth _ | .code _ | .text _ | .number _ | .newMatcher _ => rfl
  | .method m args =>
    simp only [Expr.kinds]
    rw [Expr.kindsAll_congr args (fun x hx => he x (by simpa only [Expr.mentions] using hx)) h]
  | .test t arg =>
    simp only [Expr.kinds]
    rw [Expr.kinds_congr arg (fun x hx => he x (by simpa only [Expr.mentions] using hx)) h]
  | .func none body =>
    simp only [Expr.kinds]
    rw [Block.valid_congr body true (fun x hx => he x (by simpa only [Expr.mentions] using hx)) h]
  | .func (some d) body =>
    have hbody := Block.valid_congr body true (fun x hx => he x (by simpa only [Expr.mentions] using hx))
      (h.declare (.next d) .cont)
    simp only [Expr.kinds, hbody, h (.next d) (.inr ⟨d, rfl⟩)]
  | .invoke f =>
    simp only [Expr.kinds]
    rw [Expr.kinds_congr f (fun x hx => he x (by simpa only [Expr.mentions] using hx)) h]
  | .binary op left right =>
    have hl := Expr.kinds_congr left (fun x hx => he x (by simp [Expr.mentions, hx])) h
    have hr := Expr.kinds_congr right (fun x hx => he x (by simp [Expr.mentions, hx])) h
    cases op <;> simp only [Expr.kinds, hl, hr]
  | .not e =>
    simp only [Expr.kinds]
    rw [Expr.kinds_congr e (fun x hx => he x (by simpa only [Expr.mentions] using hx)) h]
  | .paren e =>
    simp only [Expr.kinds]
    exact Expr.kinds_congr e (fun x hx => he x (by simpa only [Expr.mentions] using hx)) h

theorem Expr.kindsAll_congr (es : List Expr) {Γ Γ' : Scope} (he : ∀ x, Expr.anyMentions x es = true → P x)
    (h : Scope.Agree P Γ Γ') : Expr.kindsAll Γ es = Expr.kindsAll Γ' es := by
  match es with
  | [] => rfl
  | e :: r =>
    simp only [Expr.kindsAll]
    rw [Expr.kinds_congr e (fun x hx => he x (by simp [Expr.anyMentions, hx])) h,
      Expr.kindsAll_congr r (fun x hx => he x (by simp [Expr.anyMentions, hx])) h]

theorem Stmt.valid_congr (s : Stmt) {Γ Γ' : Scope} (hs : ∀ x, Stmt.mentions x s = true → P x) (h : Scope.Agree P Γ Γ') :
    Stmt.valid Γ s = Stmt.valid Γ' s := by
  match s with
  | .comment _ | .abort _ | .retNothing => rfl
  | .define names value =>
    simp only [Stmt.valid]
    rw [Expr.kinds_congr value (fun x hx => hs x (by simpa only [Stmt.mentions] using hx)) h]
  | .ret value =>
    simp only [Stmt.valid]
    rw [Expr.kinds_congr value (fun x hx => hs x (by simpa only [Stmt.mentions] using hx)) h]
  | .cond init test body other =>
    have hi : ∀ x, Stmt.anyMentions x init = true → P x := fun x hx => hs x (by simp [Stmt.mentions, hx])
    have hscope := Stmt.afterAll_congr init hi h
    have htest := Expr.kinds_congr test (fun x hx => hs x (by simp [Stmt.mentions, hx])) hscope
    have hbody := Block.valid_congr body false (fun x hx => hs x (by simp [Stmt.mentions, hx])) hscope
    have hother := Block.valid_congr other false (fun x hx => hs x (by simp [Stmt.mentions, hx])) hscope
    simp only [Stmt.valid, Stmt.allValid_congr init hi h, htest, hbody, hother]

theorem Stmt.after_congr (s : Stmt) {Γ Γ' : Scope} (hs : ∀ x, Stmt.mentions x s = true → P x) (h : Scope.Agree P Γ Γ') :
    Scope.Agree P (Stmt.after Γ s) (Stmt.after Γ' s) := by
  match s with
  | .comment _ | .abort _ | .retNothing | .ret _ | .cond _ _ _ _ => exact h
  | .define names value =>
    simp only [Stmt.after]
    rw [Expr.kinds_congr value (fun x hx => hs x (by simpa only [Stmt.mentions] using hx)) h]
    exact h.declareAll names _

theorem Stmt.allValid_congr (l : List Stmt) {Γ Γ' : Scope} (hl : ∀ x, Stmt.anyMentions x l = true → P x)
    (h : Scope.Agree P Γ Γ') : Stmt.allValid Γ l = Stmt.allValid Γ' l := by
  match l with
  | [] => rfl
  | s :: r =>
    have hs : ∀ x, Stmt.mentions x s = true → P x := fun x hx => hl x (by simp [Stmt.anyMentions, hx])
    simp only [Stmt.allValid]
    rw [Stmt.valid_congr s hs h,
      Stmt.allValid_congr r (fun x hx => hl x (by simp [Stmt.anyMentions, hx])) (Stmt.after_congr s hs h)]

theorem Stmt.afterAll_congr (l : List Stmt) {Γ Γ' : Scope} (hl : ∀ x, Stmt.anyMentions x l = true → P x)
    (h : Scope.Agree P Γ Γ') : Scope.Agree P (Stmt.afterAll Γ l) (Stmt.afterAll Γ' l) := by
  match l with
  | [] => exact h
  | s :: r =>
    have hs : ∀ x, Stmt.mentions x s = true → P x := fun x hx => hl x (by simp [Stmt.anyMentions, hx])
    simp only [Stmt.afterAll]
    exact Stmt.afterAll_congr r (fun x hx => hl x (by simp [Stmt.anyMentions, hx])) (Stmt.after_congr s hs h)

theorem Block.valid_congr (l : List Stmt) (whole : Bool) {Γ Γ' : Scope} (hl : ∀ x, Stmt.anyMentions x l = true → P x)
    (h : Scope.Agree P Γ Γ') : Block.valid Γ whole l = Block.valid Γ' whole l := by
  match l with
  | [] => rfl
  | s :: r =>
    have hs : ∀ x, Stmt.mentions x s = true → P x := fun x hx => hl x (by simp [Stmt.anyMentions, hx])
    simp only [Block.valid]
    rw [Stmt.valid_congr s hs h,
      Block.valid_congr r whole (fun x hx => hl x (by simp [Stmt.anyMentions, hx])) (Stmt.after_congr s hs h)]
end

end Frame

end MatcherGen
