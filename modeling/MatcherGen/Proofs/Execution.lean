/-
What generated code does when it runs. The methods of the matcher are not part of this library, so code runs on a
`Runtime`: any type of positions, any function for each method. Truth values, numbers, texts, continuations and
repetition units are the values. Every call hands on the position, also one that fails.

What a runtime promises (its proof fields): `atEnd`, `peek` and `peekByte` describe the current character and move
nothing. A runtime is `Proper` if its methods, given proper continuations, end in true, in false with the position as
it was, or in a panic. Code that no compiler accepts (a function without a return, a call of what is no function) ends
`invalid`, which no proper call does.

Main statements: `Expr.eval_congr` and `Stmt.execAll_congr`, code depends only on the names it mentions.
-/
import Mathlib.Tactic
import MatcherGen.Code.Expr

namespace MatcherGen

/-! ## Outcomes and values -/

/-- how a run ends -/
inductive Outcome (σ α : Type) where
  /-- with a value, at a position -/
  | value (v : α) (s : σ)
  | panicked (message : List Char)
  /-- nowhere: no compiler accepts the code -/
  | invalid

/-- a function without parameters that returns a truth value -/
abbrev Action (σ : Type) := σ → Outcome σ Bool

/-- what a name or an argument stands for -/
inductive Value (σ : Type) where
  | truth (b : Bool)
  | number (n : Int)
  | text (s : List Char)
  | cont (k : Action σ)
  /-- a repetition unit, from the continuation after one repetition -/
  | unit (u : Action σ → Action σ)
  /-- a byte and whether there is one -/
  | byteOk (b : Int) (ok : Bool)

/-- what the names in scope stand for -/
abbrev Env (σ : Type) := Ident → Value σ

variable {σ : Type}

namespace Outcome

/-- go on with the value and the position -/
def bind {α β : Type} (o : Outcome σ α) (f : α → σ → Outcome σ β) : Outcome σ β :=
  match o with
  | .value v s => f v s
  | .panicked m => .panicked m
  | .invalid => .invalid

@[simp] theorem bind_value {α β : Type} (v : α) (s : σ) (f : α → σ → Outcome σ β) :
    (Outcome.value v s).bind f = f v s := rfl

@[simp] theorem bind_panicked {α β : Type} (m : List Char) (f : α → σ → Outcome σ β) :
    (Outcome.panicked m : Outcome σ α).bind f = .panicked m := rfl

@[simp] theorem bind_invalid {α β : Type} (f : α → σ → Outcome σ β) :
    (Outcome.invalid : Outcome σ α).bind f = .invalid := rfl

/-- a truth value as a value -/
def lift (o : Outcome σ Bool) : Outcome σ (Value σ) := o.bind fun b s => .value (.truth b) s

/-- a value as a truth value -/
def lower (o : Outcome σ (Value σ)) : Outcome σ Bool :=
  o.bind fun v s =>
    match v with
    | .truth b => .value b s
    | _ => .invalid

@[simp] theorem lower_lift (o : Outcome σ Bool) : o.lift.lower = o := by cases o <;> rfl

/-- true, false with the position as it was, or a panic; `s` is the position before -/
def ProperAt (s : σ) : Outcome σ Bool → Prop
  | .value true _ => True
  | .value false s' => s' = s
  | .panicked _ => True
  | .invalid => False

end Outcome

/-- from every position: true, false with the position as it was, or a panic -/
def Action.Proper (a : Action σ) : Prop := ∀ s, (a s).ProperAt s

/-- an argument that a method can rely on -/
def Value.Proper : Value σ → Prop
  | .cont k => Action.Proper k
  | .unit u => ∀ k, Action.Proper k → Action.Proper (u k)
  | _ => True

/-- report a match -/
def Action.accept : Action σ := fun s => .value true s

/-- report a failure -/
def Action.reject : Action σ := fun s => .value false s

theorem Action.accept_proper : Action.Proper (Action.accept : Action σ) := fun _ => trivial

theorem Action.reject_proper : Action.Proper (Action.reject : Action σ) := fun _ => rfl

/-! ## The runtime -/

/-- the matcher that code runs on -/
structure Runtime (σ : Type) where
  /-- the character at a position, none at the end of the input -/
  current : σ → Option Int
  atEnd : σ → Bool
  peek : σ → Int
  peekByte : σ → Int × Bool
  /-- the predicates on characters -/
  test : CharTest → Int → Bool
  /-- the matching methods and the repetition drivers -/
  call : Method → List (Value σ) → Action σ
  atEnd_iff : ∀ s, atEnd s = true ↔ current s = none
  peek_eq : ∀ s c, current s = some c → peek s = c
  peekByte_iff : ∀ s b, peekByte s = (b, true) ↔ current s = some b ∧ b < 128

/-- methods that get proper arguments are proper -/
def Runtime.Proper (rt : Runtime σ) : Prop :=
  ∀ m args, (∀ v ∈ args, Value.Proper v) → Action.Proper (rt.call m args)

/-- a method call on values -/
def Runtime.invoke (rt : Runtime σ) : Method → List (Value σ) → σ → Outcome σ (Value σ)
  | .atEnd, [], s => .value (.truth (rt.atEnd s)) s
  | .peek, [], s => .value (.number (rt.peek s)) s
  | .peekByte, [], s => .value (.byteOk (rt.peekByte s).1 (rt.peekByte s).2) s
  | m, args, s => (rt.call m args s).lift

@[simp] theorem Runtime.invoke_concat (rt : Runtime σ) (m : Method) (vs : List (Value σ)) (v : Value σ) (s : σ) :
    rt.invoke m (vs ++ [v]) s = (rt.call m (vs ++ [v]) s).lift := by
  cases vs <;> cases m <;> rfl

/-! ## Running code -/

/-- declare names; the blank name stays unset -/
def Env.declare (env : Env σ) : List Ident → Value σ → Option (Env σ)
  | [x], v => some (Function.update env x v)
  | [x, y], .byteOk b ok =>
    let env' := if x = .blank then env else Function.update env x (.number b)
    some (Function.update env' y (.truth ok))
  | _, _ => none

/-- a binary operator on the value of its left side; the right side runs only where it is needed -/
def BinOp.apply (op : BinOp) (left : Value σ) (s : σ) (right : σ → Outcome σ (Value σ)) : Outcome σ (Value σ) :=
  match op, left with
  | .or, .truth true => .value (.truth true) s
  | .or, .truth false => right s
  | .and, .truth true => right s
  | .and, .truth false => .value (.truth false) s
  | op, .number a => (right s).bind fun w s' =>
    match op, w with
    | .eq, .number b => .value (.truth (a == b)) s'
    | .ge, .number b => .value (.truth (decide (b ≤ a))) s'
    | .le, .number b => .value (.truth (decide (a ≤ b))) s'
    | _, _ => .invalid
  | _, _ => .invalid

mutual
/-- the value of an expression -/
def Expr.eval (rt : Runtime σ) : Expr → Env σ → σ → Outcome σ (Value σ)
  | .name x, env, s => .value (env x) s
  | .truth b, _, s => .value (.truth b) s
  | .code n, _, s => .value (.number n) s
  | .text t, _, s => .value (.text t) s
  | .number n, _, s => .value (.number n) s
  -- the matcher is made before the body runs
  | .newMatcher _, _, _ => .invalid
  | .method m args, env, s => (Expr.evalAll rt args env s).bind fun vs s' => rt.invoke m vs s'
  | .test t arg, env, s => (Expr.eval rt arg env s).bind fun v s' =>
    match v with
    | .number n => .value (.truth (rt.test t n)) s'
    | _ => .invalid
  | .func none body, env, s => .value (.cont (Stmt.execAll rt body env fun _ _ => .invalid)) s
  | .func (some d) body, env, s =>
    .value (.unit fun k => Stmt.execAll rt body (Function.update env (.next d) (.cont k)) fun _ _ => .invalid) s
  | .invoke f, env, s => (Expr.eval rt f env s).bind fun v s' =>
    match v with
    | .cont k => (k s').lift
    | _ => .invalid
  | .binary op left right, env, s =>
    (Expr.eval rt left env s).bind fun v s' => op.apply v s' fun s'' => Expr.eval rt right env s''
  | .not e, env, s => (Expr.eval rt e env s).bind fun v s' =>
    match v with
    | .truth b => .value (.truth (!b)) s'
    | _ => .invalid
  | .paren e, env, s => Expr.eval rt e env s

/-- the values of expressions, from the left -/
def Expr.evalAll (rt : Runtime σ) : List Expr → Env σ → σ → Outcome σ (List (Value σ))
  | [], _, s => .value [] s
  | e :: r, env, s => (Expr.eval rt e env s).bind fun v s' =>
    (Expr.evalAll rt r env s').bind fun vs s'' => .value (v :: vs) s''

/-- run a statement; where it does not return, `after` goes on with the names declared so far -/
def Stmt.exec (rt : Runtime σ) : Stmt → Env σ → (Env σ → Action σ) → Action σ
  | .comment _, env, after => after env
  | .define xs e, env, after => fun s => (Expr.eval rt e env s).bind fun v s' =>
    match env.declare xs v with
    | some env' => after env' s'
    | none => .invalid
  | .ret e, env, _ => fun s => (Expr.eval rt e env s).lower
  | .retNothing, _, _ => fun _ => .invalid
  | .abort m, _, _ => fun _ => .panicked m
  | .cond init test body other, env, after => Stmt.execAll rt init env fun env' s =>
    (Expr.eval rt test env' s).bind fun v s' =>
      match v with
      -- what a branch declares ends with it
      | .truth true => Stmt.execAll rt body env' (fun _ => after env) s'
      | .truth false => Stmt.execAll rt other env' (fun _ => after env) s'
      | _ => .invalid

/-- run statements one after the other -/
def Stmt.execAll (rt : Runtime σ) : List Stmt → Env σ → (Env σ → Action σ) → Action σ
  | [], env, after => after env
  | x :: r, env, after => Stmt.exec rt x env fun env' => Stmt.execAll rt r env' after
end

/-- run a function body -/
def Block.run (rt : Runtime σ) (env : Env σ) (b : Block) : Action σ := Stmt.execAll rt b env fun _ _ => .invalid

/-! ## Names that code does not mention -/

/-- the environments agree on the names that satisfy `P` -/
def Env.Agree (P : Ident → Prop) (env env' : Env σ) : Prop := ∀ x, P x → env x = env' x

theorem Env.Agree.update {P : Ident → Prop} {env env' : Env σ} (h : Env.Agree P env env') (x : Ident) (v : Value σ) :
    Env.Agree P (Function.update env x v) (Function.update env' x v) := by
  intro y hy
  by_cases hyx : y = x
  · subst hyx; simp
  · simp [Function.update_of_ne hyx, h y hy]

theorem Env.Agree.declare {P : Ident → Prop} {env env' : Env σ} (h : Env.Agree P env env') (xs : List Ident)
    (v : Value σ) :
    (env.declare xs v = none ∧ env'.declare xs v = none) ∨
      ∃ e e', env.declare xs v = some e ∧ env'.declare xs v = some e' ∧ Env.Agree P e e' := by
  match xs, v with
  | [], _ => exact Or.inl ⟨rfl, rfl⟩
  | [x], v => exact Or.inr ⟨_, _, rfl, rfl, h.update x v⟩
  | [x, y], .byteOk b ok =>
    refine Or.inr ⟨_, _, rfl, rfl, ?_⟩
    split_ifs
    · exact h.update y _
    · exact (h.update x _).update y _
  | [_, _], .truth _ | [_, _], .number _ | [_, _], .text _ | [_, _], .cont _ | [_, _], .unit _ =>
    exact Or.inl ⟨rfl, rfl⟩
  | _ :: _ :: _ :: _, _ => exact Or.inl ⟨rfl, rfl⟩

mutual
/-- **An expression depends only on the names it mentions.** -/
theorem Expr.eval_congr (rt : Runtime σ) {P : Ident → Prop} (e : Expr) {env env' : Env σ}
    (he : ∀ x, Expr.mentions x e = true → P x) (h : Env.Agree P env env') (s : σ) :
    Expr.eval rt e env s = Expr.eval rt e env' s := by
  match e with
  | .name x => simp only [Expr.eval, h x (he x (by simp [Expr.mentions]))]
  | .truth _ | .code _ | .text _ | .number _ | .newMatcher _ => rfl
  | .method m args =>
    simp only [Expr.eval]
    rw [Expr.evalAll_congr rt args (fun x hx => he x (by simpa only [Expr.mentions] using hx)) h s]
  | .test t arg =>
    simp only [Expr.eval]
    rw [Expr.eval_congr rt arg (fun x hx => he x (by simpa only [Expr.mentions] using hx)) h s]
  | .func none body =>
    simp only [Expr.eval]
    rw [Stmt.execAll_congr rt body (fun x hx => he x (by simpa only [Expr.mentions] using hx)) h fun _ _ _ => rfl]
  | .func (some d) body =>
    simp only [Expr.eval]
    congr 2
    funext k
    exact Stmt.execAll_congr rt body (fun x hx => he x (by simpa only [Expr.mentions] using hx)) (h.update _ _)
      fun _ _ _ => rfl
  | .invoke f =>
    simp only [Expr.eval]
    rw [Expr.eval_congr rt f (fun x hx => he x (by simpa only [Expr.mentions] using hx)) h s]
  | .binary op left right =>
    have hl : ∀ x, Expr.mentions x left = true → P x := fun x hx => he x (by simp [Expr.mentions, hx])
    have hr : ∀ x, Expr.mentions x right = true → P x := fun x hx => he x (by simp [Expr.mentions, hx])
    simp only [Expr.eval]
    rw [Expr.eval_congr rt left hl h s]
    have hright : Expr.eval rt right env = Expr.eval rt right env' := funext fun s' => Expr.eval_congr rt right hr h s'
    rw [hright]
  | .not e =>
    simp only [Expr.eval]
    rw [Expr.eval_congr rt e (fun x hx => he x (by simpa only [Expr.mentions] using hx)) h s]
  | .paren e =>
    simp only [Expr.eval]
    exact Expr.eval_congr rt e (fun x hx => he x (by simpa only [Expr.mentions] using hx)) h s

theorem Expr.evalAll_congr (rt : Runtime σ) {P : Ident → Prop} (es : List Expr) {env env' : Env σ}
    (he : ∀ x, Expr.anyMentions x es = true → P x) (h : Env.Agree P env env') (s : σ) :
    Expr.evalAll rt es env s = Expr.evalAll rt es env' s := by
  match es with
  | [] => rfl
  | e :: r =>
    have hr : Expr.evalAll rt r env = Expr.evalAll rt r env' :=
      funext fun s' => Expr.evalAll_congr rt r (fun x hx => he x (by simp [Expr.anyMentions, hx])) h s'
    simp only [Expr.evalAll]
    rw [Expr.eval_congr rt e (fun x hx => he x (by simp [Expr.anyMentions, hx])) h s, hr]

theorem Stmt.exec_congr (rt : Runtime σ) {P : Ident → Prop} (x : Stmt) {env env' : Env σ}
    {after after' : Env σ → Action σ} (hx : ∀ y, Stmt.mentions y x = true → P y) (h : Env.Agree P env env')
    (hafter : ∀ e e', Env.Agree P e e' → after e = after' e') :
    Stmt.exec rt x env after = Stmt.exec rt x env' after' := by
  match x with
  | .comment _ => exact hafter _ _ h
  | .define xs e =>
    funext s
    simp only [Stmt.exec]
    rw [Expr.eval_congr rt e (fun y hy => hx y (by simpa only [Stmt.mentions] using hy)) h s]
    congr 1
    funext v s'
    rcases h.declare xs v with ⟨h1, h2⟩ | ⟨e₁, e₂, h1, h2, ha⟩
    · rw [h1, h2]
    · rw [h1, h2]; exact congrFun (hafter _ _ ha) s'
  | .ret e =>
    funext s
    simp only [Stmt.exec]
    rw [Expr.eval_congr rt e (fun y hy => hx y (by simpa only [Stmt.mentions] using hy)) h s]
  | .retNothing | .abort _ => rfl
  | .cond init test body other =>
    have hi : ∀ y, Stmt.anyMentions y init = true → P y := fun y hy => hx y (by simp [Stmt.mentions, hy])
    have ht : ∀ y, Expr.mentions y test = true → P y := fun y hy => hx y (by simp [Stmt.mentions, hy])
    have hb : ∀ y, Stmt.anyMentions y body = true → P y := fun y hy => hx y (by simp [Stmt.mentions, hy])
    have ho : ∀ y, Stmt.anyMentions y other = true → P y := fun y hy => hx y (by simp [Stmt.mentions, hy])
    simp only [Stmt.exec]
    -- a branch sees the names of `init`, what comes after sees those from before
    refine Stmt.execAll_congr rt init hi h fun e₁ e₂ ha => ?_
    funext s
    rw [Expr.eval_congr rt test ht ha s]
    have h1 := Stmt.execAll_congr rt body hb ha fun _ _ _ => hafter _ _ h
    have h2 := Stmt.execAll_congr rt other ho ha fun _ _ _ => hafter _ _ h
    rw [h1, h2]

theorem Stmt.execAll_congr (rt : Runtime σ) {P : Ident → Prop} (b : List Stmt) {env env' : Env σ}
    {after after' : Env σ → Action σ} (hb : ∀ y, Stmt.anyMentions y b = true → P y) (h : Env.Agree P env env')
    (hafter : ∀ e e', Env.Agree P e e' → after e = after' e') :
    Stmt.execAll rt b env after = Stmt.execAll rt b env' after' := by
  match b with
  | [] => exact hafter _ _ h
  | x :: r =>
    simp only [Stmt.execAll]
    refine Stmt.exec_congr rt x (fun y hy => hb y (by simp [Stmt.anyMentions, hy])) h fun e₁ e₂ ha => ?_
    exact Stmt.execAll_congr rt r (fun y hy => hb y (by simp [Stmt.anyMentions, hy])) ha hafter
end

end MatcherGen
