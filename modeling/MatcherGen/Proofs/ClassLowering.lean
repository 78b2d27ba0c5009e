/-
Class tests run as membership. A class is split at 128 into members compared with the byte and members compared with the
character; each side becomes a constant or one test, and the six shapes of `classCheck` put them together again.

Main statements:
- `CharClass.asciiSide_has`, `CharClass.wideSide_has`: each side has the members of the class on its side of the limit;
- `ClassSide.rejection_means`: the rejection of a side is "membership equals the complement mark";
- `execAll_classCheck`: the six shapes together turn down exactly what the sides turn down;
- `run_emitClass`, `run_emitShorthand`: the statements of a class take one character that the class holds.
-/
import MatcherGen.Proofs.Making
import MatcherGen.Proofs.Meaning

namespace MatcherGen

variable {σ : Type}

/-! ## Expressions that move nothing -/

/-- the expression has the value `v` at every position and leaves the position alone -/
def Expr.Is (rt : Runtime σ) (env : Env σ) (e : Expr) (v : Value σ) : Prop := ∀ s, Expr.eval rt e env s = .value v s

theorem Expr.evalAll_is (rt : Runtime σ) {env : Env σ} {es : List Expr} {vs : List (Value σ)}
    (h : List.Forall₂ (Expr.Is rt env) es vs) (s : σ) : Expr.evalAll rt es env s = .value vs s := by
  induction h with
  | nil => rfl
  | cons he _ ih => simp [Expr.evalAll, he s, ih]

/-- a returned call of a method on constants and a continuation is the method -/
theorem run_retMethod (rt : Runtime σ) {env : Env σ} (m : Method) {args : List Expr} {vs : List (Value σ)} {f : Expr}
    {v : Value σ} (hargs : List.Forall₂ (Expr.Is rt env) args vs) (hf : Expr.Is rt env f v)
    (after : Env σ → Action σ) :
    Stmt.execAll rt [.ret (.method m (args ++ [f]))] env after = rt.call m (vs ++ [v]) := by
  have hall : List.Forall₂ (Expr.Is rt env) (args ++ [f]) (vs ++ [v]) :=
    List.rel_append hargs (List.Forall₂.cons hf List.Forall₂.nil)
  funext s
  simp [Stmt.execAll, Stmt.exec, Expr.eval, Expr.evalAll_is rt hall s]

theorem execAll_failStmt (rt : Runtime σ) (r : List Stmt) (env : Env σ) (after : Env σ → Action σ) (s : σ) :
    Stmt.execAll rt (failStmt :: r) env after s = .value false s := by
  simp [failStmt, Stmt.execAll, Stmt.exec, Expr.eval, Outcome.lower]

/-! ## The two sides of a class -/

/-- is the number a member of the side? -/
def ClassSide.has (s : ClassSide) (n : Int) : Bool :=
  s.singles.contains n || s.ranges.any fun r => decide (r.lo ≤ n) && decide (n ≤ r.hi)

theorem ClassRange.asciiPart_any (r : ClassRange) {n : Int} (hn : n < 128) :
    (r.asciiPart.any fun r => decide (r.lo ≤ n) && decide (n ≤ r.hi)) = (decide (r.lo ≤ n) && decide (n ≤ r.hi)) := by
  unfold ClassRange.asciiPart asciiLimit
  split_ifs <;> simp only [List.any_cons, List.any_nil, Bool.or_false, ← Bool.decide_and, Bool.false_eq,
    decide_eq_false_iff_not, decide_eq_decide]
  all_goals omega

theorem ClassRange.widePart_any (r : ClassRange) {n : Int} (hn : 128 ≤ n) :
    (r.widePart.any fun r => decide (r.lo ≤ n) && decide (n ≤ r.hi)) = (decide (r.lo ≤ n) && decide (n ≤ r.hi)) := by
  unfold ClassRange.widePart asciiLimit
  split_ifs <;> simp only [List.any_cons, List.any_nil, Bool.or_false, ← Bool.decide_and, Bool.false_eq,
    decide_eq_false_iff_not, decide_eq_decide]
  all_goals omega

theorem contains_filter_of (p : Int → Bool) (l : List Int) {n : Int} (hn : p n = true) :
    (l.filter p).contains n = l.contains n := by
  rw [Bool.eq_iff_iff]
  simp [hn]

/-- below the limit a character is in the ASCII side if it is in the class, before the complement -/
theorem CharClass.asciiSide_has (c : CharClass) {n : Int} (hn : n < 128) :
    (c.asciiSide.has n != c.negated) = c.holds n := by
  have hs : (c.singles.filter fun m : Int => m < asciiLimit).contains n = c.singles.contains n :=
    contains_filter_of _ _ (decide_eq_true hn)
  have hr : ((c.ranges.flatMap ClassRange.asciiPart).any fun r => decide (r.lo ≤ n) && decide (n ≤ r.hi)) =
      c.ranges.any fun r => decide (r.lo ≤ n) && decide (n ≤ r.hi) := by
    rw [List.any_flatMap]
    simp only [ClassRange.asciiPart_any _ hn]
  simp only [CharClass.asciiSide, ClassSide.has, CharClass.holds, hs, hr]

/-- from the limit on a character is in the other side if it is in the class, before the complement -/
theorem CharClass.wideSide_has (c : CharClass) {n : Int} (hn : 128 ≤ n) :
    (c.wideSide.has n != c.negated) = c.holds n := by
  have hs : (c.singles.filter fun m => (asciiLimit : Int) ≤ m).contains n = c.singles.contains n :=
    contains_filter_of _ _ (decide_eq_true hn)
  have hr : ((c.ranges.flatMap ClassRange.widePart).any fun r => decide (r.lo ≤ n) && decide (n ≤ r.hi)) =
      c.ranges.any fun r => decide (r.lo ≤ n) && decide (n ≤ r.hi) := by
    rw [List.any_flatMap]
    simp only [ClassRange.widePart_any _ hn]
  simp only [CharClass.wideSide, ClassSide.has, CharClass.holds, hs, hr]

/-! ## Tests of one side -/

/-- the rejection turns down exactly the numbers that satisfy `p`, where `subject` names the number -/
def Rejection.Means (rt : Runtime σ) (subject : Ident) (p : Int → Bool) : Rejection → Prop
  | .always => ∀ n, p n = true
  | .never => ∀ n, p n = false
  | .when test => ∀ (env : Env σ) (n : Int), env subject = .number n → Expr.Is rt env test (.truth (p n))

/-- tests that move nothing, joined by "or", are the disjunction of their values -/
theorem orAll_is (rt : Runtime σ) {env : Env σ} {e : Expr} {r : List Expr} {b : Bool} {bs : List Bool}
    (he : Expr.Is rt env e (.truth b)) (hr : List.Forall₂ (fun e b => Expr.Is rt env e (.truth b)) r bs) :
    Expr.Is rt env (r.foldl (.binary .or) e) (.truth (b || bs.any id)) := by
  induction hr generalizing e b with
  | nil => simpa using he
  | @cons e' b' r bs he' _ ih =>
    have hor : Expr.Is rt env (.binary .or e e') (.truth (b || b')) := by
      intro s
      cases b <;> simp [Expr.eval, he s, BinOp.apply, he' s]
    simpa [Bool.or_assoc] using ih hor

theorem single_test_is (rt : Runtime σ) {env : Env σ} {subject : Ident} {n : Int} (h : env subject = .number n)
    (m : Int) :
    Expr.Is rt env (.binary .eq (.name subject) (.code m)) (.truth (n == m)) := by
  intro s
  simp [Expr.eval, h, BinOp.apply]

theorem range_test_is (rt : Runtime σ) {env : Env σ} {subject : Ident} {n : Int} (h : env subject = .number n)
    (r : ClassRange) :
    Expr.Is rt env
      (.paren (.binary .and (.binary .ge (.name subject) (.code r.lo)) (.binary .le (.name subject) (.code r.hi))))
      (.truth (decide (r.lo ≤ n) && decide (n ≤ r.hi))) := by
  intro s
  by_cases hlo : r.lo ≤ n
  · simp [Expr.eval, h, BinOp.apply, hlo]
  · simp [Expr.eval, h, BinOp.apply, hlo]

/-- the tests of a side, each with its value -/
theorem tests_are (rt : Runtime σ) {env : Env σ} {subject : Ident} {n : Int} (h : env subject = .number n)
    (side : ClassSide) :
    List.Forall₂ (fun e b => Expr.Is rt env e (.truth b)) (side.tests subject)
      (side.singles.map (fun m => n == m) ++ side.ranges.map fun r => decide (r.lo ≤ n) && decide (n ≤ r.hi)) := by
  unfold ClassSide.tests
  refine List.rel_append ?_ ?_
  · rw [List.forall₂_map_left_iff, List.forall₂_map_right_iff, List.forall₂_same]
    exact fun m _ => single_test_is rt h m
  · rw [List.forall₂_map_left_iff, List.forall₂_map_right_iff, List.forall₂_same]
    exact fun r _ => range_test_is rt h r

theorem ClassSide.has_eq_any (side : ClassSide) (n : Int) :
    side.has n = (side.singles.map (fun m => n == m) ++
      side.ranges.map fun r => decide (r.lo ≤ n) && decide (n ≤ r.hi)).any id := by
  simp only [ClassSide.has, List.any_append, List.any_map, Function.comp_def, id_eq, List.contains_eq_any_beq]

/-- **The rejection of a side** is that membership equals the complement mark. -/
theorem ClassSide.rejection_means (rt : Runtime σ) (side : ClassSide) (subject : Ident) (negated : Bool) :
    (side.rejection subject negated).Means rt subject fun n => side.has n == negated := by
  unfold ClassSide.rejection
  cases htests : side.tests subject with
  | nil =>
    -- without tests there are no members
    have hempty : ∀ n, side.has n = false := by
      intro n
      have hnil : side.singles = [] ∧ side.ranges = [] := by simpa [ClassSide.tests] using htests
      simp [ClassSide.has, hnil.1, hnil.2]
    cases negated <;> simp [Expr.orAll, Rejection.Means, hempty]
  | cons e r =>
    have hmember : ∀ (env : Env σ) (n : Int), env subject = .number n →
        Expr.Is rt env (r.foldl (.binary .or) e) (.truth (side.has n)) := by
      intro env n h
      have hall := tests_are rt h side
      rw [htests] at hall
      rw [ClassSide.has_eq_any]
      generalize side.singles.map (fun m => n == m) ++ side.ranges.map _ = bs at hall ⊢
      cases hall with
      | cons he hr => simpa using orAll_is rt he hr
    cases negated with
    | true =>
      intro env n h
      simpa using hmember env n h
    | false =>
      intro env n h s
      simp [Expr.eval, hmember env n h s]

/-! ## The shapes of a class check -/

/-- a conditional whose declaration gives `env'` and whose test has a value goes on in one of its branches -/
theorem execAll_cond (rt : Runtime σ) {init : List Stmt} {test : Expr} (body other r : Block) {env env' : Env σ}
    (after : Env σ → Action σ) {s : σ} {b : Bool} (hinit : ∀ K, Stmt.execAll rt init env K s = K env' s)
    (ht : Expr.eval rt test env' s = .value (.truth b) s) :
    Stmt.execAll rt (.cond init test body other :: r) env after s =
      Stmt.execAll rt (if b then body else other) env' (fun _ => Stmt.execAll rt r env after) s := by
  simp only [Stmt.execAll, Stmt.exec, hinit, ht, Outcome.bind_value]
  cases b <;> rfl

theorem execAll_peek (rt : Runtime σ) (env : Env σ) {s : σ} {c : Int} (hc : rt.current s = some c)
    (K : Env σ → Action σ) :
    Stmt.execAll rt [.define [.rune] (.method .peek [])] env K s = K (Function.update env .rune (.number c)) s := by
  simp [Stmt.execAll, Stmt.exec, Expr.eval, Expr.evalAll, Runtime.invoke, Env.declare, rt.peek_eq s c hc]

/-- the names that a look at the byte declares -/
def lookEnv (env : Env σ) (x : Ident) (b : Int × Bool) : Env σ :=
  Function.update (if x = .blank then env else Function.update env x (.number b.1)) .ok (.truth b.2)

theorem execAll_peekByte (rt : Runtime σ) (env : Env σ) (x : Ident) (s : σ) (K : Env σ → Action σ) :
    Stmt.execAll rt [.define [x, .ok] (.method .peekByte [])] env K s = K (lookEnv env x (rt.peekByte s)) s := by
  simp [Stmt.execAll, Stmt.exec, Expr.eval, Expr.evalAll, Runtime.invoke, Env.declare, lookEnv]

theorem Runtime.peekByte_ascii (rt : Runtime σ) {s : σ} {c : Int} (hc : rt.current s = some c) (h : c < 128) :
    rt.peekByte s = (c, true) := (rt.peekByte_iff s c).2 ⟨hc, h⟩

theorem Runtime.peekByte_wide (rt : Runtime σ) {s : σ} {c : Int} (hc : rt.current s = some c) (h : 128 ≤ c) :
    (rt.peekByte s).2 = false := by
  by_contra hok
  obtain ⟨hb, hlt⟩ := (rt.peekByte_iff s (rt.peekByte s).1).1 (Prod.ext rfl (by simpa using hok))
  rw [hc, Option.some.injEq] at hb
  omega

theorem execAll_failAtEnd (rt : Runtime σ) (r : Block) (env : Env σ) (after : Env σ → Action σ) (s : σ) :
    Stmt.execAll rt (failAtEnd :: r) env after s =
      if rt.current s = none then .value false s else Stmt.execAll rt r env after s := by
  have ht : Expr.eval rt (.method .atEnd []) env s = .value (.truth (rt.atEnd s)) s := by
    simp [Expr.eval, Expr.evalAll, Runtime.invoke]
  rw [failAtEnd, execAll_cond rt _ _ _ _ (fun _ => rfl) ht]
  by_cases hend : rt.current s = none
  · rw [(rt.atEnd_iff s).2 hend, if_pos hend]
    exact execAll_failStmt rt _ _ _ _
  · have hfalse : rt.atEnd s = false := by
      rw [Bool.eq_false_iff]
      exact fun h => hend ((rt.atEnd_iff s).1 h)
    rw [hfalse, if_neg hend]
    rfl

theorem execAll_asciiStmts (rt : Runtime σ) {a : Rejection} {p : Int → Bool} (ha : a.Means rt .byte p) (env : Env σ)
    (after : Env σ → Action σ) (s : σ) {c : Int} (hb : ∀ t, a = .when t → env .byte = .number c) :
    Stmt.execAll rt a.asciiStmts env after s = if p c then .value false s else after env s := by
  cases a with
  | always => simp [Rejection.asciiStmts, execAll_failStmt, ha c]
  | never => simp [Rejection.asciiStmts, Stmt.execAll, ha c]
  | «when» t =>
    rw [Rejection.asciiStmts, execAll_cond rt _ _ _ _ (fun _ => rfl) (ha env c (hb t rfl) s)]
    cases p c with
    | true => exact execAll_failStmt rt _ _ _ _
    | false => rfl

theorem execAll_wideStmts (rt : Runtime σ) {w : Rejection} {p : Int → Bool} (hw : w.Means rt .rune p) (env : Env σ)
    (after : Env σ → Action σ) {s : σ} {c : Int} (hc : rt.current s = some c) :
    Stmt.execAll rt w.wideStmts env after s = if p c then .value false s else after env s := by
  cases w with
  | always => simp [Rejection.wideStmts, execAll_failStmt, hw c]
  | never => simp [Rejection.wideStmts, Stmt.execAll, hw c]
  | «when» t =>
    rw [Rejection.wideStmts, execAll_cond rt _ _ _ _ (execAll_peek rt env hc) (hw _ c (by simp) s)]
    cases p c with
    | true => exact execAll_failStmt rt _ _ _ _
    | false => rfl

theorem ok_is (rt : Runtime σ) (env : Env σ) (x : Ident) (b : Int × Bool) :
    Expr.Is rt (lookEnv env x b) (.name .ok) (.truth b.2) := by
  intro s
  simp [Expr.eval, lookEnv]

theorem not_ok_is (rt : Runtime σ) (env : Env σ) (x : Ident) (b : Int × Bool) :
    Expr.Is rt (lookEnv env x b) (.not (.name .ok)) (.truth !b.2) := by
  intro s
  simp [Expr.eval, lookEnv]

/-- a look at the byte that branches on `ok` -/
theorem execAll_byteBranch (rt : Runtime σ) {ascii wide : Rejection} {pa pw : Int → Bool} (ha : ascii.Means rt .byte pa)
    (hw : wide.Means rt .rune pw) (x : Ident) (hx : ∀ t, ascii = .when t → x = .byte) (r : Block) (env : Env σ)
    (after : Env σ → Action σ) {s : σ} {c : Int} (hc : rt.current s = some c) :
    Stmt.execAll rt (.cond [.define [x, .ok] (.method .peekByte [])] (.name .ok) ascii.asciiStmts wide.wideStmts :: r)
        env after s =
      if (if c < 128 then pa c else pw c) then .value false s else Stmt.execAll rt r env after s := by
  rw [execAll_cond rt _ _ _ _ (execAll_peekByte rt env x s) (ok_is rt env x _ s)]
  by_cases h : c < 128
  · have hb : ∀ t, ascii = .when t → lookEnv env x (c, true) .byte = .number c := by
      intro t ht
      simp [lookEnv, hx t ht]
    simp only [rt.peekByte_ascii hc h, if_true, h]
    exact execAll_asciiStmts rt ha _ _ s hb
  · simp only [rt.peekByte_wide hc (by omega), h, if_false, Bool.false_eq_true]
    exact execAll_wideStmts rt hw _ _ hc

/-- **The shapes of a class check together** turn a character down exactly if its side does. -/
theorem execAll_classCheck (rt : Runtime σ) {ascii wide : Rejection} {pa pw : Int → Bool} (ha : ascii.Means rt .byte pa)
    (hw : wide.Means rt .rune pw) (r : Block) (env : Env σ) (after : Env σ → Action σ) {s : σ} {c : Int}
    (hc : rt.current s = some c) :
    Stmt.execAll rt (classCheck ascii wide ++ r) env after s =
      if (if c < 128 then pa c else pw c) then .value false s else Stmt.execAll rt r env after s := by
  have hnever (w : Rejection) (hw : w.Means rt .rune pw) (hp : pa c = false) :
      Stmt.execAll rt (.cond [.define [.blank, .ok] (.method .peekByte [])] (.not (.name .ok)) w.wideStmts [] :: r)
        env after s =
      if (if c < 128 then pa c else pw c) then .value false s else Stmt.execAll rt r env after s := by
    rw [execAll_cond rt _ _ _ _ (execAll_peekByte rt env .blank s) (not_ok_is rt env .blank _ s)]
    by_cases h : c < 128
    · simp [rt.peekByte_ascii hc h, h, hp, Stmt.execAll]
    · simp only [rt.peekByte_wide hc (by omega), h, if_false, Bool.not_false, if_true]
      exact execAll_wideStmts rt hw _ _ hc
  match ascii, wide with
  | .never, .never => simp [classCheck, ha c, hw c]
  | .never, .always => exact hnever _ hw (ha c)
  | .never, .when t => exact hnever _ hw (ha c)
  | .always, .never => exact execAll_byteBranch rt ha hw .blank (by simp) r env after hc
  | .always, .always => exact execAll_byteBranch rt ha hw .blank (by simp) r env after hc
  | .always, .when t => exact execAll_byteBranch rt ha hw .blank (by simp) r env after hc
  | .when t, .never => exact execAll_byteBranch rt ha hw .byte (by simp) r env after hc
  | .when t, .always => exact execAll_byteBranch rt ha hw .byte (by simp) r env after hc
  | .when t, .when u => exact execAll_byteBranch rt ha hw .byte (by simp) r env after hc

/-- the statements of a class, before those that take the character: fail unless the class holds the character -/
theorem execAll_classStmts (rt : Runtime σ) (c : CharClass) (r : Block) (env : Env σ) (after : Env σ → Action σ)
    (s : σ) :
    Stmt.execAll rt (failAtEnd :: (classCheck (c.asciiSide.rejection .byte c.negated)
        (c.wideSide.rejection .rune c.negated) ++ r)) env after s =
      match rt.current s with
      | none => .value false s
      | some n => if c.holds n then Stmt.execAll rt r env after s else .value false s := by
  rw [execAll_failAtEnd]
  cases hc : rt.current s with
  | none => simp
  | some n =>
    simp only [reduceCtorEq, if_false]
    rw [execAll_classCheck rt (ClassSide.rejection_means rt _ _ _) (ClassSide.rejection_means rt _ _ _) r env after hc]
    have hrej : (if n < 128 then c.asciiSide.has n == c.negated else c.wideSide.has n == c.negated) = !c.holds n := by
      split_ifs with h
      · rw [← c.asciiSide_has h]; simp [bne]
      · rw [← c.wideSide_has (by omega)]; simp [bne]
    rw [hrej]
    cases c.holds n <;> simp

/-- a class whose sides both turn everything down holds nothing -/
theorem CharClass.holds_eq_false (rt : Runtime σ) (c : CharClass) (ha : c.asciiSide.rejection .byte c.negated = .always)
    (hw : c.wideSide.rejection .rune c.negated = .always) (n : Int) : c.holds n = false := by
  have h1 := ClassSide.rejection_means rt c.asciiSide .byte c.negated
  have h2 := ClassSide.rejection_means rt c.wideSide .rune c.negated
  rw [ha] at h1
  rw [hw] at h2
  by_cases h : n < 128
  · rw [← c.asciiSide_has h]; simpa [bne] using h1 n
  · rw [← c.wideSide_has (by omega)]; simpa [bne] using h2 n

/-! ## Nodes that take one character -/

theorem run_retCall (rt : Runtime σ) {env : Env σ} (m : Method) {args : List Expr} {vs : List (Value σ)} {k : Cont}
    {n : Nat} {κ : Action σ} (hargs : List.Forall₂ (Expr.Is rt env) args vs)
    (hk : Expr.Is rt env (k.func n).1 (.cont κ)) (after : Env σ → Action σ) :
    Stmt.execAll rt (retCall m args k n).1 env after = rt.call m (vs ++ [.cont κ]) :=
  run_retMethod rt m hargs hk after

theorem run_skip (rt : Runtime σ) {env : Env σ} {k : Cont} {n : Nat} {κ : Action σ}
    (hk : Expr.Is rt env (k.func n).1 (.cont κ)) (after : Env σ → Action σ) :
    Stmt.execAll rt (retCall .skip [.number 1] k n).1 env after = rt.call .skip [.number 1, .cont κ] :=
  run_retCall rt .skip (.cons (fun _ => rfl) .nil) hk after

/-- **A class takes one character that it holds**, complement counted, and fails at the end of the input. -/
theorem run_emitClass (rt : Runtime σ) {env : Env σ} (c : CharClass) {k : Cont} {n : Nat} {κ : Action σ}
    (hk : Expr.Is rt env (k.func n).1 (.cont κ)) : Block.run rt env (emitClass c k n).1 = rt.takeOne c.holds κ := by
  funext s
  unfold Block.run emitClass
  split
  · rename_i ha hw
    have hfalse := c.holds_eq_false rt ha hw
    rw [execAll_failStmt]
    cases hc : rt.current s <;> simp [Runtime.takeOne, hc, hfalse]
  · rw [execAll_classStmts, run_skip rt hk]
    rfl

/-- the test of a shorthand class on the current character -/
theorem shorthandTest_is (rt : Runtime σ) (env : Env σ) (n : Int) (h : env .rune = .number n) (letter : Char) :
    Expr.Is rt env (shorthandTest letter) (.truth
      (if letter = 'D' then rt.test .isDigit n
        else if letter = 'W' then rt.test .isLetter n || rt.test .isDigit n || n == ('_'.toNat : Int)
        else rt.test .isSpace n)) := by
  intro s
  unfold shorthandTest
  by_cases hD : letter = 'D'
  · simp [hD, Expr.eval, h]
  · by_cases hW : letter = 'W'
    · cases h1 : rt.test .isLetter n <;> cases h2 : rt.test .isDigit n <;> simp [hW, Expr.eval, h, BinOp.apply, h1, h2]
    · simp [hD, hW, Expr.eval, h]

/-- the check of a shorthand class: fail at the end and where the test says so, else go on -/
theorem execAll_peekCheck (rt : Runtime σ) {env : Env σ} {rejects : Expr} {p : Int → Bool}
    (hrej : ∀ m : Int, Expr.Is rt (Function.update env .rune (.number m)) rejects (.truth (p m))) {k : Cont} {n : Nat}
    {κ : Action σ} (hk : Expr.Is rt env (k.func n).1 (.cont κ)) (after : Env σ → Action σ) :
    Stmt.execAll rt (failAtEnd :: .cond [.define [.rune] (.method .peek [])] rejects [failStmt] [] ::
        (retCall .skip [.number 1] k n).1) env after =
      rt.takeOne (fun m => !p m) κ := by
  funext s
  rw [execAll_failAtEnd]
  cases hc : rt.current s with
  | none => simp [Runtime.takeOne, hc]
  | some m =>
    rw [if_neg (by simp), execAll_cond rt _ _ _ _ (execAll_peek rt env hc) (hrej m s), run_skip rt hk]
    cases hp : p m with
    | true => simp [Runtime.takeOne, hc, hp, execAll_failStmt]
    | false => simp [Runtime.takeOne, hc, hp, Stmt.execAll]

/-- **A shorthand class** is its method or takes one character that passes its test. -/
theorem run_emitShorthand (rt : Runtime σ) {env : Env σ} (letter : Char) {k : Cont} {n : Nat} {κ : Action σ}
    (hk : Expr.Is rt env (k.func n).1 (.cont κ)) :
    Block.run rt env (emitShorthand letter k n).1 = rt.shorthand letter κ := by
  by_cases hd : letter = 'd'
  · subst hd
    exact run_retCall rt .digit .nil hk _
  by_cases hw : letter = 'w'
  · subst hw
    exact run_retCall rt .word .nil hk _
  rw [emitShorthand_test letter k n hd hw]
  unfold Block.run Runtime.shorthand
  simp only [hd, hw, if_false]
  have htest := fun m : Int => shorthandTest_is rt (Function.update env .rune (.number m)) m (by simp) letter
  -- the complement letters turn down what passes, the others what does not
  by_cases hD : letter = 'D'
  · subst hD
    exact execAll_peekCheck rt htest hk _
  by_cases hW : letter = 'W'
  · subst hW
    exact execAll_peekCheck rt htest hk _
  simp only [hD, hW, if_false] at htest ⊢
  by_cases hS : letter = 'S'
  · subst hS
    exact execAll_peekCheck rt htest hk _
  have hnot : ∀ m : Int, Expr.Is rt (Function.update env .rune (.number m)) (.not (shorthandTest letter))
      (.truth (!rt.test .isSpace m)) := by
    intro m s
    simp [Expr.eval, htest m s]
  simpa [isNegatedLetter, hD, hW, hS] using execAll_peekCheck rt hnot hk _

end MatcherGen
