/-
What a tree means on a runtime, told without code. `Node.meaning` goes over the tree: a sequence is its children one
after the other, each with the rest as its continuation; a choice tries its arms up to the first that does not fail; a
repetition hands its atom to the driver of its operator. `legacy` gives every arm the accepting continuation, `strict`
makes a stub panic.

Main statement: `Node.meaning_proper`, on a proper runtime a tree ends in true, in false with the position as it was,
or in a panic. So every arm of a choice starts where the choice started.
-/
import MatcherGen.Emission.Emit
import MatcherGen.Proofs.Execution

namespace MatcherGen

variable {σ : Type}

/-! ## Parts -/

/-- the first of the actions that does not fail; the next one starts where a failed one left off -/
def firstOf : List (Action σ) → Action σ
  | [] => .reject
  | a :: r => fun s =>
    match a s with
    | .value false s' => firstOf r s'
    | o => o

/-- is the number a member of the class, complement counted? -/
def CharClass.holds (c : CharClass) (n : Int) : Bool :=
  (c.singles.contains n || c.ranges.any fun r => decide (r.lo ≤ n) && decide (n ≤ r.hi)) != c.negated

namespace Runtime

/-- take one character that passes `p`, then run `k` -/
def takeOne (rt : Runtime σ) (p : Int → Bool) (k : Action σ) : Action σ := fun s =>
  match rt.current s with
  | none => .value false s
  | some c => if p c then rt.call .skip [.number 1, .cont k] s else .value false s

/-- a shorthand class; letters other than the six test for space -/
def shorthand (rt : Runtime σ) (letter : Char) (k : Action σ) : Action σ :=
  if letter = 'd' then rt.call .digit [.cont k]
  else if letter = 'w' then rt.call .word [.cont k]
  else if letter = 'D' then rt.takeOne (fun n => !rt.test .isDigit n) k
  else if letter = 'W' then
    rt.takeOne (fun n => !(rt.test .isLetter n || rt.test .isDigit n || n == ('_'.toNat : Int))) k
  else if letter = 'S' then rt.takeOne (fun n => !rt.test .isSpace n) k
  else rt.takeOne (rt.test .isSpace) k

/-- a repetition of `u`, then `k`; nothing for an operator that nobody knows -/
def repetition (rt : Runtime σ) (q : Quantity) (u : Action σ → Action σ) (k : Action σ) : Option (Action σ) :=
  let lo : Value σ := .number q.min.toInt
  let hi : Value σ := .number q.max.toInt
  match q.op, q.greedy with
  | .star, true => some (rt.call .star [.unit u, .cont k])
  | .star, false => some (rt.call .starLazy [.unit u, .cont k])
  | .plus, true => some (rt.call .plus [.unit u, .cont k])
  | .plus, false => some (rt.call .plusLazy [.unit u, .cont k])
  | .quest, true => some (rt.call .optional [.unit u, .cont k])
  | .quest, false => some (rt.call .optionalLazy [.unit u, .cont k])
  | .exact, _ => some (rt.call .exactly [lo, .unit u, .cont k])
  | .atLeast, true => some (rt.call .atLeast [lo, .unit u, .cont k])
  | .atLeast, false => some (rt.call .atLeastLazy [lo, .unit u, .cont k])
  | .between, true => some (rt.call .between [lo, hi, .unit u, .cont k])
  | .between, false => some (rt.call .betweenLazy [lo, hi, .unit u, .cont k])
  | .unknown, _ => none

/-- a literal text, without regard to case if `fold`; the empty one matches at once -/
def literal (rt : Runtime σ) (fold : Bool) (text : List Char) (k : Action σ) : Action σ :=
  match text with
  | [] => k
  | [x] => rt.call (if fold then .charFold else .char) [.number x.toNat, .cont k]
  | s => rt.call (if fold then .stringFold else .string) [.text s, .cont k]

/-- an anchor -/
def anchor (rt : Runtime σ) (kind : AnchorKind) (k : Action σ) : Action σ :=
  match kind with
  | .lineStart => rt.call .lineStart [.cont k]
  | .lineEnd => rt.call .lineEnd [.cont k]
  | .textStart => rt.call .textStart [.cont k]
  | .textEnd => rt.call .textEnd [.cont k]

end Runtime

/-- a construct without a rendering: a panic if stubs are strict, else the empty match -/
def stubMeaning (c : Style) (message : List Char) (k : Action σ) : Action σ :=
  if c.strict then fun _ => .panicked ("regcps: ".toList ++ message) else k

/-! ## Trees -/

mutual
/-- what a node does before `k` -/
def Node.meaning (rt : Runtime σ) (c : Style) : Node → Action σ → Action σ
  | .absent, k => stubMeaning c "unknown node <nil>".toList k
  | .seq children, k => Node.meaningSeq rt c children k
  | .alt arms, k => firstOf (Node.meaningArms rt c arms (if c.legacy then .accept else k))
  | .group inner _ _, k => inner.meaning rt c k
  | .lit text fold, k => rt.literal (if c.scope = .positional then fold else c.flags.fold) text k
  | .dot dotAll, k =>
    if (if c.scope = .positional then dotAll else c.flags.dotAll) then rt.call .skip [.number 1, .cont k]
    else rt.call .any [.cont k]
  | .anchor kind, k => rt.anchor kind k
  | .cls members, k => rt.takeOne members.holds k
  | .esc letter, k => rt.shorthand letter k
  | .rep atom q, k =>
    (rt.repetition q (atom.meaning rt c) k).getD
      (stubMeaning c ("unknown repetition ".toList ++ q.op.label.toList) k)
  | .stub message, k => stubMeaning c message k

/-- the nodes one after the other, then `k` -/
def Node.meaningSeq (rt : Runtime σ) (c : Style) : List Node → Action σ → Action σ
  | [], k => k
  | x :: r, k => x.meaning rt c (Node.meaningSeq rt c r k)

/-- every node with the same continuation -/
def Node.meaningArms (rt : Runtime σ) (c : Style) : List Node → Action σ → List (Action σ)
  | [], _ => []
  | x :: r, k => x.meaning rt c k :: Node.meaningArms rt c r k
end

mutual
/-- does every choice have an arm? A choice without arms has no code that returns a value -/
def Node.choicesFilled : Node → Bool
  | .seq children => Node.allChoicesFilled children
  | .alt arms => !arms.isEmpty && Node.allChoicesFilled arms
  | .group inner _ _ => inner.choicesFilled
  | .rep atom _ => atom.choicesFilled
  | .absent | .lit _ _ | .dot _ | .anchor _ | .cls _ | .esc _ | .stub _ => true

/-- `choicesFilled` of all the nodes -/
def Node.allChoicesFilled : List Node → Bool
  | [] => true
  | x :: r => x.choicesFilled && Node.allChoicesFilled r
end

/-! ## A tree is proper -/

theorem firstOf_proper (l : List (Action σ)) (h : ∀ a ∈ l, Action.Proper a) : Action.Proper (firstOf l) := by
  induction l with
  | nil => exact Action.reject_proper
  | cons a r ih =>
    intro s
    have ha := h a List.mem_cons_self s
    have hr := ih fun b hb => h b (List.mem_cons_of_mem a hb)
    simp only [firstOf]
    split
    · rename_i s' hs
      rw [hs] at ha
      have hpos : s' = s := ha
      subst hpos
      exact hr s'
    · exact ha

section Proper

variable {rt : Runtime σ} (hrt : rt.Proper)
include hrt

theorem Runtime.Proper.call_cont (m : Method) {k : Action σ} (hk : Action.Proper k) :
    Action.Proper (rt.call m [.cont k]) :=
  hrt m _ (by simpa [Value.Proper] using hk)

theorem Runtime.Proper.takeOne (p : Int → Bool) {k : Action σ} (hk : Action.Proper k) :
    Action.Proper (rt.takeOne p k) := by
  intro s
  have hskip := hrt .skip [.number 1, .cont k] (by simpa [Value.Proper] using hk) s
  simp only [Runtime.takeOne]
  split
  · rfl
  · split_ifs
    · exact hskip
    · rfl

theorem Runtime.Proper.shorthand (letter : Char) {k : Action σ} (hk : Action.Proper k) :
    Action.Proper (rt.shorthand letter k) := by
  unfold Runtime.shorthand
  split_ifs
  · exact hrt.call_cont _ hk
  · exact hrt.call_cont _ hk
  · exact hrt.takeOne _ hk
  · exact hrt.takeOne _ hk
  · exact hrt.takeOne _ hk
  · exact hrt.takeOne _ hk

theorem Runtime.Proper.repetition (q : Quantity) {u : Action σ → Action σ} {k : Action σ}
    (hu : ∀ k, Action.Proper k → Action.Proper (u k)) (hk : Action.Proper k) :
    ∀ a ∈ rt.repetition q u k, Action.Proper a := by
  intro a ha
  unfold Runtime.repetition at ha
  split at ha
  all_goals
    simp only [Option.mem_def, Option.some.injEq, reduceCtorEq] at ha
  all_goals
    subst ha
    refine hrt _ _ fun v hv => ?_
    simp only [List.mem_cons, List.not_mem_nil, or_false] at hv
    rcases hv with rfl | rfl | rfl | rfl <;> first | exact hu | exact hk | exact trivial

theorem Runtime.Proper.literal (fold : Bool) (text : List Char) {k : Action σ} (hk : Action.Proper k) :
    Action.Proper (rt.literal fold text k) := by
  unfold Runtime.literal
  split
  · exact hk
  · exact hrt _ _ (by simpa [Value.Proper] using hk)
  · exact hrt _ _ (by simpa [Value.Proper] using hk)

theorem Runtime.Proper.anchor (kind : AnchorKind) {k : Action σ} (hk : Action.Proper k) :
    Action.Proper (rt.anchor kind k) := by
  cases kind <;> exact hrt.call_cont _ hk

end Proper

theorem stubMeaning_proper (c : Style) (message : List Char) {k : Action σ} (hk : Action.Proper k) :
    Action.Proper (stubMeaning c message k) := by
  unfold stubMeaning
  split_ifs
  · exact fun _ => trivial
  · exact hk

mutual
/-- **A tree is proper** whenever its continuation is: it ends in true, in false with the position as it was, or in a
panic. -/
theorem Node.meaning_proper {rt : Runtime σ} (hrt : rt.Proper) (c : Style) (n : Node) {k : Action σ}
    (hk : Action.Proper k) :
    Action.Proper (n.meaning rt c k) := by
  match n with
  | .absent => simp only [Node.meaning]; exact stubMeaning_proper c _ hk
  | .seq children => simp only [Node.meaning]; exact Node.meaningSeq_proper hrt c children hk
  | .alt arms =>
    simp only [Node.meaning]
    refine firstOf_proper _ (Node.meaningArms_proper hrt c arms ?_)
    split_ifs
    · exact Action.accept_proper
    · exact hk
  | .group inner _ _ => simp only [Node.meaning]; exact Node.meaning_proper hrt c inner hk
  | .lit text fold => simp only [Node.meaning]; exact hrt.literal _ _ hk
  | .dot dotAll =>
    simp only [Node.meaning]
    split_ifs
    · exact hrt _ _ (by simpa [Value.Proper] using hk)
    · exact hrt.call_cont _ hk
    · exact hrt _ _ (by simpa [Value.Proper] using hk)
    · exact hrt.call_cont _ hk
  | .anchor kind => simp only [Node.meaning]; exact hrt.anchor kind hk
  | .cls members => simp only [Node.meaning]; exact hrt.takeOne _ hk
  | .esc letter => simp only [Node.meaning]; exact hrt.shorthand letter hk
  | .rep atom q =>
    simp only [Node.meaning]
    have hu : ∀ k, Action.Proper k → Action.Proper (atom.meaning rt c k) := fun k h => Node.meaning_proper hrt c atom h
    cases hq : rt.repetition q (atom.meaning rt c) k with
    | none => exact stubMeaning_proper c _ hk
    | some a => exact hrt.repetition q hu hk a hq
  | .stub message => simp only [Node.meaning]; exact stubMeaning_proper c message hk

theorem Node.meaningSeq_proper {rt : Runtime σ} (hrt : rt.Proper) (c : Style) (l : List Node) {k : Action σ}
    (hk : Action.Proper k) :
    Action.Proper (Node.meaningSeq rt c l k) := by
  match l with
  | [] => exact hk
  | x :: r => exact Node.meaning_proper hrt c x (Node.meaningSeq_proper hrt c r hk)

theorem Node.meaningArms_proper {rt : Runtime σ} (hrt : rt.Proper) (c : Style) (l : List Node) {k : Action σ}
    (hk : Action.Proper k) :
    ∀ a ∈ Node.meaningArms rt c l k, Action.Proper a := by
  match l with
  | [] => simp [Node.meaningArms]
  | x :: r =>
    intro a ha
    simp only [Node.meaningArms, List.mem_cons] at ha
    rcases ha with rfl | ha
    · exact Node.meaning_proper hrt c x hk
    · exact Node.meaningArms_proper hrt c r hk a ha
end

end MatcherGen
