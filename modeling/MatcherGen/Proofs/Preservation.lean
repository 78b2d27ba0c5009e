/-
The code of a tree does what the tree means. The induction is over the tree, for every continuation at once: a
continuation `k` realizes an action in an environment if it names a function that is that action, or if the statements
it makes run as that action, whatever number they are made from. A continuation that is made is made in the scope that
it was handed over in; inner scopes (the arms of a choice, the unit of a repetition) only ever see the name of theirs.

Main statements:
- `Node.run_emit`: the statements of a node run as the meaning of the node;
- `body_runs_as_tree`: so does the body, for every tree whose choices have arms and for every pattern.
-/
import MatcherGen.Proofs.ClassLowering
import MatcherGen.Proofs.Making
import MatcherGen.Proofs.ReaderSteps
import MatcherGen.Session

namespace MatcherGen

variable {σ : Type}

/-! ## Continuations -/

/-- the continuation is the action `κ` in this environment, whatever number it is made from -/
def Cont.Realizes (rt : Runtime σ) (env : Env σ) : Cont → Action σ → Prop
  | .named x, κ => env x = .cont κ
  | .delayed make, κ => ∀ n, Block.run rt env (make n).1 = κ

theorem Cont.accept_realizes (rt : Runtime σ) (env : Env σ) : Cont.accept.Realizes rt env .accept := fun _ => rfl

/-- as a function value the continuation is its action -/
theorem Cont.Realizes.func {rt : Runtime σ} {env : Env σ} {k : Cont} {κ : Action σ} (h : k.Realizes rt env κ)
    (n : Nat) :
    Expr.Is rt env (k.func n).1 (.cont κ) := by
  intro s
  cases k with
  | named x =>
    have hx : env x = .cont κ := h
    simp [Cont.func, Expr.eval, hx]
  | delayed make =>
    simp only [Cont.func, Expr.thunk, Expr.eval]
    rw [← h n, Block.run]

/-- as statements the continuation runs as its action -/
theorem Cont.Realizes.stmts {rt : Runtime σ} {env : Env σ} {k : Cont} {κ : Action σ} (h : k.Realizes rt env κ)
    (n : Nat) :
    Block.run rt env (k.stmts n).1 = κ := by
  cases k with
  | named x =>
    have hx : env x = .cont κ := h
    funext s
    simp [Cont.stmts, Block.run, Stmt.execAll, Stmt.exec, Expr.eval, hx]
  | delayed make => exact h n

/-! ## Leaves -/

theorem run_emitStub (rt : Runtime σ) (c : Style) (message : List Char) {env : Env σ} {k : Cont}
    {κ : Action σ} (h : k.Realizes rt env κ) (n : Nat) :
    Block.run rt env (emitStub c message k n).1 = stubMeaning c message κ := by
  unfold emitStub stubMeaning
  dsimp only
  split_ifs
  · rfl
  · exact h.stmts n

theorem Style.fold_eq (c : Style) (stamp : Bool) :
    c.fold stamp = if c.scope = .positional then stamp else c.flags.fold := by
  unfold Style.fold
  split <;> simp_all

theorem Style.dotAll_eq (c : Style) (stamp : Bool) :
    c.dotAll stamp = if c.scope = .positional then stamp else c.flags.dotAll := by
  unfold Style.dotAll
  split <;> simp_all

theorem run_emitLiteral (rt : Runtime σ) (c : Style) (text : List Char) (fold : Bool) {env : Env σ} {k : Cont}
    {κ : Action σ} (h : k.Realizes rt env κ) (n : Nat) :
    Block.run rt env (emitLiteral c text fold k n).1 =
      rt.literal (if c.scope = .positional then fold else c.flags.fold) text κ := by
  rw [← c.fold_eq]
  match text with
  | [] => exact h.stmts n
  | [x] =>
    have hx : Expr.Is rt env (.code x.toNat) (.number x.toNat) := fun _ => rfl
    exact run_retCall rt _ (.cons hx .nil) (h.func n) _
  | x :: y :: r =>
    have hs : Expr.Is rt env (.text (x :: y :: r)) (.text (x :: y :: r)) := fun _ => rfl
    exact run_retCall rt _ (.cons hs .nil) (h.func n) _

theorem run_emitDot (rt : Runtime σ) (c : Style) (dotAll : Bool) {env : Env σ} {k : Cont} {κ : Action σ}
    (h : k.Realizes rt env κ) (n : Nat) :
    Block.run rt env (emitDot c dotAll k n).1 = (Node.dot dotAll).meaning rt c κ := by
  simp only [Node.meaning, ← c.dotAll_eq]
  unfold emitDot
  split_ifs
  · exact run_skip rt (h.func n) _
  · exact run_retCall rt .any .nil (h.func n) _

theorem run_anchor (rt : Runtime σ) (kind : AnchorKind) {env : Env σ} {k : Cont} {κ : Action σ}
    (h : k.Realizes rt env κ) (n : Nat) : Block.run rt env (retCall kind.method [] k n).1 = rt.anchor kind κ := by
  cases kind <;> exact run_retCall rt _ .nil (h.func n) _

/-! ## Arms -/

/-- the expression is the action: it ends with the truth value that the action ends with -/
def Expr.Runs (rt : Runtime σ) (env : Env σ) (e : Expr) (a : Action σ) : Prop :=
  ∀ s, Expr.eval rt e env s = (a s).lift

theorem runs_or (rt : Runtime σ) {env : Env σ} {e e' : Expr} {a a' : Action σ} (he : Expr.Runs rt env e a)
    (he' : Expr.Runs rt env e' a') : Expr.Runs rt env (.binary .or e e') (firstOf [a, a']) := by
  intro s
  simp only [Expr.eval, he s, firstOf]
  cases ha : a s with
  | panicked m => rfl
  | invalid => rfl
  | value b t =>
    cases b with
    | true => rfl
    | false =>
      simp only [Outcome.lift, Outcome.bind_value, BinOp.apply, he' t]
      cases ha' : a' t with
      | panicked m => rfl
      | invalid => rfl
      | value b' t' => cases b' <;> rfl

theorem firstOf_pair (a a' : Action σ) (l : List (Action σ)) :
    firstOf (firstOf [a, a'] :: l) = firstOf (a :: a' :: l) := by
  funext s
  simp only [firstOf]
  cases ha : a s with
  | panicked m => rfl
  | invalid => rfl
  | value b t =>
    cases b with
    | true => rfl
    | false =>
      simp only
      cases ha' : a' t with
      | panicked m => rfl
      | invalid => rfl
      | value b' t' => cases b' <;> rfl

theorem firstOf_single (a : Action σ) : firstOf [a] = a := by
  funext s
  simp only [firstOf]
  split
  · rename_i s' hs
    rw [hs]
    rfl
  · rfl

/-- expressions joined by "or" are the first of their actions that does not fail -/
theorem foldl_or_runs (rt : Runtime σ) {env : Env σ} {e : Expr} {a : Action σ} {r : List Expr} {l : List (Action σ)}
    (he : Expr.Runs rt env e a) (hr : List.Forall₂ (Expr.Runs rt env) r l) :
    Expr.Runs rt env (r.foldl (.binary .or) e) (firstOf (a :: l)) := by
  induction hr generalizing e a with
  | nil => rw [firstOf_single]; exact he
  | @cons e' a' r l he' _ ih =>
    rw [List.foldl_cons, ← firstOf_pair]
    exact ih (runs_or rt he he')

/-- **Arms joined by "or"** run as the first that does not fail. -/
theorem run_retArms (rt : Runtime σ) {env : Env σ} {tries : List Expr} {l : List (Action σ)}
    (h : List.Forall₂ (Expr.Runs rt env) tries l) (hne : l ≠ []) : Block.run rt env [retArms tries] = firstOf l := by
  cases h with
  | nil => exact absurd rfl hne
  | cons he hr =>
    funext s
    have hs := foldl_or_runs rt he hr s
    simp [Block.run, Stmt.execAll, Stmt.exec, retArms, Expr.orAll, hs]

/-- an arm is a function that is called at once -/
theorem invoke_thunk_runs (rt : Runtime σ) (env : Env σ) (body : Block) :
    Expr.Runs rt env (.invoke (.thunk body)) (Block.run rt env body) := by
  intro s
  simp [Expr.thunk, Expr.eval, Block.run]

/-- arms run alike in two environments that differ only in a name that no arm mentions -/
theorem runs_of_not_mentioned (rt : Runtime σ) {env : Env σ} {x : Ident} {v : Value σ} {tries : List Expr}
    {l : List (Action σ)} (h : List.Forall₂ (Expr.Runs rt (Function.update env x v)) tries l)
    (hx : Expr.anyMentions x tries = false) : List.Forall₂ (Expr.Runs rt env) tries l := by
  induction h with
  | nil => exact .nil
  | @cons e a r l he _ ih =>
    simp only [Expr.anyMentions, Bool.or_eq_false_iff] at hx
    refine .cons (fun s => ?_) (ih hx.2)
    rw [← he s]
    have hagree : Env.Agree (fun y => y ≠ x) env (Function.update env x v) :=
      fun y hy => (Function.update_of_ne hy v env).symm
    refine Expr.eval_congr rt e ?_ hagree s
    rintro y hy rfl
    rw [hx.1] at hy
    exact absurd hy (by simp)

/-! ## Repetitions -/

/-- the driver and the bounds that are emitted are those that are meant -/
theorem repetition_of_driver (rt : Runtime σ) (env : Env σ) (q : Quantity) {m : Method} {bounds : List Expr}
    (hq : q.driver = some (m, bounds)) :
    ∃ vs, List.Forall₂ (Expr.Is rt env) bounds vs ∧
      ∀ u κ, rt.repetition q u κ = some (rt.call m (vs ++ [.unit u, .cont κ])) := by
  obtain ⟨op, lo, hi, greedy⟩ := q
  have hlo : Expr.Is rt env (.number lo.toInt) (.number lo.toInt) := fun _ => rfl
  have hhi : Expr.Is rt env (.number hi.toInt) (.number hi.toInt) := fun _ => rfl
  cases op with
  | star | plus | quest =>
    simp only [Quantity.driver, Option.some.injEq, Prod.mk.injEq] at hq
    obtain ⟨rfl, rfl⟩ := hq
    exact ⟨[], .nil, fun u κ => by cases greedy <;> rfl⟩
  | exact | atLeast =>
    simp only [Quantity.driver, Option.some.injEq, Prod.mk.injEq] at hq
    obtain ⟨rfl, rfl⟩ := hq
    exact ⟨_, .cons hlo .nil, fun u κ => by cases greedy <;> rfl⟩
  | between =>
    simp only [Quantity.driver, Option.some.injEq, Prod.mk.injEq] at hq
    obtain ⟨rfl, rfl⟩ := hq
    exact ⟨_, .cons hlo (.cons hhi .nil), fun u κ => by cases greedy <;> rfl⟩
  | unknown => simp [Quantity.driver] at hq

theorem repetition_of_no_driver (rt : Runtime σ) (q : Quantity) (hq : q.driver = none) (u : Action σ → Action σ)
    (κ : Action σ) : rt.repetition q u κ = none := by
  obtain ⟨op, lo, hi, greedy⟩ := q
  cases op with
  | unknown => cases greedy <;> rfl
  | _ => simp [Quantity.driver] at hq

/-! ## Trees -/

mutual
/-- **The statements of a node run as its meaning**, before whatever the continuation realizes. -/
theorem Node.run_emit (rt : Runtime σ) (c : Style) (x : Node) (hx : x.choicesFilled = true) (d : Nat) (env : Env σ)
    (k : Cont) {κ : Action σ} (hk : k.Realizes rt env κ) (n : Nat) :
    Block.run rt env (x.emit c d k n).1 = x.meaning rt c κ := by
  match x with
  | .absent => simp only [Node.emit, Node.meaning]; exact run_emitStub rt c _ hk n
  | .seq children =>
    simp only [Node.emit, Node.meaning]
    exact Node.run_emitSeq rt c children (by simpa only [Node.choicesFilled] using hx) d env k hk n
  | .alt arms =>
    simp only [Node.choicesFilled, Bool.and_eq_true, Bool.not_eq_true', List.isEmpty_eq_false_iff] at hx
    obtain ⟨hne, hfill⟩ := hx
    have hne' : ∀ κ', Node.meaningArms rt c arms κ' ≠ [] := by
      intro κ'
      cases arms with
      | nil => exact absurd rfl hne
      | cons a r => simp [Node.meaningArms]
    cases hl : c.legacy with
    | true =>
      have harms := Node.run_emitArms rt c arms hfill d env .accept (Cont.accept_realizes rt env) n
      rw [Node.emit_alt_legacy d arms n hl k, run_retArms rt harms (hne' _)]
      simp [Node.meaning, hl]
    | false =>
      have hmeaning : (Node.alt arms).meaning rt c κ = firstOf (Node.meaningArms rt c arms κ) := by
        simp [Node.meaning, hl]
      rw [hmeaning]
      cases k with
      | named y =>
        have harms := Node.run_emitArms rt c arms hfill d env (.named y) hk n
        rw [Node.emit_alt_named d arms n hl y, run_retArms rt harms (hne' κ)]
      | delayed make =>
        -- the arms run where the local is bound to `κ`; the tail itself is made outside that scope
        have hlocal : (Cont.named (.cont n)).Realizes rt (Function.update env (.cont n) (.cont κ)) κ :=
          Function.update_self ..
        have harms := Node.run_emitArms rt c arms hfill d _ (.named (.cont n)) hlocal (n + 1)
        cases hused : Expr.anyMentions (.cont n) (Node.emitArms c d arms (.named (.cont n)) (n + 1)).1 with
        | true =>
          have htail := hk (Node.emitArms c d arms (.named (.cont n)) (n + 1)).2
          rw [Node.emit_alt_used d arms n hl make hused, ← run_retArms rt harms (hne' κ)]
          funext s
          simp only [Block.run] at htail ⊢
          simp only [Stmt.execAll, Stmt.exec, Expr.thunk, Expr.eval, htail, Outcome.bind_value, Env.declare]
        | false =>
          rw [Node.emit_alt_unused d arms n hl make hused]
          exact run_retArms rt (runs_of_not_mentioned rt harms hused) (hne' κ)
  | .group inner _ _ =>
    simp only [Node.emit, Node.meaning]
    exact Node.run_emit rt c inner (by simpa only [Node.choicesFilled] using hx) d env k hk n
  | .lit text fold => simp only [Node.emit, Node.meaning]; exact run_emitLiteral rt c text fold hk n
  | .dot dotAll => simp only [Node.emit]; exact run_emitDot rt c dotAll hk n
  | .anchor kind => simp only [Node.emit, Node.meaning]; exact run_anchor rt kind hk n
  | .cls members => simp only [Node.emit, Node.meaning]; exact run_emitClass rt members (hk.func n)
  | .esc letter => simp only [Node.emit, Node.meaning]; exact run_emitShorthand rt letter (hk.func n)
  | .rep atom q =>
    have hatom : atom.choicesFilled = true := by simpa only [Node.choicesFilled] using hx
    -- inside the unit its parameter is the continuation that the driver hands in
    have hunit : Expr.Is rt env (.func (some (d + 1)) (atom.emit c (d + 1) (.named (.next (d + 1))) n).1)
        (.unit (atom.meaning rt c)) := by
      intro s
      have hbody : ∀ κ', Block.run rt (Function.update env (.next (d + 1)) (.cont κ'))
          (atom.emit c (d + 1) (.named (.next (d + 1))) n).1 = atom.meaning rt c κ' :=
        fun κ' => Node.run_emit rt c atom hatom (d + 1) _ (.named (.next (d + 1))) (Function.update_self ..) n
      simp only [Block.run] at hbody
      simp only [Expr.eval, hbody]
    simp only [Node.emit, Node.meaning]
    cases hq : q.driver with
    | none =>
      rw [repetition_of_no_driver rt q hq]
      exact run_emitStub rt c _ hk _
    | some driver =>
      obtain ⟨m, bounds⟩ := driver
      obtain ⟨vs, hvs, hrep⟩ := repetition_of_driver rt env q hq
      rw [hrep]
      simpa [Block.run] using run_retCall rt m (List.rel_append hvs (.cons hunit .nil)) (hk.func _) fun _ _ => .invalid
  | .stub message => simp only [Node.emit, Node.meaning]; exact run_emitStub rt c message hk n

theorem Node.run_emitSeq (rt : Runtime σ) (c : Style) (l : List Node) (hl : Node.allChoicesFilled l = true) (d : Nat)
    (env : Env σ) (k : Cont) {κ : Action σ} (hk : k.Realizes rt env κ) (n : Nat) :
    Block.run rt env (Node.emitSeq c d l k n).1 = Node.meaningSeq rt c l κ := by
  match l with
  | [] => simp only [Node.emitSeq, Node.meaningSeq]; exact hk.stmts n
  | [x] =>
    simp only [Node.allChoicesFilled, Bool.and_true] at hl
    simp only [Node.emitSeq, Node.meaningSeq]
    exact Node.run_emit rt c x hl d env k hk n
  | x :: y :: r =>
    rw [Node.allChoicesFilled, Bool.and_eq_true] at hl
    simp only [Node.emitSeq]
    rw [Node.meaningSeq]
    exact Node.run_emit rt c x hl.1 d env (.delayed (Node.emitSeq c d (y :: r) k))
      (fun m => Node.run_emitSeq rt c (y :: r) hl.2 d env k hk m) n

theorem Node.run_emitArms (rt : Runtime σ) (c : Style) (l : List Node) (hl : Node.allChoicesFilled l = true) (d : Nat)
    (env : Env σ) (k : Cont) {κ : Action σ} (hk : k.Realizes rt env κ) (n : Nat) :
    List.Forall₂ (Expr.Runs rt env) (Node.emitArms c d l k n).1 (Node.meaningArms rt c l κ) := by
  match l with
  | [] => exact .nil
  | x :: r =>
    rw [Node.allChoicesFilled, Bool.and_eq_true] at hl
    simp only [Node.emitArms, Node.meaningArms]
    refine .cons ?_ (Node.run_emitArms rt c r hl.2 d env k hk _)
    rw [← Node.run_emit rt c x hl.1 d env k hk n]
    exact invoke_thunk_runs rt env _
end

/-! ## Choices that are read have arms -/

theorem Node.allChoicesFilled_iff (l : List Node) :
    Node.allChoicesFilled l = true ↔ ∀ x ∈ l, x.choicesFilled = true := by
  induction l with
  | nil => simp [Node.allChoicesFilled]
  | cons x r ih => simp [Node.allChoicesFilled, ih]

theorem atomPiece_choicesFilled (flags : Flags) (pos : Nat) (c : Char) (s : List Char) :
    (atomPiece flags pos c s).node.choicesFilled = true := by
  unfold atomPiece
  split_ifs
  all_goals try rfl
  -- an escape
  unfold escapePiece
  split
  · rfl
  · dsimp only
    split_ifs <;> rfl

theorem choicesFilled_kept : Node.Kept fun x => x.choicesFilled = true where
  atom := atomPiece_choicesFilled
  stub := fun _ => rfl
  rep := fun _ _ h => h
  group := fun _ _ _ h => h
  seq := fun l h => (Node.allChoicesFilled_iff l).2 h
  alt := by
    intro l hlen h
    have hne : l ≠ [] := by rintro rfl; simp at hlen
    simp [Node.choicesFilled, hne, (Node.allChoicesFilled_iff l).2 h]

/-! ## The body -/

/-- **The body runs as the tree means.** On every runtime and in every environment: for every tree whose choices have
arms, and for every request, whatever its pattern and its options. On a proper runtime the body ends in true, in false
with the position as it was, or in a panic. -/
theorem body_runs_as_tree (rt : Runtime σ) (env : Env σ) :
    (∀ (c : Style) (root : Node), root.choicesFilled = true →
      Block.run rt env (root.body c) = root.meaning rt c .accept) ∧
    (∀ o : Options, let s := Session.start o (Reading.ofPattern o.pattern)
      Block.run rt env s.body = s.reading.root.meaning rt s.style .accept) ∧
    (rt.Proper → ∀ (c : Style) (root : Node), Action.Proper (root.meaning rt c .accept)) := by
  have htree : ∀ (c : Style) (root : Node), root.choicesFilled = true →
      Block.run rt env (root.body c) = root.meaning rt c .accept := fun c root h =>
    Node.run_emit rt c root h 0 env .accept (Cont.accept_realizes rt env) 0
  refine ⟨htree, fun o => ?_, fun hrt c root => Node.meaning_proper hrt c root Action.accept_proper⟩
  exact htree _ _ (Reading.root_keeps choicesFilled_kept o.pattern)

/-! ## A small matcher -/

/-- the outcome, at `s` if it is a failure -/
def Outcome.backTo (s : List Char) : Outcome (List Char) Bool → Outcome (List Char) Bool
  | .value false _ => .value false s
  | o => o

/-- at most `n` repetitions of `u`, as many as possible, each of which takes something -/
def greedyStar (u : Action (List Char) → Action (List Char)) (k : Action (List Char)) : Nat → Action (List Char)
  | 0 => k
  | n + 1 => fun s =>
    match u (fun t => if t.length < s.length then greedyStar u k n t else .value false t) s with
    | .value false _ => k s
    | o => o

/-- single characters and greedy repetition over the rest of a text -/
def plainCall : Method → List (Value (List Char)) → Action (List Char)
  | .char, [.number n, .cont k] => fun s =>
    match s with
    | c :: r => if (c.toNat : Int) = n then (k r).backTo s else .value false s
    | [] => .value false s
  | .skip, [.number 1, .cont k] => fun s =>
    match s with
    | _ :: r => (k r).backTo s
    | [] => .value false s
  | .star, [.unit u, .cont k] => fun s => (greedyStar u k s.length s).backTo s
  | _, _ => .reject

/-- a matcher whose positions are the texts still to come -/
def plainRuntime : Runtime (List Char) where
  current s := s.head?.map fun c => (c.toNat : Int)
  atEnd := List.isEmpty
  peek s := (s.head?.map fun c => (c.toNat : Int)).getD 0
  peekByte s :=
    match s with
    | c :: _ => if c.toNat < 128 then (c.toNat, true) else (0, false)
    | [] => (0, false)
  test _ _ := false
  call := plainCall
  atEnd_iff := by
    intro s
    cases s <;> simp
  peek_eq := by
    intro s c h
    simp [h]
  peekByte_iff := by
    intro s b
    cases s with
    | nil => simp
    | cons c r =>
      simp only [List.head?_cons, Option.map_some, Option.some.injEq]
      split_ifs with h
      · simp only [Prod.mk.injEq, and_true]
        omega
      · simp only [Prod.mk.injEq, Bool.false_eq_true, and_false, false_iff]
        omega

theorem Outcome.backTo_proper (s t : List Char) (o : Outcome (List Char) Bool) (h : o.ProperAt t) :
    (o.backTo s).ProperAt s := by
  cases o with
  | value b u => cases b <;> trivial
  | panicked m => trivial
  | invalid => exact h

theorem greedyStar_proper {u : Action (List Char) → Action (List Char)} {k : Action (List Char)}
    (hu : ∀ k, Action.Proper k → Action.Proper (u k)) (hk : Action.Proper k) (n : Nat) :
    Action.Proper (greedyStar u k n) := by
  induction n with
  | zero => exact hk
  | succ n ih =>
    intro s
    have hnext : Action.Proper fun t => if t.length < s.length then greedyStar u k n t else .value false t := by
      intro t
      dsimp only
      split_ifs
      · exact ih t
      · rfl
    have hstep := hu _ hnext s
    simp only [greedyStar]
    split
    · exact hk s
    · exact hstep

theorem plainRuntime_proper : plainRuntime.Proper := by
  intro m args hargs s
  show (plainCall m args s).ProperAt s
  unfold plainCall
  split
  · rename_i n k
    have hk : Action.Proper k := hargs (.cont k) (by simp)
    cases s with
    | nil => rfl
    | cons c r =>
      dsimp only
      split_ifs
      · exact Outcome.backTo_proper _ r _ (hk r)
      · rfl
  · rename_i k
    have hk : Action.Proper k := hargs (.cont k) (by simp)
    cases s with
    | nil => rfl
    | cons c r => exact Outcome.backTo_proper _ r _ (hk r)
  · rename_i u k
    have hu : ∀ k, Action.Proper k → Action.Proper (u k) := hargs (.unit u) (by simp)
    have hk : Action.Proper k := hargs (.cont k) (by simp)
    exact Outcome.backTo_proper _ s _ (greedyStar_proper hu hk _ s)
  · rfl

/-- a choice between a letter and a class, repeated, then a letter: `(?:a|[b-dß])*e` -/
def repeatedChoice : Node :=
  .seq [.rep (.group (.alt [.seq [.lit ['a'] false],
      .seq [.cls ⟨false, ['ß'.toNat], [⟨'b'.toNat, 'd'.toNat⟩]⟩]]) false []) ⟨.star, 0, 0, true⟩,
    .lit ['e'] false]

/-- on the small matcher the code of the repeated choice takes the whole of `abßae` and turns `abß` down -/
theorem repeatedChoice_runs :
    plainRuntime.Proper ∧ repeatedChoice.choicesFilled = true ∧
    Block.run plainRuntime (fun _ => .truth false) (repeatedChoice.body ⟨.pattern, false, false, ⟨false, false⟩⟩)
      ['a', 'b', 'ß', 'a', 'e'] = .value true [] ∧
    Block.run plainRuntime (fun _ => .truth false) (repeatedChoice.body ⟨.pattern, false, false, ⟨false, false⟩⟩)
      ['a', 'b', 'ß'] = .value false ['a', 'b', 'ß'] ∧
    Action.Proper (repeatedChoice.meaning plainRuntime ⟨.pattern, false, false, ⟨false, false⟩⟩ .accept) := by
  have hfilled : repeatedChoice.choicesFilled = true := by decide
  obtain ⟨htree, -, hproper⟩ := body_runs_as_tree plainRuntime fun _ => .truth false
  rw [htree _ repeatedChoice hfilled]
  exact ⟨plainRuntime_proper, hfilled, rfl, rfl, hproper plainRuntime_proper _ _⟩

end MatcherGen
