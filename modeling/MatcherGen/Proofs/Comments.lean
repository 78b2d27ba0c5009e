/-
The comments of generated code. A body holds no comment but those of stubs, so what its comments say is what the stubs of
the tree say; and no comment stands inside a line.

Main statements:
- `Block.saysOnly_of_valid`: in a valid block no comment stands inside a line, so what its comments say can be told from
  its marks;
- `Session.body_says_stubs`: the comments of a body are the messages of stubs;
- `Session.body_comments`: the comments of a matcher say nothing else than the pattern it is made from.
-/
import MatcherGen.Proofs.Coverage
import MatcherGen.Proofs.Messages

namespace MatcherGen

/-! ## Comments in code -/

/-- the comment of a stub whose message says nothing but printable characters and characters of `s` -/
def SaysOnly (s : List Char) (t : Text) : Prop := ∃ message, t = commentText (Text.ofChars message) ∧ MadeOf s message

mutual
/-- the comments in an expression say only `s`, and none stands before the test of a conditional -/
def Expr.SaysOnly (s : List Char) : Expr → Prop
  | .name _ | .truth _ | .code _ | .text _ | .number _ => True
  | .newMatcher arg => Expr.SaysOnly s arg
  | .method _ args => Expr.AllSayOnly s args
  | .test _ arg => Expr.SaysOnly s arg
  | .func _ body => Stmt.AllSayOnly s body
  | .invoke f => Expr.SaysOnly s f
  | .binary _ left right => Expr.SaysOnly s left ∧ Expr.SaysOnly s right
  | .not e => Expr.SaysOnly s e
  | .paren e => Expr.SaysOnly s e

/-- the comments in several expressions say only `s` -/
def Expr.AllSayOnly (s : List Char) : List Expr → Prop
  | [] => True
  | e :: r => Expr.SaysOnly s e ∧ Expr.AllSayOnly s r

/-- the comments in a statement say only `s` -/
def Stmt.SaysOnly (s : List Char) : Stmt → Prop
  | .comment text => MatcherGen.SaysOnly s text
  | .retNothing | .abort _ => True
  | .define _ value => Expr.SaysOnly s value
  | .ret value => Expr.SaysOnly s value
  | .cond init test body other =>
    Stmt.AllDefineOnly s init ∧ Expr.SaysOnly s test ∧ Stmt.AllSayOnly s body ∧ Stmt.AllSayOnly s other

/-- statements that may stand before a test -/
def Stmt.AllDefineOnly (s : List Char) : List Stmt → Prop
  | [] => True
  | .define _ value :: r => Expr.SaysOnly s value ∧ Stmt.AllDefineOnly s r
  | _ :: _ => False

/-- the comments in a block say only `s` -/
def Stmt.AllSayOnly (s : List Char) : List Stmt → Prop
  | [] => True
  | x :: r => Stmt.SaysOnly s x ∧ Stmt.AllSayOnly s r
end

/-! ## Comments in valid code -/

/-- both sides of an operation have values, or the second is a character literal -/
theorem Expr.kinds_binary {Γ : Scope} {op : BinOp} {left right : Expr} (h : (Expr.binary op left right).kinds Γ ≠ []) :
    left.kinds Γ ≠ [] ∧ (right.kinds Γ ≠ [] ∨ ∃ n, right = .code n) := by
  cases op with
  | or | and =>
    rw [Expr.kinds] at h
    obtain ⟨⟨hleft, hright⟩, -⟩ := ite_ne_right_iff.1 h
    exact ⟨by simp [hleft], .inl (by simp [hright])⟩
  | eq | ge | le =>
    rw [Expr.kinds] at h
    split at h
    · rename_i τ hleft
      obtain ⟨hcompares, -⟩ := ite_ne_right_iff.1 h
      refine ⟨by simp [hleft], .inr ?_⟩
      revert hcompares
      fun_cases Kind.comparesWith τ right with
      | case1 n => exact fun _ => ⟨n, rfl⟩
      | case2 n => exact fun _ => ⟨n, rfl⟩
      | case3 => simp
    · exact absurd rfl h

section Valid

variable {s : List Char}

mutual
theorem Expr.saysOnly_of_kinds (e : Expr) {Γ : Scope} (he : e.kinds Γ ≠ [])
    (h : ∀ t, .note t ∈ e.marks → MatcherGen.SaysOnly s t) : e.SaysOnly s := by
  match e with
  | .name _ | .truth _ | .code _ | .text _ | .number _ => trivial
  | .newMatcher _ => exact absurd rfl he
  | .method m args =>
    rw [Expr.kinds] at he
    obtain ⟨hargs, -⟩ := ite_ne_right_iff.1 he
    refine Expr.allSayOnly_of_kinds args (Γ := Γ) ?_ fun t ht => h t (List.mem_append_right _ ht)
    rw [hargs]
    simp
  | .test _ arg =>
    rw [Expr.kinds] at he
    obtain ⟨harg, -⟩ := ite_ne_right_iff.1 he
    exact Expr.saysOnly_of_kinds arg (Γ := Γ) (by simp [harg]) h
  | .func none body =>
    rw [Expr.kinds] at he
    obtain ⟨hbody, -⟩ := ite_ne_right_iff.1 he
    exact Block.saysOnly_of_valid body hbody h
  | .func (some _) body =>
    rw [Expr.kinds] at he
    obtain ⟨⟨-, hbody⟩, -⟩ := ite_ne_right_iff.1 he
    exact Block.saysOnly_of_valid body hbody h
  | .invoke f =>
    rw [Expr.kinds] at he
    obtain ⟨hf, -⟩ := ite_ne_right_iff.1 he
    exact Expr.saysOnly_of_kinds f (Γ := Γ) (by simp [hf]) h
  | .binary op left right =>
    obtain ⟨hleft, hright⟩ := Expr.kinds_binary he
    refine ⟨Expr.saysOnly_of_kinds left hleft fun t ht => h t (List.mem_append_left _ ht), ?_⟩
    rcases hright with hright | ⟨n, rfl⟩
    · exact Expr.saysOnly_of_kinds right hright fun t ht => h t (List.mem_append_right _ ht)
    · trivial
  | .not e =>
    rw [Expr.kinds] at he
    obtain ⟨hkinds, -⟩ := ite_ne_right_iff.1 he
    exact Expr.saysOnly_of_kinds e (Γ := Γ) (by simp [hkinds]) h
  | .paren e =>
    rw [Expr.kinds] at he
    exact Expr.saysOnly_of_kinds e he h

theorem Expr.allSayOnly_of_kinds (l : List Expr) {Γ : Scope} (hl : ∀ kinds ∈ Expr.kindsAll Γ l, kinds ≠ [])
    (h : ∀ t, .note t ∈ Expr.marksAll l → MatcherGen.SaysOnly s t) : Expr.AllSayOnly s l := by
  match l with
  | [] => trivial
  | e :: r =>
    rw [Expr.kindsAll, List.forall_mem_cons] at hl
    exact ⟨Expr.saysOnly_of_kinds e hl.1 fun t ht => h t (List.mem_append_left _ ht),
      Expr.allSayOnly_of_kinds r hl.2 fun t ht => h t (List.mem_append_right _ ht)⟩

theorem Stmt.saysOnly_of_valid (x : Stmt) {Γ : Scope} (hx : Stmt.valid Γ x = true)
    (h : ∀ t, .note t ∈ x.marks → MatcherGen.SaysOnly s t) : x.SaysOnly s := by
  match x with
  | .comment text => exact h text List.mem_cons_self
  | .retNothing | .abort _ => trivial
  | .define names value =>
    simp only [Stmt.valid, decide_eq_true_eq] at hx
    obtain ⟨hlength, hnames⟩ := hx
    refine Expr.saysOnly_of_kinds value (Γ := Γ) ?_ h
    intro hnone
    exact hnames (List.eq_nil_of_length_eq_zero (by rw [hlength, hnone]; rfl))
  | .ret value =>
    simp only [Stmt.valid, decide_eq_true_eq] at hx
    exact Expr.saysOnly_of_kinds value (Γ := Γ) (by simp [hx]) h
  | .cond init test body other =>
    simp only [Stmt.valid, decide_eq_true_eq] at hx
    obtain ⟨-, hdefine, hinit, -, htest, hbody, hother⟩ := hx
    simp only [Stmt.marks, List.mem_append] at h
    exact ⟨Stmt.allDefineOnly_of_valid init hdefine hinit fun t ht => h t (.inl (.inl (.inl ht))),
      Expr.saysOnly_of_kinds test (Γ := Stmt.afterAll Γ init) (by simp [htest]) fun t ht => h t (.inl (.inl (.inr ht))),
      Block.saysOnly_of_valid body hbody fun t ht => h t (.inl (.inr ht)),
      Block.saysOnly_of_valid other hother fun t ht => h t (.inr ht)⟩

theorem Stmt.allDefineOnly_of_valid (l : List Stmt) {Γ : Scope} (hdefine : l.all Stmt.isDefine = true)
    (hl : Stmt.allValid Γ l = true) (h : ∀ t, .note t ∈ Block.marks l → MatcherGen.SaysOnly s t) :
    Stmt.AllDefineOnly s l := by
  match l with
  | [] => trivial
  | x :: r =>
    rw [List.all_cons, Bool.and_eq_true] at hdefine
    rw [Stmt.allValid, Bool.and_eq_true] at hl
    have hx := Stmt.saysOnly_of_valid x hl.1 fun t ht => h t (List.mem_append_left _ ht)
    have hr := Stmt.allDefineOnly_of_valid r hdefine.2 hl.2 fun t ht => h t (List.mem_append_right _ ht)
    cases x with
    | define names value => exact ⟨hx, hr⟩
    | _ => exact absurd hdefine.1 (by simp [Stmt.isDefine])

/-- **The comments of a valid block say only `s` if its notes do.** The check leaves no room for a comment before a test. -/
theorem Block.saysOnly_of_valid (l : Block) {Γ : Scope} {whole : Bool} (hl : Block.valid Γ whole l = true)
    (h : ∀ t, .note t ∈ Block.marks l → MatcherGen.SaysOnly s t) : Stmt.AllSayOnly s l := by
  match l with
  | [] => trivial
  | x :: r =>
    simp only [Block.valid, Bool.and_eq_true] at hl
    obtain ⟨⟨hx, -⟩, hr⟩ := hl
    refine ⟨Stmt.saysOnly_of_valid x hx fun t ht => h t (List.mem_append_left _ ht), ?_⟩
    split_ifs at hr
    · rw [List.isEmpty_iff.1 hr]
      trivial
    · exact Block.saysOnly_of_valid r hr fun t ht => h t (List.mem_append_right _ ht)
end

end Valid

/-! ## The comments of a matcher -/

/-- the comments of a body are the messages of stubs -/
theorem Session.body_says_stubs (o : Options) {t : Text}
    (h : .note t ∈ Block.marks (Session.start o (Reading.ofPattern o.pattern)).body) :
    ∃ m ∈ (Reading.ofPattern o.pattern).root.stubMessages, t = commentText (Text.ofChars m) := by
  let s := Session.start o (Reading.ofPattern o.pattern)
  obtain ⟨x, hx, hmark⟩ := List.mem_filterMap.1 ((Session.body_marks o).mem_iff.1 h)
  have hnode : x ∈ s.reading.root.nodes := (Reading.root_wellFormed o.pattern).2.made_sublist.subset hx
  have hstub : x.isStub = true := (Node.mark_kind s.style x).2 (by rw [hmark]; rfl)
  cases x with
  | stub message =>
    simp only [Node.mark?, Option.some.injEq, Mark.note.injEq] at hmark
    exact ⟨message, List.mem_filterMap.2 ⟨_, hnode, rfl⟩, hmark.symm⟩
  | _ => exact absurd hstub (by simp [Node.isStub])

/-- **The comments of a matcher say nothing but its pattern.** -/
theorem Session.body_comments (o : Options) :
    Stmt.AllSayOnly o.pattern.chars (Session.start o (Reading.ofPattern o.pattern)).body := by
  have hroot := Reading.root_keeps emittable_kept o.pattern
  refine Block.saysOnly_of_valid _ (Node.emit_valid _ _ hroot (fun _ _ => rfl) (Cont.accept_valid .empty) 0) ?_
  intro t ht
  obtain ⟨m, hm, rfl⟩ := Session.body_says_stubs o ht
  exact ⟨m, rfl, Reading.stubMessages_quote o.pattern m hm⟩

end MatcherGen
