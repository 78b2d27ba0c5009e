/-
Which nodes of a tree get code. Code is made on demand, and a node asks for the code of what follows it at most once: a
choice binds it to a local that all arms share. So no node is emitted twice. What follows a node is dropped if the node
does not pass: a strict stub, a void class, and a choice whose arms accept on their own or do not pass. Everything else is
emitted.

Main statements:
- `Node.WellFormed.emit_mentions`: the code of a node refers to its continuation exactly if the node passes;
- `Node.WellFormed.emit_marks`: it shows the nodes that are made, each once, and then the continuation if the node
  passes;
- `Node.WellFormed.made_sublist`, `Node.WellFormed.made_eq_nodes`: the nodes that are made are nodes of the tree, and all
  of them if every node passes;
- `Session.body_marks`: the body of a matcher shows the nodes of its tree that are made;
- `nodes_show_once`: the calls and the comments of every body.
-/
import MatcherGen.Proofs.Marks

namespace MatcherGen

variable {c : Style}

/-! ## The nodes that are made -/

mutual
/-- does the code of the node go on with what follows it? -/
def Node.passes (c : Style) : Node → Bool
  | .seq children => Node.allPass c children
  | .alt arms => !c.legacy && Node.anyPasses c arms
  | .group inner _ _ => inner.passes c
  | .cls members => !members.isVoid
  | .absent | .stub _ => !c.strict
  | .lit _ _ | .dot _ | .anchor _ | .esc _ | .rep _ _ => true

/-- does every node of a sequence pass? -/
def Node.allPass (c : Style) : List Node → Bool
  | [] => true
  | x :: r => x.passes c && Node.allPass c r

/-- does an arm of a choice pass? -/
def Node.anyPasses (c : Style) : List Node → Bool
  | [] => false
  | x :: r => x.passes c || Node.anyPasses c r
end

mutual
/-- the nodes that get code, in the order of a walk -/
def Node.made (c : Style) : Node → List Node
  | .seq children => .seq children :: Node.madeSeq c children
  | .alt arms => .alt arms :: Node.madeArms c arms
  | .group inner capturing name => .group inner capturing name :: inner.made c
  | .rep atom q => .rep atom q :: atom.made c
  | .absent => []
  | .lit text fold => [.lit text fold]
  | .dot dotAll => [.dot dotAll]
  | .anchor kind => [.anchor kind]
  | .cls members => [.cls members]
  | .esc letter => [.esc letter]
  | .stub message => [.stub message]

/-- in a sequence, those after a node that does not pass get none -/
def Node.madeSeq (c : Style) : List Node → List Node
  | [] => []
  | x :: r => x.made c ++ if x.passes c then Node.madeSeq c r else []

/-- in a choice, those of every arm -/
def Node.madeArms (c : Style) : List Node → List Node
  | [] => []
  | x :: r => x.made c ++ Node.madeArms c r
end

/-! ## References to a continuation -/

/-- whether the continuation refers to the local with a number, wherever it is made after that number was given out -/
def Cont.Refers (i : Nat) (b : Bool) : Cont → Prop
  | .named x => (Ident.cont i == x) = b
  | .delayed make => ∀ n, i < n → Stmt.anyMentions (.cont i) (make n).1 = b

theorem Cont.accept_refers (i : Nat) : Cont.accept.Refers i false := fun _ _ => rfl

theorem Cont.Refers.func {k : Cont} {i n : Nat} {b : Bool} (hk : k.Refers i b) (hi : i < n) :
    (k.func n).1.mentions (.cont i) = b := by
  cases k with
  | named x => exact hk
  | delayed make => exact hk n hi

theorem Cont.Refers.stmts {k : Cont} {i n : Nat} {b : Bool} (hk : k.Refers i b) (hi : i < n) :
    Stmt.anyMentions (.cont i) (k.stmts n).1 = b := by
  cases k with
  | named x =>
    have hx : (Ident.cont i == x) = b := hk
    simp [Cont.stmts, Stmt.anyMentions, Stmt.mentions, Expr.mentions, hx]
  | delayed make => exact hk n hi

/-- the code of the node refers to its continuation exactly if the node passes -/
def Node.Continues (c : Style) (x : Node) : Prop :=
  ∀ {d : Nat} {k : Cont} {i n : Nat} {b : Bool}, k.Numbers → k.Refers i b → i < n →
    Stmt.anyMentions (.cont i) (x.emit c d k n).1 = (x.passes c && b)

theorem Node.EmitsCall.continues {x : Node} (h : x.EmitsCall c) (hx : x.passes c = true) : x.Continues c := by
  intro d k i n b _ hk hi
  obtain ⟨m, test, args, -, -, htest, hargs, hemit⟩ := h
  rw [hemit, Stmt.anyMentions_append, htest.mentions, retCall_mentions, hargs.mentions, hk.func hi, hx]
  rfl

theorem Node.emitSeq_mentions {l : List Node} (h : ∀ x ∈ l, x.Continues c) {d : Nat} {k : Cont} {i n : Nat} {b : Bool}
    (hnum : k.Numbers) (hk : k.Refers i b) (hi : i < n) :
    Stmt.anyMentions (.cont i) (Node.emitSeq c d l k n).1 = (Node.allPass c l && b) := by
  match l with
  | [] => simpa [Node.emitSeq, Node.allPass] using hk.stmts hi
  | [x] => simpa [Node.emitSeq, Node.allPass] using h x List.mem_cons_self hnum hk hi
  | x :: y :: r =>
    have htail : (Cont.delayed (Node.emitSeq c d (y :: r) k)).Refers i (Node.allPass c (y :: r) && b) :=
      fun m hm => Node.emitSeq_mentions (fun z hz => h z (List.mem_cons_of_mem x hz)) hnum hk hm
    have htailNum : (Cont.delayed (Node.emitSeq c d (y :: r) k)).Numbers :=
      fun m => Node.emitSeq_numbered c d (y :: r) hnum m
    rw [Node.emitSeq, Node.allPass, Bool.and_assoc]
    exact h x List.mem_cons_self htailNum htail hi

theorem Node.emitArms_mentions {l : List Node} (h : ∀ x ∈ l, x.Continues c) {d : Nat} {k : Cont} {i n : Nat} {b : Bool}
    (hnum : k.Numbers) (hk : k.Refers i b) (hi : i < n) :
    Expr.anyMentions (.cont i) (Node.emitArms c d l k n).1 = (Node.anyPasses c l && b) := by
  induction l generalizing n with
  | nil => rfl
  | cons x r ih =>
    have hle := (Node.emit_numbered c d x hnum n).le
    have hx := h x List.mem_cons_self (d := d) hnum hk hi
    have hr := ih (fun y hy => h y (List.mem_cons_of_mem x hy)) (lt_of_lt_of_le hi hle)
    simp only [Node.emitArms, Expr.anyMentions, Expr.thunk, Expr.mentions, hx, hr, Node.anyPasses]
    rw [Bool.and_or_distrib_right]

/-- the arms of a choice refer to the local that they share exactly if one of them passes -/
theorem Node.emitArms_uses_local {arms : List Node} (h : ∀ x ∈ arms, x.Continues c) (d n : Nat) :
    Expr.anyMentions (.cont n) (Node.emitArms c d arms (.named (.cont n)) (n + 1)).1 = Node.anyPasses c arms := by
  have hself : (Cont.named (.cont n)).Refers n true := by
    show (Ident.cont n == Ident.cont n) = true
    simp
  have huses := Node.emitArms_mentions h (d := d) (k := .named (.cont n)) trivial hself (Nat.lt_succ_self n)
  rwa [Bool.and_true] at huses

/-- a choice binds its continuation, and its arms refer to the local, exactly if one of them passes -/
theorem Node.alt_continues {arms : List Node} (h : ∀ x ∈ arms, x.Continues c) : (Node.alt arms).Continues c := by
  intro d k i n b hnum hk hi
  cases hl : c.legacy with
  | true =>
    rw [Node.emit_alt_legacy d arms n hl k, retArms_mentions,
      Node.emitArms_mentions h Cont.accept_numbers (Cont.accept_refers i) hi]
    simp [Node.passes, hl]
  | false =>
    have hpasses : (Node.alt arms).passes c = Node.anyPasses c arms := by simp [Node.passes, hl]
    cases k with
    | named y => rw [Node.emit_alt_named d arms n hl y, retArms_mentions, Node.emitArms_mentions h hnum hk hi, hpasses]
    | delayed make =>
      have hlocal : (Cont.named (.cont n)).Numbers := trivial
      have hother : (Cont.named (.cont n)).Refers i false := by
        show (Ident.cont i == Ident.cont n) = false
        simp [Nat.ne_of_lt hi]
      have hle := (Node.emitArms_numbered c d arms hlocal (n + 1)).le
      have htries := Node.emitArms_mentions h (d := d) hlocal hother (Nat.lt_succ_of_lt hi)
      rw [Bool.and_false] at htries
      have hused := Node.emitArms_uses_local h d n
      rw [hpasses]
      cases hany : Node.anyPasses c arms with
      | true =>
        rw [Node.emit_alt_used d arms n hl make (hused.trans hany), Stmt.anyMentions, retArms_mentions, htries]
        have htail := hk _ (lt_of_lt_of_le (Nat.lt_succ_of_lt hi) hle)
        simp only [Stmt.mentions, Expr.thunk, Expr.mentions, htail, Bool.or_false, Bool.true_and]
      | false =>
        rw [Node.emit_alt_unused d arms n hl make (hused.trans hany), retArms_mentions, htries]
        rfl

theorem Quantity.driver_quiet (q : Quantity) {m : Method} {bounds : List Expr} (h : q.driver = some (m, bounds)) :
    m.lowers = true ∧ Expr.Quiet bounds := by
  obtain ⟨op, lo, hi, greedy⟩ := q
  cases op with
  | unknown => simp [Quantity.driver] at h
  | _ =>
    simp only [Quantity.driver, Option.some.injEq, Prod.mk.injEq] at h
    obtain ⟨rfl, rfl⟩ := h
    exact ⟨by cases greedy <;> rfl, rfl, fun _ => rfl⟩

/-- the unit of a repetition refers to its parameter, and to no continuation outside -/
theorem Node.rep_continues {atom : Node} {q : Quantity} (hq : q.WellFormed) (h : atom.Continues c) :
    (Node.rep atom q).Continues c := by
  intro d k i n b hnum hk hi
  obtain ⟨m, bounds, hdriver⟩ := hq.driver
  have hnextNum : (Cont.named (.next (d + 1))).Numbers := trivial
  have hle := (Node.emit_numbered c (d + 1) atom hnextNum n).le
  have hbody := h (d := d + 1) (i := i) (b := false) hnextNum rfl hi
  rw [Bool.and_false] at hbody
  simp only [Node.emit, hdriver, retCall_mentions, Expr.anyMentions_append, (q.driver_quiet hdriver).2.mentions,
    Expr.anyMentions, Expr.mentions, hbody, hk.func (lt_of_lt_of_le hi hle)]
  rfl

theorem Node.stub_continues (message : List Char) : (Node.stub message).Continues c := by
  intro d k i n b _ hk hi
  have hrest := hk.stmts hi
  simp only [Node.emit, emitStub, Node.passes]
  cases hs : c.strict with
  | true => rfl
  | false => simpa [Stmt.anyMentions, Stmt.mentions] using hrest

/-- **The code of a node refers to its continuation exactly if the node passes.** -/
theorem Node.WellFormed.emit_mentions {x : Node} (h : x.WellFormed) : x.Continues c := by
  induction h with
  | seq children _ ih =>
    intro d k i n b hnum hk hi
    rw [Node.emit, Node.passes]
    exact Node.emitSeq_mentions ih hnum hk hi
  | alt arms _ _ _ ih => exact Node.alt_continues ih
  | group inner capturing name _ _ _ _ ih =>
    intro d k i n b hnum hk hi
    rw [Node.emit, Node.passes]
    exact ih hnum hk hi
  | lit text fold hne => exact (Node.lit_emitsCall c hne fold).continues rfl
  | dot dotAll => exact (Node.dot_emitsCall c dotAll).continues rfl
  | anchor kind => exact (Node.anchor_emitsCall c kind).continues rfl
  | cls members =>
    cases hvoid : members.isVoid with
    | true =>
      intro d k i n b _ _ _
      rw [Node.emit, emitClass_void hvoid, Node.passes, hvoid]
      rfl
    | false => exact (Node.cls_emitsCall c hvoid).continues (by simp [Node.passes, hvoid])
  | esc letter => exact (Node.esc_emitsCall c letter).continues rfl
  | rep atom q _ _ hq ih => exact Node.rep_continues hq ih
  | stub message => exact Node.stub_continues message

/-! ## Marks of the nodes -/

/-- the marks of what the continuation makes, wherever it is made; a name shows nothing -/
def Cont.Shows (ms : List Mark) : Cont → Prop
  | .named _ => ms = []
  | .delayed make => ∀ n, (Block.marks (make n).1).Perm ms

theorem Cont.accept_shows : Cont.accept.Shows [] := fun _ => .nil

theorem Cont.Shows.func {k : Cont} {ms : List Mark} (hk : k.Shows ms) (n : Nat) : (k.func n).1.marks.Perm ms := by
  cases k with
  | named x =>
    obtain rfl : ms = [] := hk
    exact .nil
  | delayed make => exact hk n

theorem Cont.Shows.stmts {k : Cont} {ms : List Mark} (hk : k.Shows ms) (n : Nat) :
    (Block.marks (k.stmts n).1).Perm ms := by
  cases k with
  | named x =>
    obtain rfl : ms = [] := hk
    exact .nil
  | delayed make => exact hk n

/-- the marks of the nodes that are made -/
def Node.madeMarks (c : Style) (l : List Node) : List Mark := l.filterMap (Node.mark? c)

theorem Node.madeMarks_append (l r : List Node) :
    Node.madeMarks c (l ++ r) = Node.madeMarks c l ++ Node.madeMarks c r := List.filterMap_append

/-- the code of the node shows the nodes that are made, each once, and the continuation if the node passes -/
def Node.Accounts (c : Style) (x : Node) : Prop :=
  ∀ {d : Nat} {k : Cont} {ms : List Mark} (n : Nat), k.Shows ms →
    (Block.marks (x.emit c d k n).1).Perm (Node.madeMarks c (x.made c) ++ if x.passes c then ms else [])

theorem Node.EmitsCall.accounts {x : Node} (h : x.EmitsCall c) (hmade : x.made c = [x]) (hx : x.passes c = true) :
    x.Accounts c := by
  intro d k ms n hk
  obtain ⟨m, test, args, hmark, hlowers, htest, hargs, hemit⟩ := h
  have hmarks : Node.madeMarks c (x.made c) = [.call m] := by simp [hmade, Node.madeMarks, hmark]
  rw [hemit, Block.marks_append, htest.marks, retCall_marks, hargs.marks, hmarks, if_pos hx, if_pos hlowers]
  exact (hk.func n).cons _

theorem Node.emitSeq_marks {l : List Node} (h : ∀ x ∈ l, x.Accounts c) {d : Nat} {k : Cont} {ms : List Mark} (n : Nat)
    (hk : k.Shows ms) :
    (Block.marks (Node.emitSeq c d l k n).1).Perm
      (Node.madeMarks c (Node.madeSeq c l) ++ if Node.allPass c l then ms else []) := by
  match l with
  | [] => simpa [Node.emitSeq, Node.madeSeq, Node.allPass, Node.madeMarks] using hk.stmts n
  | [x] => simpa [Node.emitSeq, Node.madeSeq, Node.allPass] using h x List.mem_cons_self n hk
  | x :: y :: r =>
    have htail : (Cont.delayed (Node.emitSeq c d (y :: r) k)).Shows
        (Node.madeMarks c (Node.madeSeq c (y :: r)) ++ if Node.allPass c (y :: r) then ms else []) :=
      fun m => Node.emitSeq_marks (fun z hz => h z (List.mem_cons_of_mem x hz)) m hk
    have hx := h x List.mem_cons_self (d := d) n htail
    rw [Node.emitSeq, Node.madeSeq, Node.allPass]
    cases hpass : x.passes c with
    | true => simpa [hpass, Node.madeMarks_append] using hx
    | false => simpa [hpass] using hx

theorem Node.emitArms_marks {l : List Node} (h : ∀ x ∈ l, x.Accounts c) {d : Nat} {k : Cont} (n : Nat)
    (hk : k.Shows []) :
    (Expr.marksAll (Node.emitArms c d l k n).1).Perm (Node.madeMarks c (Node.madeArms c l)) := by
  induction l generalizing n with
  | nil => exact .nil
  | cons x r ih =>
    have hx : (Block.marks (x.emit c d k n).1).Perm (Node.madeMarks c (x.made c)) := by
      simpa using h x List.mem_cons_self (d := d) n hk
    have hr := ih (fun y hy => h y (List.mem_cons_of_mem x hy)) (x.emit c d k n).2
    rw [Node.madeArms, Node.madeMarks_append]
    exact hx.append hr

/-- a choice shows its arms, and what follows once if an arm passes -/
theorem Node.alt_accounts {arms : List Node} (hcont : ∀ x ∈ arms, x.Continues c) (h : ∀ x ∈ arms, x.Accounts c) :
    (Node.alt arms).Accounts c := by
  intro d k ms n hk
  have hmade : Node.madeMarks c ((Node.alt arms).made c) = Node.madeMarks c (Node.madeArms c arms) := rfl
  rw [hmade]
  cases hl : c.legacy with
  | true =>
    have hpasses : (Node.alt arms).passes c = false := by simp [Node.passes, hl]
    rw [Node.emit_alt_legacy d arms n hl k, retArms_marks, hpasses]
    simpa using Node.emitArms_marks h n Cont.accept_shows
  | false =>
    have hpasses : (Node.alt arms).passes c = Node.anyPasses c arms := by simp [Node.passes, hl]
    rw [hpasses]
    cases k with
    | named y =>
      obtain rfl : ms = [] := hk
      rw [Node.emit_alt_named d arms n hl y, retArms_marks]
      simpa using Node.emitArms_marks h n (k := .named y) rfl
    | delayed make =>
      have harms := Node.emitArms_marks h (d := d) (n + 1) (k := .named (.cont n)) rfl
      have hused := Node.emitArms_uses_local hcont d n
      cases hany : Node.anyPasses c arms with
      | true =>
        -- the tail stands before the arms
        rw [Node.emit_alt_used d arms n hl make (hused.trans hany), Block.marks, retArms_marks, if_pos rfl]
        exact ((hk _).append harms).trans List.perm_append_comm
      | false =>
        rw [Node.emit_alt_unused d arms n hl make (hused.trans hany), retArms_marks]
        simpa using harms

/-- a repetition shows its driver, then its unit, then what follows -/
theorem Node.rep_accounts {atom : Node} {q : Quantity} (hq : q.WellFormed) (h : atom.Accounts c) :
    (Node.rep atom q).Accounts c := by
  intro d k ms n hk
  obtain ⟨m, bounds, hdriver⟩ := hq.driver
  obtain ⟨hlowers, hquiet⟩ := q.driver_quiet hdriver
  have hbody : (Block.marks (atom.emit c (d + 1) (.named (.next (d + 1))) n).1).Perm (Node.madeMarks c (atom.made c)) := by
    simpa using h (d := d + 1) (k := .named (.next (d + 1))) n rfl
  have hmarks : Node.madeMarks c ((Node.rep atom q).made c) = .call m :: Node.madeMarks c (atom.made c) := by
    simp [Node.made, Node.madeMarks, Node.mark?, hdriver]
  have hpasses : (Node.rep atom q).passes c = true := by simp [Node.passes]
  simp only [Node.emit, hdriver, retCall_marks, Expr.marksAll_append, hquiet.marks, Expr.marksAll, Expr.marks,
    List.nil_append, List.append_nil, hlowers, if_true, hmarks, hpasses]
  exact (hbody.append (hk.func _)).cons _

theorem Node.stub_accounts (message : List Char) : (Node.stub message).Accounts c := by
  intro d k ms n hk
  have hmarks : Node.madeMarks c ((Node.stub message).made c) = [.note (commentText (Text.ofChars message))] := rfl
  rw [hmarks]
  by_cases hs : c.strict = true
  · simp only [Node.emit, emitStub, Node.passes, hs, if_true]
    exact .refl _
  · simp only [Node.emit, emitStub, Node.passes, hs, Bool.not_false]
    exact (hk.stmts n).cons _

/-- **The code of a node shows the nodes that are made, each once**, and the continuation if the node passes. -/
theorem Node.WellFormed.emit_marks {x : Node} (h : x.WellFormed) : x.Accounts c := by
  induction h with
  | seq children _ ih =>
    intro d k ms n hk
    have hmarks : Node.madeMarks c ((Node.seq children).made c) = Node.madeMarks c (Node.madeSeq c children) := rfl
    rw [Node.emit, Node.passes, hmarks]
    exact Node.emitSeq_marks ih n hk
  | alt arms _ _ hall ih => exact Node.alt_accounts (fun x hx => (hall x hx).emit_mentions) ih
  | group inner capturing name _ _ _ _ ih =>
    intro d k ms n hk
    have hmarks : Node.madeMarks c ((Node.group inner capturing name).made c) = Node.madeMarks c (inner.made c) := rfl
    rw [Node.emit, Node.passes, hmarks]
    exact ih n hk
  | lit text fold hne => exact (Node.lit_emitsCall c hne fold).accounts rfl rfl
  | dot dotAll => exact (Node.dot_emitsCall c dotAll).accounts rfl rfl
  | anchor kind => exact (Node.anchor_emitsCall c kind).accounts rfl rfl
  | cls members =>
    cases hvoid : members.isVoid with
    | true =>
      intro d k ms n _
      have hmarks : Node.madeMarks c ((Node.cls members).made c) = [] := by
        simp [Node.made, Node.madeMarks, Node.mark?, hvoid]
      rw [Node.emit, emitClass_void hvoid, Node.passes, hvoid, hmarks]
      exact .nil
    | false => exact (Node.cls_emitsCall c hvoid).accounts rfl (by simp [Node.passes, hvoid])
  | esc letter => exact (Node.esc_emitsCall c letter).accounts rfl rfl
  | rep atom q _ _ hq ih => exact Node.rep_accounts hq ih
  | stub message => exact Node.stub_accounts message

/-! ## Made nodes among all nodes -/

theorem Node.madeSeq_sublist {l : List Node} (h : ∀ x ∈ l, (x.made c).Sublist x.nodes) :
    (Node.madeSeq c l).Sublist (l.flatMap Node.nodes) := by
  induction l with
  | nil => exact .slnil
  | cons x r ih =>
    rw [Node.madeSeq, List.flatMap_cons]
    refine (h x List.mem_cons_self).append ?_
    split_ifs
    · exact ih fun y hy => h y (List.mem_cons_of_mem x hy)
    · exact List.nil_sublist _

theorem Node.madeArms_sublist {l : List Node} (h : ∀ x ∈ l, (x.made c).Sublist x.nodes) :
    (Node.madeArms c l).Sublist (l.flatMap Node.nodes) := by
  induction l with
  | nil => exact .slnil
  | cons x r ih =>
    rw [Node.madeArms, List.flatMap_cons]
    exact (h x List.mem_cons_self).append (ih fun y hy => h y (List.mem_cons_of_mem x hy))

/-- **No node is made that is not in the tree**, and none twice. -/
theorem Node.WellFormed.made_sublist {x : Node} (h : x.WellFormed) : (x.made c).Sublist x.nodes := by
  induction h with
  | seq children _ ih =>
    rw [Node.nodes_seq]
    exact (Node.madeSeq_sublist ih).cons_cons _
  | alt arms _ _ _ ih =>
    rw [Node.nodes_alt]
    exact (Node.madeArms_sublist ih).cons_cons _
  | group inner capturing name _ _ _ _ ih =>
    rw [Node.nodes_group]
    exact ih.cons_cons _
  | rep atom q _ _ _ ih =>
    rw [Node.nodes_rep]
    exact ih.cons_cons _
  | lit | dot | anchor | cls | esc | stub => exact .refl _

/-- no class of the tree is void -/
def Node.NoVoid (x : Node) : Prop := ∀ members, .cls members ∈ x.nodes → members.isVoid = false

theorem Node.NoVoid.of_subset {x y : Node} (h : x.NoVoid) (hsub : y.nodes ⊆ x.nodes) : y.NoVoid :=
  fun members hm => h members (hsub hm)

theorem Node.madeSeq_eq {l : List Node} (h : ∀ x ∈ l, x.passes c = true ∧ x.made c = x.nodes) :
    Node.allPass c l = true ∧ Node.madeSeq c l = l.flatMap Node.nodes := by
  induction l with
  | nil => exact ⟨rfl, rfl⟩
  | cons x r ih =>
    obtain ⟨hpass, hmade⟩ := h x List.mem_cons_self
    obtain ⟨hall, hrest⟩ := ih fun y hy => h y (List.mem_cons_of_mem x hy)
    simp [Node.allPass, Node.madeSeq, hpass, hmade, hall, hrest]

theorem Node.madeArms_eq {l : List Node} (h : ∀ x ∈ l, x.made c = x.nodes) :
    Node.madeArms c l = l.flatMap Node.nodes := by
  induction l with
  | nil => rfl
  | cons x r ih =>
    rw [Node.madeArms, h x List.mem_cons_self, ih fun y hy => h y (List.mem_cons_of_mem x hy), List.flatMap_cons]

theorem Node.anyPasses_of_all {l : List Node} (hne : l ≠ []) (h : ∀ x ∈ l, x.passes c = true) :
    Node.anyPasses c l = true := by
  obtain ⟨x, r, rfl⟩ := List.exists_cons_of_ne_nil hne
  simp [Node.anyPasses, h x List.mem_cons_self]

/-- **Every node is made** if stubs fall through, arms share what follows, and no class is void. -/
theorem Node.WellFormed.made_eq_nodes {x : Node} (h : x.WellFormed) (hlegacy : c.legacy = false)
    (hstrict : c.strict = false) (hvoid : x.NoVoid) : x.passes c = true ∧ x.made c = x.nodes := by
  induction h with
  | seq children _ ih =>
    have hall := Node.madeSeq_eq fun x hx => ih x hx (hvoid.of_subset (Node.nodes_subset_seq hx))
    rw [Node.passes, Node.made, Node.nodes_seq, hall.2]
    exact ⟨hall.1, rfl⟩
  | alt arms htwo _ _ ih =>
    have hall := fun x hx => ih x hx (hvoid.of_subset (Node.nodes_subset_alt hx))
    have hne : arms ≠ [] := List.ne_nil_of_length_pos (Nat.zero_lt_of_lt htwo)
    rw [Node.passes, Node.made, Node.nodes_alt, Node.madeArms_eq fun x hx => (hall x hx).2,
      Node.anyPasses_of_all hne fun x hx => (hall x hx).1, hlegacy]
    exact ⟨rfl, rfl⟩
  | group inner capturing name _ _ _ _ ih =>
    obtain ⟨hpass, hmade⟩ := ih (hvoid.of_subset (by simp))
    rw [Node.passes, Node.made, Node.nodes_group, hmade]
    exact ⟨hpass, rfl⟩
  | rep atom q _ _ _ ih =>
    obtain ⟨-, hmade⟩ := ih (hvoid.of_subset (by simp))
    rw [Node.passes, Node.made, Node.nodes_rep, hmade]
    exact ⟨rfl, rfl⟩
  | cls members =>
    have hmembers := hvoid members (List.mem_singleton_self _)
    exact ⟨by simp [Node.passes, hmembers], rfl⟩
  | stub message => exact ⟨by simp [Node.passes, hstrict], rfl⟩
  | lit | dot | anchor | esc => exact ⟨by simp [Node.passes], rfl⟩

/-! ## Counts -/

/-- is the node one that is matched by a call on the matcher: a literal, a dot, an anchor, a class or a repetition? -/
def Node.isMatched : Node → Bool
  | .lit _ _ | .dot _ | .anchor _ | .cls _ | .esc _ | .rep _ _ => true
  | .absent | .seq _ | .alt _ | .group _ _ _ | .stub _ => false

theorem Node.WellFormed.of_mem_nodes {x y : Node} (h : x.WellFormed) (hy : y ∈ x.nodes) : y.WellFormed := by
  induction h with
  | seq children hall ih =>
    rw [Node.nodes_seq, List.mem_cons, List.mem_flatMap] at hy
    obtain rfl | ⟨z, hz, hy⟩ := hy
    · exact .seq children hall
    · exact ih z hz hy
  | alt arms htwo hseq hall ih =>
    rw [Node.nodes_alt, List.mem_cons, List.mem_flatMap] at hy
    obtain rfl | ⟨z, hz, hy⟩ := hy
    · exact .alt arms htwo hseq hall
    · exact ih z hz hy
  | group inner capturing name hinner h hnamed hname ih =>
    rw [Node.nodes_group, List.mem_cons] at hy
    obtain rfl | hy := hy
    · exact .group inner capturing name hinner h hnamed hname
    · exact ih hy
  | rep atom q hatom h hq ih =>
    rw [Node.nodes_rep, List.mem_cons] at hy
    obtain rfl | hy := hy
    · exact .rep atom q hatom h hq
    · exact ih hy
  | lit text fold hne => exact List.mem_singleton.1 hy ▸ .lit text fold hne
  | dot dotAll => exact List.mem_singleton.1 hy ▸ .dot dotAll
  | anchor kind h => exact List.mem_singleton.1 hy ▸ .anchor kind h
  | cls members h => exact List.mem_singleton.1 hy ▸ .cls members h
  | esc letter h => exact List.mem_singleton.1 hy ▸ .esc letter h
  | stub message => exact List.mem_singleton.1 hy ▸ .stub message

/-- the mark of a node is a call only if the node is matched by one, and a comment only if it is a stub -/
theorem Node.mark_kind (c : Style) (x : Node) :
    ((x.mark? c).any Mark.isCall = true → x.isMatched = true) ∧ ((x.mark? c).any Mark.isNote = true → x.isStub = true) := by
  cases x with
  | rep atom q => cases hq : q.driver <;> simp [Node.mark?, hq, Mark.isCall, Mark.isNote, Node.isMatched]
  | cls members => cases hv : members.isVoid <;> simp [Node.mark?, hv, Mark.isCall, Mark.isNote, Node.isMatched]
  | lit text fold =>
    simp only [Node.mark?]
    split_ifs <;> simp [Mark.isCall, Mark.isNote, Node.isMatched]
  | _ => simp [Node.mark?, Mark.isCall, Mark.isNote, Node.isMatched, Node.isStub]

/-- a node that is matched by a call leaves one, unless it is a void class, and a stub leaves a comment -/
theorem Node.WellFormed.mark_kind_iff {x : Node} (h : x.WellFormed)
    (hvoid : ∀ members, x = .cls members → members.isVoid = false) :
    ((x.mark? c).any Mark.isCall = x.isMatched) ∧ ((x.mark? c).any Mark.isNote = x.isStub) := by
  cases h with
  | rep atom q _ _ hq =>
    obtain ⟨m, bounds, hdriver⟩ := hq.driver
    simp [Node.mark?, hdriver, Mark.isCall, Mark.isNote, Node.isMatched, Node.isStub]
  | cls members =>
    have hmembers := hvoid members rfl
    simp [Node.mark?, hmembers, Mark.isCall, Mark.isNote, Node.isMatched, Node.isStub]
  | lit text fold =>
    simp only [Node.mark?]
    split_ifs <;> simp [Mark.isCall, Mark.isNote, Node.isMatched, Node.isStub]
  | _ => simp [Node.mark?, Mark.isCall, Mark.isNote, Node.isMatched, Node.isStub]

theorem Node.countP_madeMarks (p : Mark → Bool) (l : List Node) :
    (Node.madeMarks c l).countP p = l.countP fun x => (x.mark? c).any p := by
  rw [Node.madeMarks, List.countP_filterMap]
  refine List.countP_congr fun x _ => ?_
  cases x.mark? c <;> rfl

/-- **The body of a matcher shows the nodes of its tree that are made.** What follows the pattern accepts and shows
nothing. -/
theorem Session.body_marks (o : Options) :
    let s := Session.start o (Reading.ofPattern o.pattern)
    (Block.marks s.body).Perm (Node.madeMarks s.style (s.reading.root.made s.style)) := by
  intro s
  have hroot : s.reading.root.WellFormed := (Reading.root_wellFormed o.pattern).2
  have hbody := hroot.emit_marks (c := s.style) (d := 0) 0 Cont.accept_shows
  rwa [ite_self, List.append_nil] at hbody

/-- **Every node shows at most once.** For every pattern and all options, the body makes at most one call for each
literal, dot, anchor, class and repetition of the tree, and has at most one comment for each stub. If arms share what
follows them, stubs fall through and every class has members or is complemented, it has exactly one for each. -/
theorem nodes_show_once (o : Options) :
    let s := Session.start o (Reading.ofPattern o.pattern)
    let nodes := s.reading.root.nodes
    let marks := Block.marks s.body
    marks.countP Mark.isCall ≤ nodes.countP Node.isMatched ∧
    marks.countP Mark.isNote ≤ nodes.countP Node.isStub ∧
    (o.legacy = false → o.strict = false →
      (∀ members, .cls members ∈ nodes → members.negated = true ∨ members.singles ≠ [] ∨ members.ranges ≠ []) →
      marks.countP Mark.isCall = nodes.countP Node.isMatched ∧ marks.countP Mark.isNote = nodes.countP Node.isStub) := by
  intro s nodes marks
  have hroot : s.reading.root.WellFormed := (Reading.root_wellFormed o.pattern).2
  have hmarks : marks.Perm (Node.madeMarks s.style (s.reading.root.made s.style)) := Session.body_marks o
  have hsublist := hroot.made_sublist (c := s.style)
  refine ⟨?_, ?_, fun hlegacy hstrict hmembers => ?_⟩
  · rw [hmarks.countP_eq, Node.countP_madeMarks]
    exact (List.countP_mono_left fun x _ => (x.mark_kind s.style).1).trans (hsublist.countP_le)
  · rw [hmarks.countP_eq, Node.countP_madeMarks]
    exact (List.countP_mono_left fun x _ => (x.mark_kind s.style).2).trans (hsublist.countP_le)
  · have hvoid : s.reading.root.NoVoid := by
      intro members hm
      rcases hmembers members hm with h | h | h <;> simp [CharClass.isVoid, h]
    have hkinds : ∀ x ∈ nodes, (((x.mark? s.style).any Mark.isCall = x.isMatched) ∧
        (x.mark? s.style).any Mark.isNote = x.isStub) := by
      intro x hx
      refine (hroot.of_mem_nodes hx).mark_kind_iff fun members hcls => hvoid members ?_
      rwa [← hcls]
    rw [hmarks.countP_eq, hmarks.countP_eq, (hroot.made_eq_nodes hlegacy hstrict hvoid).2, Node.countP_madeMarks,
      Node.countP_madeMarks]
    exact ⟨List.countP_congr fun x hx => by rw [(hkinds x hx).1], List.countP_congr fun x hx => by rw [(hkinds x hx).2]⟩

/-- a request for `(?:a|\bb*)[^c-d]x{2}`: a choice with a stub in one arm, before a class and a repetition -/
def sharedTail (legacy strict : Bool) : Options :=
  { pattern := .ofString "(?:a|\\bb*)[^c-d]x{2}", name := "T", output := "", package := "p", runtime := "",
    scope := .pattern, legacy := legacy, strict := strict, verbose := false }

/-- six nodes and a stub: the arms share what follows them, and it stands in the code once -/
theorem sharedTail_shows_once :
    let s := Session.start (sharedTail false false) (Reading.ofPattern (sharedTail false false).pattern)
    (∀ members, .cls members ∈ s.reading.root.nodes →
      members.negated = true ∨ members.singles ≠ [] ∨ members.ranges ≠ []) ∧
    (Block.marks s.body).countP Mark.isCall = 6 ∧ (Block.marks s.body).countP Mark.isNote = 1 := by
  intro s
  have hroot : s.reading.root = .seq [.group (.alt [.seq [.lit ['a'] false], .seq [.stub "unsupported word boundary \\b".toList,
      .rep (.lit ['b'] false) ⟨.star, 0, 0, true⟩]]) false [], .cls ⟨true, [], [⟨99, 100⟩]⟩,
      .rep (.lit ['x'] false) ⟨.exact, 2, 2, true⟩] := rfl
  have hmembers : ∀ members, .cls members ∈ s.reading.root.nodes →
      members.negated = true ∨ members.singles ≠ [] ∨ members.ranges ≠ [] := by
    intro members hm
    rw [hroot] at hm
    obtain rfl : members = ⟨true, [], [⟨99, 100⟩]⟩ := by simpa [Node.nodes, Node.visit, Node.visitAll] using hm
    exact Or.inl rfl
  obtain ⟨-, -, hexact⟩ := nodes_show_once (sharedTail false false)
  obtain ⟨hcalls, hnotes⟩ := hexact rfl rfl hmembers
  exact ⟨hmembers, hcalls.trans (by rw [hroot]; decide), hnotes.trans (by rw [hroot]; decide)⟩

-- arms that accept on their own drop what follows them, and a strict stub what follows it in its arm
example : (Block.marks (Session.start (sharedTail true false) (.ofPattern (sharedTail true false).pattern)).body).countP
    Mark.isCall = 3 := by decide +kernel

example : (Block.marks (Session.start (sharedTail true true) (.ofPattern (sharedTail true true).pattern)).body).countP
    Mark.isCall = 1 := by decide +kernel

end MatcherGen
