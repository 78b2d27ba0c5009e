/-
What can be seen of a tree in its code. A node shows by the call it makes on the matcher, a stub by its comment; looks at
the input, which a class makes besides its call, belong to no node of their own. The tests of a class leave no marks and
refer to no continuation, so a node without parts is one call with the continuation at its end.

Main statements:
- `retArms_marks`: the code of a choice shows what its arms show;
- `classCheck_quiet`: the test of a class leaves no marks;
- `Node.lit_emitsCall`, `Node.cls_emitsCall` and others: the code of a node without parts is one call.
-/
import MatcherGen.Proofs.Validity
import MatcherGen.Proofs.WellFormed

namespace MatcherGen

/-! ## Marks -/

/-- what a node shows by in the code -/
inductive Mark where
  /-- a call that is made on behalf of a node -/
  | call (m : Method)
  /-- a comment in place of a construct -/
  | note (text : Text)
deriving DecidableEq

namespace Mark

/-- is it a call? -/
def isCall : Mark → Bool
  | .call _ => true
  | .note _ => false

/-- is it a comment? -/
def isNote : Mark → Bool
  | .call _ => false
  | .note _ => true

end Mark

/-- is the method called on behalf of a node? The others start the match or look at the input. -/
def Method.lowers : Method → Bool
  | .runMatch | .atEnd | .peek | .peekByte => false
  | _ => true

mutual
/-- the marks in an expression -/
def Expr.marks : Expr → List Mark
  | .name _ | .truth _ | .code _ | .text _ | .number _ => []
  | .newMatcher arg => Expr.marks arg
  | .method m args => (if m.lowers then [.call m] else []) ++ Expr.marksAll args
  | .test _ arg => Expr.marks arg
  | .func _ body => Block.marks body
  | .invoke f => Expr.marks f
  | .binary _ left right => Expr.marks left ++ Expr.marks right
  | .not e => Expr.marks e
  | .paren e => Expr.marks e

/-- the marks in several expressions -/
def Expr.marksAll : List Expr → List Mark
  | [] => []
  | e :: r => Expr.marks e ++ Expr.marksAll r

/-- the marks in a statement -/
def Stmt.marks : Stmt → List Mark
  | .comment text => [.note text]
  | .define _ value => Expr.marks value
  | .ret value => Expr.marks value
  | .retNothing | .abort _ => []
  | .cond init test body other => Block.marks init ++ Expr.marks test ++ Block.marks body ++ Block.marks other

/-- the marks in a block, in the order in which they are written -/
def Block.marks : List Stmt → List Mark
  | [] => []
  | s :: r => Stmt.marks s ++ Block.marks r
end

theorem Expr.marksAll_append (l r : List Expr) : Expr.marksAll (l ++ r) = Expr.marksAll l ++ Expr.marksAll r := by
  induction l with
  | nil => rfl
  | cons e l ih => simp [Expr.marksAll, ih]

theorem Block.marks_append (l r : List Stmt) : Block.marks (l ++ r) = Block.marks l ++ Block.marks r := by
  induction l with
  | nil => rfl
  | cons s l ih => simp [Block.marks, ih]

theorem Expr.anyMentions_append (x : Ident) (l r : List Expr) :
    Expr.anyMentions x (l ++ r) = (Expr.anyMentions x l || Expr.anyMentions x r) := by
  induction l with
  | nil => rfl
  | cons e l ih => simp [Expr.anyMentions, ih, Bool.or_assoc]

theorem Stmt.anyMentions_append (x : Ident) (l r : List Stmt) :
    Stmt.anyMentions x (l ++ r) = (Stmt.anyMentions x l || Stmt.anyMentions x r) := by
  induction l with
  | nil => rfl
  | cons s l ih => simp [Stmt.anyMentions, ih, Bool.or_assoc]

theorem Expr.marks_foldl (op : BinOp) (e : Expr) (r : List Expr) :
    (r.foldl (.binary op) e).marks = e.marks ++ Expr.marksAll r := by
  induction r generalizing e with
  | nil => simp [Expr.marksAll]
  | cons x r ih => simp [ih, Expr.marks, Expr.marksAll]

/-- joined conditions show what the conditions show -/
theorem Expr.marks_orAll {l : List Expr} {e : Expr} (h : Expr.orAll l = some e) : e.marks = Expr.marksAll l := by
  cases l with
  | nil => simp [Expr.orAll] at h
  | cons x r =>
    simp only [Expr.orAll, Option.some.injEq] at h
    rw [← h, Expr.marks_foldl, Expr.marksAll]

/-- **A choice shows what its arms show.** -/
theorem retArms_marks (tries : List Expr) : Block.marks [retArms tries] = Expr.marksAll tries := by
  unfold retArms
  split
  · rw [(Expr.orAll_eq_none_iff tries).1 ‹_›]
    rfl
  · rename_i e hsome
    simp [Block.marks, Stmt.marks, Expr.marks_orAll hsome]

theorem retCall_marks (m : Method) (args : List Expr) (k : Cont) (n : Nat) :
    Block.marks (retCall m args k n).1 =
      (if m.lowers then [.call m] else []) ++ (Expr.marksAll args ++ (k.func n).1.marks) := by
  simp [retCall, Block.marks, Stmt.marks, Expr.marks, Expr.marksAll_append, Expr.marksAll]

theorem retCall_mentions (x : Ident) (m : Method) (args : List Expr) (k : Cont) (n : Nat) :
    Stmt.anyMentions x (retCall m args k n).1 = (Expr.anyMentions x args || (k.func n).1.mentions x) := by
  simp [retCall, Stmt.anyMentions, Stmt.mentions, Expr.mentions, Expr.anyMentions_append, Expr.anyMentions]

/-! ## Code without marks -/

/-- expressions that leave no marks and refer to no continuation -/
structure Expr.Quiet (l : List Expr) : Prop where
  marks : Expr.marksAll l = []
  mentions : ∀ i, Expr.anyMentions (.cont i) l = false

/-- statements that leave no marks and refer to no continuation -/
structure Block.Quiet (l : Block) : Prop where
  marks : Block.marks l = []
  mentions : ∀ i, Stmt.anyMentions (.cont i) l = false

theorem Block.Quiet.nil : Block.Quiet [] := ⟨rfl, fun _ => rfl⟩

theorem Block.Quiet.fail : Block.Quiet [failStmt] := ⟨rfl, fun _ => rfl⟩

theorem Block.Quiet.cons {s : Stmt} {l : Block} (hs : Block.Quiet [s]) (hl : Block.Quiet l) : Block.Quiet (s :: l) := by
  obtain ⟨hmarks, hmentions⟩ := hs
  simp only [Block.marks, List.append_nil] at hmarks
  simp only [Stmt.anyMentions, Bool.or_false] at hmentions
  exact ⟨by simp [Block.marks, hmarks, hl.marks], fun i => by simp [Stmt.anyMentions, hmentions i, hl.mentions i]⟩

/-- a conditional is quiet if its parts are -/
theorem Block.Quiet.cond {init : List Stmt} {test : Expr} {body other : Block} (hinit : Block.Quiet init)
    (htest : Expr.Quiet [test]) (hbody : Block.Quiet body) (hother : Block.Quiet other) :
    Block.Quiet [.cond init test body other] := by
  obtain ⟨hmarks, hmentions⟩ := htest
  simp only [Expr.marksAll, List.append_nil] at hmarks
  simp only [Expr.anyMentions, Bool.or_false] at hmentions
  constructor
  · simp [Block.marks, Stmt.marks, hinit.marks, hmarks, hbody.marks, hother.marks]
  · intro i
    simp [Stmt.anyMentions, Stmt.mentions, hinit.mentions i, hmentions i, hbody.mentions i, hother.mentions i]

theorem Expr.Quiet.not {e : Expr} (h : Expr.Quiet [e]) : Expr.Quiet [.not e] := ⟨h.marks, h.mentions⟩

theorem Expr.Quiet.paren {e : Expr} (h : Expr.Quiet [e]) : Expr.Quiet [.paren e] := ⟨h.marks, h.mentions⟩

/-- a look at the input is not made on behalf of a node -/
theorem Block.Quiet.look (names : List Ident) {m : Method} (hm : m.lowers = false) :
    Block.Quiet [.define names (.method m [])] := by
  refine ⟨?_, fun i => rfl⟩
  simp [Block.marks, Stmt.marks, Expr.marks, Expr.marksAll, hm]

theorem failAtEnd_quiet : Block.Quiet [failAtEnd] :=
  .cond .nil ⟨rfl, fun _ => rfl⟩ .fail .nil

/-! ## Classes -/

/-- the tests of a side name their subject only -/
theorem ClassSide.tests_quiet (s : ClassSide) {x : Ident} (hx : ∀ i, x ≠ .cont i) : Expr.Quiet (s.tests x) := by
  have hname : ∀ i, (Ident.cont i == x) = false := fun i => beq_eq_false_iff_ne.2 (hx i).symm
  constructor
  · have hsingles : ∀ l : List Int, Expr.marksAll (l.map fun n => .binary .eq (.name x) (.code n)) = [] := by
      intro l
      induction l with
      | nil => rfl
      | cons n r ih => simp [Expr.marksAll, Expr.marks, ih]
    unfold ClassSide.tests
    rw [Expr.marksAll_append, hsingles, List.nil_append]
    induction s.ranges with
    | nil => rfl
    | cons r l ih => simp [Expr.marksAll, Expr.marks, ih]
  · intro i
    rw [← Bool.not_eq_true, Expr.anyMentions_iff]
    rintro ⟨e, he, hm⟩
    rcases List.mem_append.1 he with he | he
    · obtain ⟨n, -, rfl⟩ := List.mem_map.1 he
      simp [Expr.mentions, hname i] at hm
    · obtain ⟨r, -, rfl⟩ := List.mem_map.1 he
      simp [Expr.mentions, hname i] at hm

/-- the test of a rejection, if there is one, is quiet -/
def Rejection.Quiet : Rejection → Prop
  | .when test => Expr.Quiet [test]
  | _ => True

theorem ClassSide.rejection_quiet (s : ClassSide) {x : Ident} (hx : ∀ i, x ≠ .cont i) (negated : Bool) :
    (s.rejection x negated).Quiet := by
  unfold ClassSide.rejection
  split
  · split_ifs <;> trivial
  · rename_i member h
    have hquiet := s.tests_quiet hx
    have hmember : Expr.Quiet [member] := by
      constructor
      · simp [Expr.marksAll, Expr.marks_orAll h, hquiet.marks]
      · intro i
        simp [Expr.anyMentions, Expr.mentions_orAll h, hquiet.mentions i]
    show Expr.Quiet [_]
    split_ifs
    · exact hmember
    · exact hmember.paren.not

theorem Rejection.Quiet.asciiStmts {a : Rejection} (ha : a.Quiet) : Block.Quiet a.asciiStmts := by
  cases a with
  | always => exact .fail
  | never => exact .nil
  | when test => exact .cond .nil ha .fail .nil

theorem Rejection.Quiet.wideStmts {w : Rejection} (hw : w.Quiet) : Block.Quiet w.wideStmts := by
  cases w with
  | always => exact .fail
  | never => exact .nil
  | when test => exact .cond (.look _ rfl) hw .fail .nil

/-- **The test of a class leaves no marks** and refers to no continuation. -/
theorem classCheck_quiet {ascii wide : Rejection} (ha : ascii.Quiet) (hw : wide.Quiet) :
    Block.Quiet (classCheck ascii wide) := by
  have hok : Expr.Quiet [.name .ok] := ⟨rfl, fun _ => rfl⟩
  have hlook : ∀ name, Block.Quiet [.define [name, .ok] (.method .peekByte [])] := fun name => .look _ rfl
  unfold classCheck
  dsimp only
  split
  · exact .nil
  · exact .cond (hlook _) hok.not hw.wideStmts .nil
  · exact .cond (hlook _) hok ha.asciiStmts .nil
  · exact .cond (hlook _) hok ha.asciiStmts hw.wideStmts

/-- a class that no character is in: it has no members and is not complemented -/
def CharClass.isVoid (c : CharClass) : Bool := !c.negated && c.singles.isEmpty && c.ranges.isEmpty

theorem ClassSide.rejection_always_iff (s : ClassSide) (x : Ident) (negated : Bool) :
    s.rejection x negated = .always ↔ negated = false ∧ s.singles = [] ∧ s.ranges = [] := by
  have htests : s.tests x = [] ↔ s.singles = [] ∧ s.ranges = [] := by simp [ClassSide.tests]
  unfold ClassSide.rejection
  split
  · rename_i h
    rw [Expr.orAll_eq_none_iff, htests] at h
    cases negated <;> simp [h]
  · rename_i e h
    have hne : s.tests x ≠ [] := by
      intro hnil
      simp [hnil, Expr.orAll] at h
    rw [Ne, htests] at hne
    simp [hne]

/-- each range has a part on one of the sides -/
theorem ClassRange.parts_ne_nil (r : ClassRange) : ¬ (r.asciiPart = [] ∧ r.widePart = []) := by
  unfold ClassRange.asciiPart ClassRange.widePart
  split_ifs <;> simp

/-- both sides reject everything exactly if the class is void -/
theorem CharClass.isVoid_iff (c : CharClass) :
    c.asciiSide.rejection .byte c.negated = .always ∧ c.wideSide.rejection .rune c.negated = .always ↔
      c.isVoid = true := by
  have hsingles : c.asciiSide.singles = [] ∧ c.wideSide.singles = [] ↔ c.singles = [] := by
    simp only [CharClass.asciiSide, CharClass.wideSide, List.filter_eq_nil_iff, decide_eq_true_eq]
    constructor
    · rintro ⟨hlow, hhigh⟩
      by_contra hne
      obtain ⟨n, hn⟩ := List.exists_mem_of_ne_nil _ hne
      have := hlow n hn
      have := hhigh n hn
      omega
    · intro h
      simp [h]
  have hranges : c.asciiSide.ranges = [] ∧ c.wideSide.ranges = [] ↔ c.ranges = [] := by
    simp only [CharClass.asciiSide, CharClass.wideSide, List.flatMap_eq_nil_iff]
    constructor
    · rintro ⟨hlow, hhigh⟩
      by_contra hne
      obtain ⟨r, hr⟩ := List.exists_mem_of_ne_nil _ hne
      exact r.parts_ne_nil ⟨hlow r hr, hhigh r hr⟩
    · intro h
      simp [h]
  simp only [ClassSide.rejection_always_iff, CharClass.isVoid, Bool.and_eq_true, Bool.not_eq_true', List.isEmpty_iff,
    ← hsingles, ← hranges]
  tauto

/-- a void class fails and drops what follows -/
theorem emitClass_void {c : CharClass} (h : c.isVoid = true) (k : Cont) (n : Nat) : emitClass c k n = ([failStmt], n) := by
  obtain ⟨hascii, hwide⟩ := c.isVoid_iff.2 h
  simp only [emitClass, hascii, hwide]

theorem emitClass_of_not_void {c : CharClass} (h : c.isVoid = false) (k : Cont) (n : Nat) :
    emitClass c k n =
      (failAtEnd :: (classCheck (c.asciiSide.rejection .byte c.negated) (c.wideSide.rejection .rune c.negated) ++
        (retCall .skip [.number 1] k n).1), (retCall .skip [.number 1] k n).2) := by
  unfold emitClass
  split
  · rename_i hascii hwide
    rw [c.isVoid_iff.1 ⟨hascii, hwide⟩] at h
    exact absurd h (by simp)
  · rfl

theorem shorthandTest_quiet (letter : Char) : Expr.Quiet [shorthandTest letter] := by
  unfold shorthandTest
  dsimp only
  split_ifs <;> exact ⟨rfl, fun _ => rfl⟩

/-! ## Nodes without parts -/

/-- the mark that a node leaves in its code -/
def Node.mark? (c : Style) : Node → Option Mark
  | .lit text stamp =>
    if text.length = 1 then some (.call (if c.fold stamp then .charFold else .char))
    else some (.call (if c.fold stamp then .stringFold else .string))
  | .dot stamp => some (.call (if c.dotAll stamp then .skip else .any))
  | .anchor kind => some (.call kind.method)
  | .cls members => if members.isVoid then none else some (.call .skip)
  | .esc letter => some (.call (if letter == 'd' then .digit else if letter == 'w' then .word else .skip))
  | .rep _ q => q.driver.map fun driver => .call driver.1
  | .stub message => some (.note (commentText (Text.ofChars message)))
  | .absent | .seq _ | .alt _ | .group _ _ _ => none

/-- the code of the node is a call that shows it, after a test and with the continuation as its last argument -/
def Node.EmitsCall (c : Style) (x : Node) : Prop :=
  ∃ (m : Method) (test : Block) (args : List Expr), x.mark? c = some (.call m) ∧ m.lowers = true ∧ Block.Quiet test ∧
    Expr.Quiet args ∧ ∀ d k n, (x.emit c d k n).1 = test ++ (retCall m args k n).1

theorem Node.lit_emitsCall (c : Style) {text : List Char} (hne : text ≠ []) (stamp : Bool) :
    (Node.lit text stamp).EmitsCall c := by
  match text with
  | [] => exact absurd rfl hne
  | [x] =>
    refine ⟨_, [], [.code x.toNat], rfl, by split_ifs <;> rfl, .nil, ⟨rfl, fun _ => rfl⟩, fun d k n => ?_⟩
    simp [Node.emit, emitLiteral]
  | x :: y :: r =>
    refine ⟨if c.fold stamp then .stringFold else .string, [], [.text (x :: y :: r)], by simp [Node.mark?],
      by split_ifs <;> rfl, .nil, ⟨rfl, fun _ => rfl⟩, fun d k n => ?_⟩
    simp [Node.emit, emitLiteral]

theorem Node.dot_emitsCall (c : Style) (stamp : Bool) : (Node.dot stamp).EmitsCall c := by
  refine ⟨_, [], if c.dotAll stamp then [.number 1] else [], rfl, by split_ifs <;> rfl, .nil, ?_, fun d k n => ?_⟩
  · split_ifs <;> exact ⟨rfl, fun _ => rfl⟩
  · simp only [Node.emit, emitDot, List.nil_append]
    split_ifs <;> rfl

theorem Node.anchor_emitsCall (c : Style) (kind : AnchorKind) : (Node.anchor kind).EmitsCall c :=
  ⟨kind.method, [], [], rfl, by cases kind <;> rfl, .nil, ⟨rfl, fun _ => rfl⟩, fun _ _ _ => by rw [Node.emit]; rfl⟩

theorem Node.cls_emitsCall (c : Style) {members : CharClass} (h : members.isVoid = false) :
    (Node.cls members).EmitsCall c := by
  have hascii := members.asciiSide.rejection_quiet (x := .byte) (by simp) members.negated
  have hwide := members.wideSide.rejection_quiet (x := .rune) (by simp) members.negated
  refine ⟨.skip, _, [.number 1], by simp [Node.mark?, h], rfl, .cons failAtEnd_quiet (classCheck_quiet hascii hwide),
    ⟨rfl, fun _ => rfl⟩, fun d k n => ?_⟩
  rw [Node.emit, emitClass_of_not_void h]
  rfl

theorem Node.esc_emitsCall (c : Style) (letter : Char) : (Node.esc letter).EmitsCall c := by
  by_cases hd : letter = 'd'
  · subst hd
    exact ⟨.digit, [], [], rfl, rfl, .nil, ⟨rfl, fun _ => rfl⟩, fun d k n => rfl⟩
  · by_cases hw : letter = 'w'
    · subst hw
      exact ⟨.word, [], [], rfl, rfl, .nil, ⟨rfl, fun _ => rfl⟩, fun d k n => rfl⟩
    · have hquiet : Expr.Quiet [if isNegatedLetter letter then shorthandTest letter else .not (shorthandTest letter)] := by
        split_ifs
        · exact shorthandTest_quiet letter
        · exact (shorthandTest_quiet letter).not
      have hpeek := Block.Quiet.cond (.look [.rune] (m := .peek) rfl) hquiet .fail .nil
      refine ⟨.skip, _, [.number 1], by simp [Node.mark?, hd, hw], rfl, .cons failAtEnd_quiet hpeek,
        ⟨rfl, fun _ => rfl⟩, fun d k n => ?_⟩
      rw [Node.emit, emitShorthand_test letter k n hd hw]
      rfl

end MatcherGen
