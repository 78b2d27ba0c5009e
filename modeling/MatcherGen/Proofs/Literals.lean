/-
Character literals in generated code. A literal can spell every character, and what is no character it spells as U+FFFD;
so code that was made for other numbers means something else once it is written down. `spelled` is the code as its text
has it. For classes the difference stays where it arises: the code tests the class whose members and bounds are those
that can be spelled, split and put together as if they had been given.

Main statements:
- `quotedCode_eq_iff`: a literal is that of one character;
- `Expr.layout_spelled`, `Block.text_spelled`: code and the code it spells have the same text;
- `emitClass_spelled`: the code of a class spells the code of the class that can be spelled;
- `run_classStmts`: the statements of a class test membership, before any continuation;
- `class_code_tests_spelled_members`: what the code of a class does once it is written down.
-/
import MatcherGen.Proofs.ClassLowering
import MatcherGen.Proofs.Classes
import MatcherGen.Proofs.Lexing
import MatcherGen.Proofs.Preservation
import MatcherGen.Proofs.Quoting

namespace MatcherGen

/-! ## Literals -/

/-- the number that a character literal has once it is written down -/
def spelledCode (n : Int) : Int := (charOfCode n).toNat

/-- a literal and the one it spells are written alike -/
theorem quotedCode_spelled (n : Int) : quotedCode (spelledCode n) = quotedCode n := by
  rw [spelledCode, quotedCode, charOfCode_toNat, quotedCode]

/-- **A literal is that of one character**, whose number is the one it spells. -/
theorem quotedCode_eq_iff (n : Int) (x : Char) : quotedCode n = quotedCode x.toNat ↔ spelledCode n = x.toNat := by
  rw [← quotedCode_spelled n]
  constructor
  · intro h
    have hread := quotedCode_inj (charOfCode n) x [] [] (by rw [List.append_nil, List.append_nil]; exact h)
    exact congrArg (fun c : Char => (c.toNat : Int)) hread.1
  · intro h
    rw [h]

/-- the number of a character is spelled as it is -/
theorem spelledCode_of_valid {n : Nat} (h : n.isValidChar) : spelledCode n = n := by
  unfold spelledCode charOfCode
  rw [Int.toNat_natCast, if_pos (by simp [h]), Char.ofNat, dif_pos h]
  rfl

theorem spelledCode_of_ascii {n : Int} (h0 : 0 ≤ n) (h : n < 128) : spelledCode n = n := by
  obtain ⟨m, rfl⟩ := Int.eq_ofNat_of_zero_le h0
  exact spelledCode_of_valid (Or.inl (by omega))

/-- what is not in ASCII is not spelled as if it were -/
theorem spelledCode_of_wide {n : Int} (h : 128 ≤ n) : 128 ≤ spelledCode n := by
  obtain ⟨m, rfl⟩ := Int.eq_ofNat_of_zero_le (by omega : 0 ≤ n)
  by_cases hvalid : m.isValidChar
  · rw [spelledCode_of_valid hvalid]
    exact h
  · rw [spelledCode, charOfCode, if_neg (by simp [hvalid])]
    decide

/-! ## Code as it is spelled -/

mutual
/-- the expression that the text of the expression spells -/
def Expr.spelled : Expr → Expr
  | .name x => .name x
  | .truth b => .truth b
  | .code n => .code (spelledCode n)
  | .text s => .text s
  | .number n => .number n
  | .newMatcher arg => .newMatcher arg.spelled
  | .method m args => .method m (Expr.spelledAll args)
  | .test t arg => .test t arg.spelled
  | .func param body => .func param (Block.spelled body)
  | .invoke f => .invoke f.spelled
  | .binary op left right => .binary op left.spelled right.spelled
  | .not e => .not e.spelled
  | .paren e => .paren e.spelled

/-- `spelled`, one expression after the other -/
def Expr.spelledAll : List Expr → List Expr
  | [] => []
  | e :: r => e.spelled :: Expr.spelledAll r

/-- the statement that the text of the statement spells -/
def Stmt.spelled : Stmt → Stmt
  | .comment text => .comment text
  | .define names value => .define names value.spelled
  | .ret value => .ret value.spelled
  | .retNothing => .retNothing
  | .abort message => .abort message
  | .cond init test body other =>
    .cond (Block.spelled init) test.spelled (Block.spelled body) (Block.spelled other)

/-- the statements that the text of the statements spells -/
def Block.spelled : List Stmt → List Stmt
  | [] => []
  | s :: r => s.spelled :: Block.spelled r
end

theorem Block.spelled_append (b b' : Block) : Block.spelled (b ++ b') = Block.spelled b ++ Block.spelled b' := by
  induction b with
  | nil => rfl
  | cons s r ih => rw [List.cons_append, Block.spelled, ih, Block.spelled, List.cons_append]

theorem Block.isEmpty_spelled (b : Block) : List.isEmpty (Block.spelled b) = List.isEmpty b := by cases b <;> rfl

theorem Stmt.takesDoc_spelled (s : Stmt) : s.spelled.takesDoc = s.takesDoc := by cases s <;> rfl

theorem Stmt.isComment_spelled (s : Stmt) : s.spelled.isComment = s.isComment := by cases s <;> rfl

mutual
/-- **An expression and the one it spells have the same text.** -/
theorem Expr.layout_spelled (p : PackageNames) (indent : Nat) (bare : Bool) (e : Expr) (rest : List Char) :
    e.spelled.layout p indent bare rest = e.layout p indent bare rest := by
  match e with
  | .name _ | .truth _ | .text _ | .number _ => rfl
  | .code n => simp only [Expr.spelled, Expr.layout, quotedCode_spelled]
  | .newMatcher arg => simp only [Expr.spelled, Expr.layout, Expr.layout_spelled p indent false arg]
  | .method m args => simp only [Expr.spelled, Expr.layout, Expr.layoutArgs_spelled p indent args]
  | .test t arg => simp only [Expr.spelled, Expr.layout, Expr.layout_spelled p indent false arg]
  | .func param body => simp only [Expr.spelled, Expr.layout, Stmt.layoutBlock_spelled p (indent + 1) [] body]
  | .invoke f => simp only [Expr.spelled, Expr.layout, Expr.layout_spelled p indent false f]
  | .binary op left right =>
    simp only [Expr.spelled, Expr.layout, Expr.layout_spelled p indent false left,
      Expr.layout_spelled p indent false right]
  | .not e => simp only [Expr.spelled, Expr.layout, Expr.layout_spelled p indent false e]
  | .paren e => simp only [Expr.spelled, Expr.layout, Expr.layout_spelled p indent true e]

theorem Expr.layoutArgs_spelled (p : PackageNames) (indent : Nat) (es : List Expr) (rest : List Char) :
    Expr.layoutArgs p indent (Expr.spelledAll es) rest = Expr.layoutArgs p indent es rest := by
  match es with
  | [] => rfl
  | [e] => simp only [Expr.spelledAll, Expr.layoutArgs, Expr.layout_spelled p indent false e]
  | e :: e' :: r =>
    have hrest := Expr.layoutArgs_spelled p indent (e' :: r) rest
    simp only [Expr.spelledAll, Expr.layoutArgs, Expr.layout_spelled p indent false e] at hrest ⊢
    rw [hrest]

theorem Stmt.layout_spelled (p : PackageNames) (indent : Nat) (s : Stmt) (rest : List Char) :
    s.spelled.layout p indent rest = s.layout p indent rest := by
  match s with
  | .comment _ | .retNothing | .abort _ => simp only [Stmt.spelled]
  | .define names value =>
    exact congrArg (fun t => joinWith ", ".toList (names.map Ident.text) ++ (" := ".toList ++ t))
      (Expr.layout_spelled p indent false value rest)
  | .ret value => exact congrArg ("return ".toList ++ ·) (Expr.layout_spelled p indent false value rest)
  | .cond init test body other =>
    refine congrArg ("if ".toList ++ ·) ?_
    rw [Stmt.layoutInit_spelled p indent init, Expr.layout_spelled p indent true test,
      Stmt.layoutBlock_spelled p (indent + 1) [] body, Stmt.layoutBlock_spelled p (indent + 1) [] other,
      Block.isEmpty_spelled]

theorem Stmt.layoutInit_spelled (p : PackageNames) (indent : Nat) (b : List Stmt) (rest : List Char) :
    Stmt.layoutInit p indent (Block.spelled b) rest = Stmt.layoutInit p indent b rest := by
  match b with
  | [] => rfl
  | s :: r =>
    simp only [Block.spelled, Stmt.layoutInit, Stmt.layout_spelled p indent s, Stmt.layoutInit_spelled p indent r]

theorem Stmt.layoutBlock_spelled (p : PackageNames) (indent : Nat) (pending : List (List Char)) (b : List Stmt)
    (rest : List Char) :
    Stmt.layoutBlock p indent pending (Block.spelled b) rest = Stmt.layoutBlock p indent pending b rest := by
  match b with
  | [] => rfl
  | s :: r =>
    cases hs : s.isComment with
    | true =>
      obtain ⟨text, rfl⟩ := Stmt.eq_comment hs
      exact Stmt.layoutBlock_spelled p indent (pending ++ [commentLine text.chars]) r rest
    | false =>
      rw [Block.spelled, Stmt.layoutBlock_code hs, Stmt.layoutBlock_code (s.isComment_spelled.trans hs),
        Stmt.takesDoc_spelled, Stmt.layout_spelled p indent s, Stmt.layoutBlock_spelled p indent [] r]
end

/-- **Code and the code it spells have the same text.** -/
theorem Block.text_spelled (p : PackageNames) (indent : Nat) (b : Block) :
    Block.text p indent (Block.spelled b) = Block.text p indent b := Stmt.layoutBlock_spelled p indent [] b []

/-! ## Classes -/

/-- the range between the bounds as they are spelled -/
def ClassRange.spelled (r : ClassRange) : ClassRange := ⟨spelledCode r.lo, spelledCode r.hi⟩

/-- the class of the members and ranges as they are spelled -/
def CharClass.spelled (c : CharClass) : CharClass :=
  ⟨c.negated, c.singles.map spelledCode, c.ranges.map ClassRange.spelled⟩

/-- all members and bounds are at least zero -/
structure CharClass.NonNegative (c : CharClass) : Prop where
  singles : ∀ n ∈ c.singles, 0 ≤ n
  ranges : ∀ r ∈ c.ranges, 0 ≤ r.lo ∧ 0 ≤ r.hi

/-- a class of characters is spelled as it is -/
theorem CharClass.OfChars.spelled_eq {c : CharClass} (h : c.OfChars) : c.spelled = c := by
  have hsingles : c.singles.map spelledCode = c.singles := by
    refine (List.map_congr_left fun n hn => ?_).trans (List.map_id _)
    obtain ⟨x, rfl⟩ := h.1 n hn
    exact spelledCode_of_valid x.valid
  have hranges : c.ranges.map ClassRange.spelled = c.ranges := by
    refine (List.map_congr_left fun r hr => ?_).trans (List.map_id _)
    obtain ⟨lo, hi, rfl⟩ := h.2 r hr
    exact congrArg₂ ClassRange.mk (spelledCode_of_valid lo.valid) (spelledCode_of_valid hi.valid)
  rw [CharClass.spelled, hsingles, hranges]

/-- the side of the members and ranges as they are spelled -/
def ClassSide.spelled (s : ClassSide) : ClassSide := ⟨s.singles.map spelledCode, s.ranges.map ClassRange.spelled⟩

theorem spelledCode_lt_iff {n : Int} (h : 0 ≤ n) : spelledCode n < asciiLimit ↔ n < asciiLimit := by
  rcases lt_or_ge n 128 with hlt | hge
  · rw [spelledCode_of_ascii h hlt]
  · exact iff_of_false (not_lt.2 (spelledCode_of_wide hge)) (not_lt.2 hge)

/-- a range that starts and ends below the limit -/
theorem ClassRange.parts_below {r : ClassRange} (hlo : r.lo < 128) (hhi : r.hi < 128) :
    r.asciiPart = [r] ∧ r.widePart = [] := by
  unfold ClassRange.asciiPart ClassRange.widePart asciiLimit
  grind

/-- a range across the limit -/
theorem ClassRange.parts_across {r : ClassRange} (hlo : r.lo < 128) (hhi : 128 ≤ r.hi) :
    r.asciiPart = [⟨r.lo, 127⟩] ∧ r.widePart = [⟨128, r.hi⟩] := by
  unfold ClassRange.asciiPart ClassRange.widePart asciiLimit
  grind

/-- a range that starts at or above the limit, wherever it ends -/
theorem ClassRange.parts_above {r : ClassRange} (hlo : 128 ≤ r.lo) : r.asciiPart = [] ∧ r.widePart = [r] := by
  unfold ClassRange.asciiPart ClassRange.widePart asciiLimit
  grind

/-- **Splitting a range and spelling it** can be done in either order: its ends stay on their sides of the limit. -/
theorem ClassRange.parts_spelled {r : ClassRange} (hlo : 0 ≤ r.lo) (hhi : 0 ≤ r.hi) :
    r.spelled.asciiPart = r.asciiPart.map ClassRange.spelled ∧
      r.spelled.widePart = r.widePart.map ClassRange.spelled := by
  rcases lt_or_ge r.lo 128 with hl | hl
  · have hlo' : r.spelled.lo = r.lo := spelledCode_of_ascii hlo hl
    rcases lt_or_ge r.hi 128 with hh | hh
    · have hhi' : r.spelled.hi = r.hi := spelledCode_of_ascii hhi hh
      obtain ⟨ha, hw⟩ := ClassRange.parts_below hl hh
      obtain ⟨ha', hw'⟩ := ClassRange.parts_below (hlo'.trans_lt hl) (hhi'.trans_lt hh)
      rw [ha, hw, ha', hw']
      exact ⟨rfl, rfl⟩
    · have hhi' : 128 ≤ r.spelled.hi := spelledCode_of_wide hh
      obtain ⟨ha, hw⟩ := ClassRange.parts_across hl hh
      obtain ⟨ha', hw'⟩ := ClassRange.parts_across (hlo'.trans_lt hl) hhi'
      rw [ha, hw, ha', hw']
      exact ⟨rfl, rfl⟩
  · obtain ⟨ha, hw⟩ := ClassRange.parts_above hl
    obtain ⟨ha', hw'⟩ := ClassRange.parts_above (r := r.spelled) (spelledCode_of_wide hl)
    rw [ha, hw, ha', hw']
    exact ⟨rfl, rfl⟩

/-- members on one side of the limit -/
theorem filter_spelled {p : Int → Bool} {l : List Int} (h : ∀ n ∈ l, p (spelledCode n) = p n) :
    (l.map spelledCode).filter p = (l.filter p).map spelledCode := by
  rw [List.filter_map]
  exact congrArg (List.map spelledCode) (List.filter_congr h)

theorem flatMap_spelled {f : ClassRange → List ClassRange} {l : List ClassRange}
    (h : ∀ r ∈ l, f r.spelled = (f r).map ClassRange.spelled) :
    (l.map ClassRange.spelled).flatMap f = (l.flatMap f).map ClassRange.spelled := by
  rw [List.flatMap_map, List.map_flatMap]
  exact List.flatMap_congr h

/-- **Splitting a class and spelling it** can be done in either order. -/
theorem CharClass.sides_spelled {c : CharClass} (h : c.NonNegative) :
    c.spelled.asciiSide = c.asciiSide.spelled ∧ c.spelled.wideSide = c.wideSide.spelled := by
  have hlt : ∀ n ∈ c.singles, decide (spelledCode n < asciiLimit) = decide (n < asciiLimit) :=
    fun n hn => decide_eq_decide.2 (spelledCode_lt_iff (h.singles n hn))
  have hge : ∀ n ∈ c.singles, decide ((asciiLimit : Int) ≤ spelledCode n) = decide ((asciiLimit : Int) ≤ n) := by
    intro n hn
    rw [decide_eq_decide, ← not_lt, ← not_lt, spelledCode_lt_iff (h.singles n hn)]
  have hparts := fun r hr => ClassRange.parts_spelled (h.ranges r hr).1 (h.ranges r hr).2
  exact ⟨congrArg₂ ClassSide.mk (filter_spelled hlt) (flatMap_spelled fun r hr => (hparts r hr).1),
    congrArg₂ ClassSide.mk (filter_spelled hge) (flatMap_spelled fun r hr => (hparts r hr).2)⟩

/-! ## The code of a class -/

/-- the rejection with its test as it is spelled -/
def Rejection.spelled : Rejection → Rejection
  | .always => .always
  | .never => .never
  | .when test => .when test.spelled

/-- the continuation with its code as it is spelled -/
def Cont.spelled : Cont → Cont
  | .named x => .named x
  | .delayed make => .delayed fun n => (Block.spelled (make n).1, (make n).2)

theorem ClassSide.tests_spelled (s : ClassSide) (subject : Ident) :
    s.spelled.tests subject = (s.tests subject).map Expr.spelled := by
  simp only [ClassSide.tests, ClassSide.spelled, List.map_append, List.map_map]
  rfl

theorem Expr.orAll_spelled (es : List Expr) : Expr.orAll (es.map Expr.spelled) = (Expr.orAll es).map Expr.spelled := by
  cases es with
  | nil => rfl
  | cons e r =>
    have hfold : (r.map Expr.spelled).foldl (.binary .or) e.spelled = (r.foldl (.binary .or) e).spelled := by
      induction r generalizing e with
      | nil => rfl
      | cons e' r ih => exact ih (.binary .or e e')
    exact congrArg some hfold

/-- a side that is spelled turns down what its rejection spells -/
theorem ClassSide.rejection_spelled (s : ClassSide) (subject : Ident) (negated : Bool) :
    s.spelled.rejection subject negated = (s.rejection subject negated).spelled := by
  unfold ClassSide.rejection
  rw [ClassSide.tests_spelled, Expr.orAll_spelled]
  cases Expr.orAll (s.tests subject) with
  | none => cases negated <;> rfl
  | some member => cases negated <;> rfl

theorem classCheck_spelled (a w : Rejection) : Block.spelled (classCheck a w) = classCheck a.spelled w.spelled := by
  cases a <;> cases w <;> rfl

theorem retSkip_spelled (k : Cont) (n : Nat) :
    Block.spelled (retCall .skip [.number 1] k n).1 = (retCall .skip [.number 1] k.spelled n).1 := by
  cases k <;> rfl

/-- **The code of a class spells the code of the class that can be spelled.** -/
theorem emitClass_spelled {c : CharClass} (h : c.NonNegative) (k : Cont) (n : Nat) :
    Block.spelled (emitClass c k n).1 = (emitClass c.spelled k.spelled n).1 := by
  obtain ⟨hascii, hwide⟩ := CharClass.sides_spelled h
  have hcode : ∀ a w : Rejection,
      Block.spelled (failAtEnd :: (classCheck a w ++ (retCall .skip [.number 1] k n).1)) =
        failAtEnd :: (classCheck a.spelled w.spelled ++ (retCall .skip [.number 1] k.spelled n).1) := by
    intro a w
    rw [Block.spelled, Block.spelled_append, classCheck_spelled, retSkip_spelled]
    rfl
  have hnegated : c.spelled.negated = c.negated := rfl
  unfold emitClass
  rw [hascii, hwide, ClassSide.rejection_spelled, ClassSide.rejection_spelled, hnegated]
  generalize c.asciiSide.rejection .byte c.negated = a
  generalize c.wideSide.rejection .rune c.negated = w
  match a, w with
  | .always, .always => rfl
  | .always, .never | .always, .when _ => exact hcode _ _
  | .never, .always | .never, .never | .never, .when _ => exact hcode _ _
  | .when _, .always | .when _, .never | .when _, .when _ => exact hcode _ _

variable {σ : Type}

/-- **The statements of a class test membership**: they fail at the end of the input and where the class does not hold the
character, and else skip it and go on, whatever comes next. -/
theorem run_classStmts (rt : Runtime σ) (env : Env σ) (c : CharClass) (k : Cont) (n : Nat) (s : σ) :
    Block.run rt env (emitClass c k n).1 s =
      match rt.current s with
      | none => .value false s
      | some x =>
        if c.holds x then Block.run rt env (retCall .skip [.number 1] k n).1 s else .value false s := by
  unfold emitClass
  split
  · rename_i ha hw
    rw [Block.run, execAll_failStmt]
    cases rt.current s with
    | none => rfl
    | some x => simp [c.holds_eq_false rt ha hw x]
  · exact execAll_classStmts rt c _ env _ s

/-- **The code of a class tests the members that can be spelled.** Take any class whose members and bounds are at least
zero: single or in ranges, in any order, across the limit of ASCII or the wrong way round, complement or not. Its code and
the code that it spells have the same text, in which every literal is that of the character it spells; and that code, on
every matcher and before every continuation, fails at the end of the input, skips the character and goes on if the class
as it is spelled holds it, and fails if not. A class of characters is spelled as it is. -/
theorem class_code_tests_spelled_members (rt : Runtime σ) (env : Env σ) (c : CharClass) (k : Cont) (n : Nat)
    (hc : c.NonNegative) :
    (∀ p indent, Block.text p indent (Block.spelled (emitClass c k n).1) = Block.text p indent (emitClass c k n).1) ∧
    (∀ (m : Int) (x : Char), quotedCode m = quotedCode x.toNat ↔ spelledCode m = x.toNat) ∧
    (∀ s, Block.run rt env (Block.spelled (emitClass c k n).1) s =
      match rt.current s with
      | none => .value false s
      | some x =>
        if c.spelled.holds x then Block.run rt env (Block.spelled (retCall .skip [.number 1] k n).1) s
        else .value false s) ∧
    (c.OfChars → c.spelled = c) := by
  refine ⟨fun p indent => Block.text_spelled p indent _, quotedCode_eq_iff, fun s => ?_, CharClass.OfChars.spelled_eq⟩
  rw [emitClass_spelled hc, retSkip_spelled]
  exact run_classStmts rt env c.spelled k.spelled n s

/-- a complement with a range across the limit, one the wrong way round, and a member that is no character -/
def awkwardClass : CharClass := ⟨true, [0xd800], [⟨'a'.toNat, 'ß'.toNat⟩, ⟨'z'.toNat, 'b'.toNat⟩]⟩

/-- on the small matcher the code of the awkward class turns down `ß`, and U+FFFD for the member that is no character -/
theorem awkwardClass_runs :
    awkwardClass.NonNegative ∧
    Block.run plainRuntime (fun _ => .truth false) (Block.spelled (emitClass awkwardClass .accept 0).1) ['à'] =
      .value true [] ∧
    Block.run plainRuntime (fun _ => .truth false) (Block.spelled (emitClass awkwardClass .accept 0).1) ['ß'] =
      .value false ['ß'] ∧
    Block.run plainRuntime (fun _ => .truth false) (Block.spelled (emitClass awkwardClass .accept 0).1) ['�'] =
      .value false ['�'] := by
  have hc : awkwardClass.NonNegative := ⟨by decide, by decide⟩
  obtain ⟨-, -, hrun, -⟩ := class_code_tests_spelled_members plainRuntime (fun _ => .truth false) awkwardClass .accept 0 hc
  refine ⟨hc, ?_, ?_, ?_⟩
  · rw [hrun]; rfl
  · rw [hrun]; rfl
  · rw [hrun]; rfl

/-- No literal spells a bound above all characters: the class from 128 on holds `😀`, but its code turns it down, and has
the text of the code for the class that ends with U+FFFD. -/
theorem large_bound_is_not_spelled :
    CharClass.holds ⟨false, [], [⟨128, 2147483647⟩]⟩ '😀'.toNat = true ∧
    Block.run plainRuntime (fun _ => .truth false)
      (Block.spelled (emitClass ⟨false, [], [⟨128, 2147483647⟩]⟩ .accept 0).1) ['😀'] = .value false ['😀'] ∧
    ∀ p indent, Block.text p indent (emitClass ⟨false, [], [⟨128, 2147483647⟩]⟩ .accept 0).1 =
      Block.text p indent (emitClass ⟨false, [], [⟨128, 0xfffd⟩]⟩ .accept 0).1 := by
  refine ⟨by decide, rfl, fun p indent => ?_⟩
  exact (Block.text_spelled p indent _).symm

end MatcherGen
