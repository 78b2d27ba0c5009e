/-
The code of a tree is valid. As for its meaning, the induction is over the tree and for every continuation at once: a
continuation is valid in a scope if it names a continuation there or makes valid blocks. Whatever is made is made in
the scope it was handed over in, except for the arms of a choice and the unit of a repetition, which get a name of
their own.

Main statements:
- `classCheck_valid`: the test of a class is valid, and compares bytes with ASCII members only;
- `Node.emit_valid`: the statements of a node are a valid function body;
- `body_is_valid`: so is the body for every request, and it binds each continuation once.
-/
import MatcherGen.Proofs.Classes
import MatcherGen.Proofs.Making
import MatcherGen.Proofs.ReaderSteps
import MatcherGen.Proofs.StaticCheck
import MatcherGen.Session

namespace MatcherGen

/-! ## Blocks -/

theorem Expr.kindsAll_append (Γ : Scope) (l r : List Expr) :
    Expr.kindsAll Γ (l ++ r) = Expr.kindsAll Γ l ++ Expr.kindsAll Γ r := by
  induction l with
  | nil => rfl
  | cons e l ih => simp [Expr.kindsAll, ih]

@[simp] theorem Block.valid_nil (Γ : Scope) : Block.valid Γ false [] = true := rfl

theorem Block.valid_ret {Γ : Scope} {e : Expr} (h : e.kinds Γ = [.truth]) (whole : Bool) :
    Block.valid Γ whole [.ret e] = true := by
  simp [Block.valid, Stmt.valid, Stmt.declares, Stmt.leaves, h]

@[simp] theorem Block.valid_failStmt (Γ : Scope) (whole : Bool) : Block.valid Γ whole [failStmt] = true :=
  Block.valid_ret rfl whole

/-- a valid conditional may stand before a valid block -/
theorem Block.valid_cond {Γ : Scope} {init : List Stmt} {test : Expr} {body other rest : List Stmt} {whole : Bool}
    (h : Stmt.valid Γ (.cond init test body other) = true) (hrest : Block.valid Γ whole rest = true) :
    Block.valid Γ whole (.cond init test body other :: rest) = true := by
  simp only [Block.valid, h, Stmt.declares, Stmt.leaves, Stmt.after, hrest]
  rfl

/-- a continuation that is bound and used -/
theorem Block.valid_bind {Γ : Scope} {i : Nat} {tail rest : Block} (htail : Block.valid Γ true tail = true)
    (hused : Stmt.anyMentions (.cont i) rest = true)
    (hrest : Block.valid (Γ.declare (.cont i) .cont) true rest = true) :
    Block.valid Γ true (.define [.cont i] (.thunk tail) :: rest) = true := by
  have htailKind : Expr.kinds Γ (.thunk tail) = [.cont] := by simp [Expr.thunk, Expr.kinds, htail]
  have hafter : Stmt.after Γ (.define [.cont i] (.thunk tail)) = Γ.declare (.cont i) .cont := by
    simp [Stmt.after, htailKind, Scope.declareAll]
  simp [Block.valid, Stmt.valid, htailKind, Stmt.declares, Stmt.leaves, hafter, hused, hrest]

/-- a plain test before a failure -/
theorem Stmt.valid_failIf {Γ : Scope} {test : Expr} (h : test.kinds Γ = [.truth]) :
    Stmt.valid Γ (.cond [] test [failStmt] []) = true := by
  simp [Stmt.valid, Stmt.allValid, Stmt.afterAll, h]

/-- a test of the current character before a failure -/
theorem Stmt.valid_failIfRune {Γ : Scope} {test : Expr} (h : test.kinds (Γ.declare .rune .rune) = [.truth])
    (hused : test.mentions .rune = true) :
    Stmt.valid Γ (.cond [.define [.rune] (.method .peek [])] test [failStmt] []) = true := by
  have hpeek : Expr.kinds Γ (.method .peek []) = [.rune] := rfl
  have hafter : Stmt.afterAll Γ [.define [.rune] (.method .peek [])] = Γ.declare .rune .rune := rfl
  simp [Stmt.valid, Stmt.allValid, hafter, hpeek, h, hused, Stmt.isDefine, Stmt.declares]

/-! ## Joined conditions -/

theorem Expr.kinds_foldl_or {Γ : Scope} {e : Expr} {r : List Expr} (he : e.kinds Γ = [.truth])
    (hr : ∀ x ∈ r, x.kinds Γ = [.truth]) : (r.foldl (.binary .or) e).kinds Γ = [.truth] := by
  induction r generalizing e with
  | nil => exact he
  | cons x r ih =>
    refine ih ?_ fun y hy => hr y (List.mem_cons_of_mem x hy)
    simp [Expr.kinds, he, hr x List.mem_cons_self]

theorem Expr.kinds_orAll {Γ : Scope} {l : List Expr} {e : Expr} (h : Expr.orAll l = some e)
    (hl : ∀ x ∈ l, x.kinds Γ = [.truth]) : e.kinds Γ = [.truth] := by
  cases l with
  | nil => simp [Expr.orAll] at h
  | cons x r =>
    simp only [Expr.orAll, Option.some.injEq] at h
    rw [← h]
    exact Expr.kinds_foldl_or (hl x List.mem_cons_self) fun y hy => hl y (List.mem_cons_of_mem x hy)

theorem Expr.anyMentions_iff (x : Ident) (l : List Expr) :
    Expr.anyMentions x l = true ↔ ∃ e ∈ l, Expr.mentions x e = true := by
  induction l with
  | nil => simp [Expr.anyMentions]
  | cons e r ih => simp [Expr.anyMentions, ih]

theorem Expr.not_mentions_of_mem {x : Ident} {l : List Expr} (h : Expr.anyMentions x l = false) {e : Expr}
    (he : e ∈ l) :
    Expr.mentions x e = false := by
  rw [← Bool.not_eq_true, Expr.anyMentions_iff] at h
  rw [← Bool.not_eq_true]
  exact fun hm => h ⟨e, he, hm⟩

theorem Expr.mentions_foldl (op : BinOp) (x : Ident) (e : Expr) (r : List Expr) :
    (r.foldl (.binary op) e).mentions x = (e.mentions x || Expr.anyMentions x r) := by
  induction r generalizing e with
  | nil => simp [Expr.anyMentions]
  | cons y r ih => simp [ih, Expr.mentions, Expr.anyMentions, Bool.or_assoc]

/-- joined conditions mention what the conditions mention -/
theorem Expr.mentions_orAll {l : List Expr} {e : Expr} (h : Expr.orAll l = some e) (x : Ident) :
    e.mentions x = Expr.anyMentions x l := by
  cases l with
  | nil => simp [Expr.orAll] at h
  | cons y r =>
    simp only [Expr.orAll, Option.some.injEq] at h
    rw [← h, Expr.mentions_foldl, Expr.anyMentions]

theorem Expr.orAll_eq_none_iff (l : List Expr) : Expr.orAll l = none ↔ l = [] := by
  cases l <;> simp [Expr.orAll]

/-! ## Classes -/

/-- members of a class are code points -/
def CharClass.encodable (c : CharClass) : Bool :=
  c.singles.all isCodePoint && c.ranges.all fun r => isCodePoint r.lo && isCodePoint r.hi

/-- values of the kind can be compared with all members of the side -/
def ClassSide.Fits (s : ClassSide) (τ : Kind) : Prop :=
  (∀ n ∈ s.singles, τ.comparesWith (.code n) = true) ∧
    ∀ r ∈ s.ranges, τ.comparesWith (.code r.lo) = true ∧ τ.comparesWith (.code r.hi) = true

/-- **The current byte is compared with 0 to 127 only.** -/
theorem CharClass.asciiSide_fits (c : CharClass) (h : c.encodable = true) : c.asciiSide.Fits .byte := by
  simp only [CharClass.encodable, Bool.and_eq_true, List.all_eq_true, isCodePoint, decide_eq_true_eq] at h
  obtain ⟨hsingles, hranges⟩ := h
  constructor
  · intro n hn
    simp only [CharClass.asciiSide, List.mem_filter, decide_eq_true_eq] at hn
    have := hsingles n hn.1
    simp only [Kind.comparesWith, Bool.and_eq_true, decide_eq_true_eq]
    exact ⟨this.1, hn.2⟩
  · intro r hr
    simp only [CharClass.asciiSide, List.mem_flatMap] at hr
    obtain ⟨whole, hwhole, hr⟩ := hr
    have := hranges whole hwhole
    simp only [Kind.comparesWith, Bool.and_eq_true, decide_eq_true_eq]
    unfold ClassRange.asciiPart at hr
    -- an inverted range stays whole below the limit, since its upper end is the smaller one
    split_ifs at hr <;> simp only [List.mem_singleton, List.not_mem_nil] at hr <;> subst hr <;>
      simp only [asciiLimit] at * <;> omega

theorem CharClass.wideSide_fits (c : CharClass) (h : c.encodable = true) : c.wideSide.Fits .rune := by
  simp only [CharClass.encodable, Bool.and_eq_true, List.all_eq_true, isCodePoint, decide_eq_true_eq] at h
  obtain ⟨hsingles, hranges⟩ := h
  constructor
  · intro n hn
    simp only [CharClass.wideSide, List.mem_filter, decide_eq_true_eq] at hn
    simpa [Kind.comparesWith, isCodePoint] using hsingles n hn.1
  · intro r hr
    simp only [CharClass.wideSide, List.mem_flatMap] at hr
    obtain ⟨whole, hwhole, hr⟩ := hr
    have := hranges whole hwhole
    simp only [Kind.comparesWith, isCodePoint, Bool.and_eq_true, decide_eq_true_eq]
    unfold ClassRange.widePart at hr
    split_ifs at hr <;> simp only [List.mem_singleton, List.not_mem_nil] at hr <;> subst hr <;>
      simp only [asciiLimit] at * <;> omega

theorem ClassSide.tests_kinds {s : ClassSide} {τ : Kind} (hs : s.Fits τ) {Γ : Scope} {x : Ident} (hx : Γ x = some τ) :
    ∀ e ∈ s.tests x, e.kinds Γ = [.truth] := by
  intro e he
  rcases List.mem_append.1 he with he | he
  · obtain ⟨n, hn, rfl⟩ := List.mem_map.1 he
    simp [Expr.kinds, hx, hs.1 n hn]
  · obtain ⟨r, hr, rfl⟩ := List.mem_map.1 he
    obtain ⟨hlo, hhi⟩ := hs.2 r hr
    simp [Expr.kinds, hx, hlo, hhi]

theorem ClassSide.tests_mention (s : ClassSide) (x : Ident) : ∀ e ∈ s.tests x, e.mentions x = true := by
  intro e he
  rcases List.mem_append.1 he with he | he
  · obtain ⟨n, -, rfl⟩ := List.mem_map.1 he
    simp [Expr.mentions]
  · obtain ⟨r, -, rfl⟩ := List.mem_map.1 he
    simp [Expr.mentions]

/-- the test of a rejection, if there is one, is a truth value and mentions its subject -/
def Rejection.Valid (x : Ident) (τ : Kind) : Rejection → Prop
  | .when test => test.mentions x = true ∧ ∀ Γ : Scope, Γ x = some τ → test.kinds Γ = [.truth]
  | _ => True

theorem ClassSide.rejection_valid {s : ClassSide} {τ : Kind} (hs : s.Fits τ) (x : Ident) (negated : Bool) :
    (s.rejection x negated).Valid x τ := by
  unfold ClassSide.rejection
  split
  · split_ifs <;> trivial
  · rename_i member h
    have hkinds : ∀ Γ : Scope, Γ x = some τ → member.kinds Γ = [.truth] :=
      fun Γ hx => Expr.kinds_orAll h fun e he => ClassSide.tests_kinds hs hx e he
    have hmentions : member.mentions x = true := by
      have hne : s.tests x ≠ [] := by
        intro hnil
        simp [hnil, Expr.orAll] at h
      obtain ⟨e, he⟩ := List.exists_mem_of_ne_nil _ hne
      rw [Expr.mentions_orAll h, Expr.anyMentions_iff]
      exact ⟨e, he, s.tests_mention x e he⟩
    show Expr.mentions x _ = true ∧ _
    split_ifs
    · exact ⟨hmentions, hkinds⟩
    · refine ⟨by simpa [Expr.mentions] using hmentions, fun Γ hx => ?_⟩
      simp [Expr.kinds, hkinds Γ hx]

/-- the names that the look at the current byte declares -/
def byteScope (Γ : Scope) (name : Ident) : Scope := (Γ.declare name .byte).declare .ok .truth

/-- a look at the current byte; `name` is the byte's name if a test uses it -/
theorem Stmt.valid_look {Γ : Scope} {name : Ident} {test : Expr} {body other : List Stmt}
    (hname : name = .blank ∨ Stmt.anyMentions name body = true) (hok : test.mentions .ok = true)
    (htest : test.kinds (byteScope Γ name) = [.truth]) (hbody : Block.valid (byteScope Γ name) false body = true)
    (hother : Block.valid (byteScope Γ name) false other = true) :
    Stmt.valid Γ (.cond [.define [name, .ok] (.method .peekByte [])] test body other) = true := by
  have hlook : Expr.kinds Γ (.method .peekByte []) = [.byte, .truth] := rfl
  have hafter : Stmt.afterAll Γ [.define [name, .ok] (.method .peekByte [])] = byteScope Γ name := rfl
  have hused : ∀ x ∈ Stmt.declares (.define [name, .ok] (.method .peekByte [])),
      (test.mentions x || Stmt.anyMentions x body || Stmt.anyMentions x other) = true := by
    intro x hx
    simp only [Stmt.declares, List.mem_filter, List.mem_cons, List.not_mem_nil, or_false, decide_eq_true_eq] at hx
    rcases hx with ⟨rfl | rfl, hne⟩
    · simp [hname.resolve_left hne]
    · simp [hok]
  have hfits : Stmt.allValid Γ [.define [name, .ok] (.method .peekByte [])] = true := by
    simp [Stmt.allValid, Stmt.valid, hlook]
  rw [Stmt.valid, hafter]
  simp only [hfits, htest, hbody, hother, List.flatMap_cons, List.flatMap_nil, List.append_nil,
    List.all_eq_true.2 hused]
  rfl

theorem Rejection.asciiStmts_valid {a : Rejection} (ha : a.Valid .byte .byte) {Γ : Scope} (hΓ : Γ .byte = some .byte) :
    Block.valid Γ false a.asciiStmts = true := by
  cases a with
  | always => exact Block.valid_failStmt Γ false
  | never => rfl
  | when test => exact Block.valid_cond (Stmt.valid_failIf (ha.2 Γ hΓ)) rfl

theorem Rejection.wideStmts_valid {w : Rejection} (hw : w.Valid .rune .rune) (Γ : Scope) :
    Block.valid Γ false w.wideStmts = true := by
  cases w with
  | always => exact Block.valid_failStmt Γ false
  | never => rfl
  | when test => exact Block.valid_cond (Stmt.valid_failIfRune (hw.2 _ rfl) hw.1) rfl

/-- **The test of a class is valid** before a valid block: it declares the byte if and only if a test uses it. -/
theorem classCheck_valid {Γ : Scope} {ascii wide : Rejection} (ha : ascii.Valid .byte .byte)
    (hw : wide.Valid .rune .rune) {rest : Block} (hrest : Block.valid Γ true rest = true) :
    Block.valid Γ true (classCheck ascii wide ++ rest) = true := by
  have hok : ∀ name, Expr.kinds (byteScope Γ name) (.name .ok) = [.truth] := fun name => rfl
  have hnot : ∀ name, Expr.kinds (byteScope Γ name) (.not (.name .ok)) = [.truth] := fun name => rfl
  have hwide : ∀ name, Block.valid (byteScope Γ name) false wide.wideStmts = true :=
    fun name => wide.wideStmts_valid hw _
  cases ascii with
  | always =>
    cases wide with
    | never => exact Block.valid_cond (Stmt.valid_look (.inl rfl) rfl (hok _) (Block.valid_failStmt _ _) rfl) hrest
    | always | when _ =>
      exact Block.valid_cond (Stmt.valid_look (.inl rfl) rfl (hok _) (Block.valid_failStmt _ _) (hwide _)) hrest
  | never =>
    cases wide with
    | never => exact hrest
    | always | when _ => exact Block.valid_cond (Stmt.valid_look (.inl rfl) rfl (hnot _) (hwide _) rfl) hrest
  | when test =>
    have hascii := Rejection.asciiStmts_valid ha (Γ := byteScope Γ .byte) rfl
    have hused : Stmt.anyMentions .byte (Rejection.when test).asciiStmts = true := by
      simp [Rejection.asciiStmts, Stmt.anyMentions, Stmt.mentions, ha.1]
    cases wide with
    | never => exact Block.valid_cond (Stmt.valid_look (.inr hused) rfl (hok _) hascii rfl) hrest
    | always | when _ => exact Block.valid_cond (Stmt.valid_look (.inr hused) rfl (hok _) hascii (hwide _)) hrest

/-! ## Continuations and leaves -/

/-- the continuation is a valid one in this scope -/
def Cont.Valid (Γ : Scope) : Cont → Prop
  | .named x => Γ x = some .cont
  | .delayed make => ∀ n, Block.valid Γ true (make n).1 = true

theorem Cont.accept_valid (Γ : Scope) : Cont.accept.Valid Γ := fun _ => rfl

theorem Cont.Valid.func {Γ : Scope} {k : Cont} (hk : k.Valid Γ) (n : Nat) : (k.func n).1.kinds Γ = [.cont] := by
  cases k with
  | named x =>
    have hx : Γ x = some .cont := hk
    simp [Cont.func, Expr.kinds, hx]
  | delayed make =>
    have hmade : Block.valid Γ true (make n).1 = true := hk n
    simp [Cont.func, Expr.thunk, Expr.kinds, hmade]

theorem Cont.Valid.stmts {Γ : Scope} {k : Cont} (hk : k.Valid Γ) (n : Nat) :
    Block.valid Γ true (k.stmts n).1 = true := by
  cases k with
  | named x =>
    have hx : Γ x = some .cont := hk
    exact Block.valid_ret (by simp [Expr.kinds, hx]) true
  | delayed make => exact hk n

/-- a returned call is valid if the arguments are what the method asks for -/
theorem retCall_valid {Γ : Scope} {k : Cont} (hk : k.Valid Γ) {m : Method} {args : List Expr} {params : List Kind}
    (hargs : Expr.kindsAll Γ args = params.map fun τ => [τ]) (hparams : m.params = params ++ [.cont])
    (hresults : m.results = [.truth]) (n : Nat) : Block.valid Γ true (retCall m args k n).1 = true := by
  have hcall : Expr.kinds Γ (.method m (args ++ [(k.func n).1])) = [.truth] := by
    simp [Expr.kinds, Expr.kindsAll_append, Expr.kindsAll, hargs, hk.func n, hparams, hresults]
  exact Block.valid_ret hcall true

theorem emitStub_valid {Γ : Scope} {k : Cont} (hk : k.Valid Γ) (c : Style) (message : List Char) (n : Nat) :
    Block.valid Γ true (emitStub c message k n).1 = true := by
  unfold emitStub
  dsimp only
  split_ifs
  · rfl
  · simp [Block.valid, Stmt.valid, Stmt.declares, Stmt.leaves, Stmt.after, hk.stmts n]

theorem isCodePoint_char (c : Char) : isCodePoint c.toNat = true := by
  have hvalid : c.toNat < 0xd800 ∨ 0xdfff < c.toNat ∧ c.toNat < 0x110000 := c.valid
  simp only [isCodePoint, Bool.and_eq_true, decide_eq_true_eq]
  omega

theorem emitLiteral_valid {Γ : Scope} {k : Cont} (hk : k.Valid Γ) (c : Style) (text : List Char) (fold : Bool)
    (n : Nat) :
    Block.valid Γ true (emitLiteral c text fold k n).1 = true := by
  match text with
  | [] => exact hk.stmts n
  | [x] =>
    have hx : Expr.kindsAll Γ [.code x.toNat] = [Kind.rune].map fun τ => [τ] := by
      simp [Expr.kindsAll, Expr.kinds, isCodePoint_char x]
    simp only [emitLiteral]
    split_ifs
    · exact retCall_valid hk hx rfl rfl n
    · exact retCall_valid hk hx rfl rfl n
  | x :: y :: r =>
    have hs : Expr.kindsAll Γ [.text (x :: y :: r)] = [Kind.text].map fun τ => [τ] := rfl
    simp only [emitLiteral]
    split_ifs
    · exact retCall_valid hk hs rfl rfl n
    · exact retCall_valid hk hs rfl rfl n

theorem skip_valid {Γ : Scope} {k : Cont} (hk : k.Valid Γ) (n : Nat) :
    Block.valid Γ true (retCall .skip [.number 1] k n).1 = true := by
  have hone : Expr.kindsAll Γ [.number 1] = [Kind.number].map fun τ => [τ] := rfl
  exact retCall_valid hk hone rfl rfl n

/-- a call of a method that takes a continuation only -/
theorem call_valid {Γ : Scope} {k : Cont} (hk : k.Valid Γ) {m : Method} (hparams : m.params = [.cont])
    (hresults : m.results = [.truth]) (n : Nat) : Block.valid Γ true (retCall m [] k n).1 = true := by
  have hnone : Expr.kindsAll Γ [] = ([] : List Kind).map fun τ => [τ] := rfl
  exact retCall_valid hk hnone hparams hresults n

theorem emitDot_valid {Γ : Scope} {k : Cont} (hk : k.Valid Γ) (c : Style) (dotAll : Bool) (n : Nat) :
    Block.valid Γ true (emitDot c dotAll k n).1 = true := by
  unfold emitDot
  split_ifs
  · exact skip_valid hk n
  · exact call_valid hk rfl rfl n

theorem failAtEnd_valid (Γ : Scope) : Stmt.valid Γ failAtEnd = true := Stmt.valid_failIf rfl

theorem emitClass_valid {Γ : Scope} {k : Cont} (hk : k.Valid Γ) (members : CharClass) (hm : members.encodable = true)
    (n : Nat) : Block.valid Γ true (emitClass members k n).1 = true := by
  have hascii := ClassSide.rejection_valid (members.asciiSide_fits hm) .byte members.negated
  have hwide := ClassSide.rejection_valid (members.wideSide_fits hm) .rune members.negated
  unfold emitClass
  split
  · exact Block.valid_failStmt Γ true
  · exact Block.valid_cond (failAtEnd_valid Γ) (classCheck_valid hascii hwide (skip_valid hk n))

theorem shorthandTest_valid (Γ : Scope) (hΓ : Γ .rune = some .rune) (letter : Char) :
    (shorthandTest letter).kinds Γ = [.truth] ∧ (shorthandTest letter).mentions .rune = true := by
  unfold shorthandTest
  dsimp only
  split_ifs <;> simp [Expr.kinds, Expr.mentions, hΓ, Kind.comparesWith, isCodePoint]

theorem emitShorthand_valid {Γ : Scope} {k : Cont} (hk : k.Valid Γ) (letter : Char) (n : Nat) :
    Block.valid Γ true (emitShorthand letter k n).1 = true := by
  by_cases hd : letter = 'd'
  · subst hd
    exact call_valid hk rfl rfl n
  · by_cases hw : letter = 'w'
    · subst hw
      exact call_valid hk rfl rfl n
    · obtain ⟨hkinds, hmentions⟩ := shorthandTest_valid (Γ.declare .rune .rune) rfl letter
      rw [emitShorthand_test letter k n hd hw]
      refine Block.valid_cond (failAtEnd_valid Γ) (Block.valid_cond (Stmt.valid_failIfRune ?_ ?_) (skip_valid hk n))
      · split_ifs <;> simp [Expr.kinds, hkinds]
      · split_ifs <;> simp [Expr.mentions, hmentions]

/-! ## Choices and repetitions -/

theorem retArms_valid {Γ : Scope} {tries : List Expr} (hne : tries ≠ []) (h : ∀ e ∈ tries, e.kinds Γ = [.truth]) :
    Block.valid Γ true [retArms tries] = true := by
  unfold retArms
  split
  · exact absurd ((Expr.orAll_eq_none_iff tries).1 ‹_›) hne
  · rename_i e hsome
    exact Block.valid_ret (Expr.kinds_orAll hsome h) true

theorem retArms_mentions (x : Ident) (tries : List Expr) :
    Stmt.anyMentions x [retArms tries] = Expr.anyMentions x tries := by
  unfold retArms
  split
  · rw [(Expr.orAll_eq_none_iff tries).1 ‹_›]
    rfl
  · rename_i e hsome
    simp [Stmt.anyMentions, Stmt.mentions, Expr.mentions_orAll hsome]

/-- the bounds and the unit are what the driver asks for -/
theorem Quantity.driver_params (q : Quantity) {m : Method} {bounds : List Expr} (h : q.driver = some (m, bounds))
    (Γ : Scope) :
    ∃ params, Expr.kindsAll Γ bounds = (params.map fun τ => [τ]) ∧ m.params = params ++ [.unit, .cont] ∧
      m.results = [.truth] := by
  obtain ⟨op, lo, hi, greedy⟩ := q
  cases op with
  | star | plus | quest =>
    simp only [Quantity.driver, Option.some.injEq, Prod.mk.injEq] at h
    obtain ⟨rfl, rfl⟩ := h
    exact ⟨[], rfl, by cases greedy <;> rfl, by cases greedy <;> rfl⟩
  | exact | atLeast =>
    simp only [Quantity.driver, Option.some.injEq, Prod.mk.injEq] at h
    obtain ⟨rfl, rfl⟩ := h
    exact ⟨[.number], rfl, by cases greedy <;> rfl, by cases greedy <;> rfl⟩
  | between =>
    simp only [Quantity.driver, Option.some.injEq, Prod.mk.injEq] at h
    obtain ⟨rfl, rfl⟩ := h
    exact ⟨[.number, .number], rfl, by cases greedy <;> rfl, by cases greedy <;> rfl⟩
  | unknown => simp [Quantity.driver] at h

/-! ## Trees -/

mutual
/-- every choice has an arm, and every member of a class is a code point -/
def Node.emittable : Node → Bool
  | .seq children => Node.allEmittable children
  | .alt arms => !arms.isEmpty && Node.allEmittable arms
  | .group inner _ _ => inner.emittable
  | .rep atom _ => atom.emittable
  | .cls members => members.encodable
  | .absent | .lit _ _ | .dot _ | .anchor _ | .esc _ | .stub _ => true

/-- the same of several nodes -/
def Node.allEmittable : List Node → Bool
  | [] => true
  | x :: r => x.emittable && Node.allEmittable r
end

/-- no parameter deeper than `d` is in scope -/
def Scope.ShallowAt (Γ : Scope) (d : Nat) : Prop := ∀ j, d < j → Γ (.next j) = none

theorem Scope.ShallowAt.bind {Γ : Scope} {d : Nat} (h : Γ.ShallowAt d) (i : Nat) :
    (Γ.declare (.cont i) .cont).ShallowAt d := by
  intro j hj
  simpa [Scope.declare] using h j hj

theorem Scope.ShallowAt.enter {Γ : Scope} {d : Nat} (h : Γ.ShallowAt d) :
    (Γ.declare (.next (d + 1)) .cont).ShallowAt (d + 1) := by
  intro j hj
  have hne : j ≠ d + 1 := by omega
  simpa [Scope.declare, hne] using h j (by omega)

/-- arms that do not mention a local are as valid without it -/
theorem kinds_of_not_mentioned {Γ : Scope} {i : Nat} {e : Expr} (hx : Expr.mentions (.cont i) e = false) :
    e.kinds (Γ.declare (.cont i) .cont) = e.kinds Γ := by
  have hagree : Scope.Agree (fun y => y ≠ .cont i) (Γ.declare (.cont i) .cont) Γ := by
    intro y hy
    have hne : y ≠ .cont i := by
      rcases hy with hy | ⟨d, rfl⟩
      · exact hy
      · simp
    simp [Scope.declare, hne]
  refine Expr.kinds_congr e ?_ hagree
  rintro y hy rfl
  rw [hx] at hy
  exact absurd hy (by simp)

theorem Node.emitArms_ne_nil (c : Style) (d : Nat) {arms : List Node} (h : arms ≠ []) (k : Cont) (n : Nat) :
    (Node.emitArms c d arms k n).1 ≠ [] := by
  cases arms with
  | nil => exact absurd rfl h
  | cons x r => simp [Node.emitArms]

mutual
/-- **The statements of a node are a valid function body**, before a valid continuation. -/
theorem Node.emit_valid (c : Style) (x : Node) (hx : x.emittable = true) {d : Nat} {Γ : Scope} (hΓ : Γ.ShallowAt d)
    {k : Cont} (hk : k.Valid Γ) (n : Nat) : Block.valid Γ true (x.emit c d k n).1 = true := by
  match x with
  | .absent => simp only [Node.emit]; exact emitStub_valid hk c _ n
  | .seq children =>
    simp only [Node.emit]
    exact Node.emitSeq_valid c children (by simpa only [Node.emittable] using hx) hΓ hk n
  | .alt arms =>
    simp only [Node.emittable, Bool.and_eq_true, Bool.not_eq_true', List.isEmpty_eq_false_iff] at hx
    obtain ⟨hne, harms⟩ := hx
    cases hl : c.legacy with
    | true =>
      rw [Node.emit_alt_legacy d arms n hl k]
      exact retArms_valid (Node.emitArms_ne_nil c d hne _ _)
        (Node.emitArms_valid c arms harms hΓ (Cont.accept_valid Γ) n)
    | false =>
      cases k with
      | named y =>
        rw [Node.emit_alt_named d arms n hl y]
        exact retArms_valid (Node.emitArms_ne_nil c d hne _ _) (Node.emitArms_valid c arms harms hΓ hk n)
      | delayed make =>
        have hlocal : (Cont.named (.cont n)).Valid (Γ.declare (.cont n) .cont) := by simp [Cont.Valid, Scope.declare]
        have htries := Node.emitArms_valid c arms harms (hΓ.bind n) hlocal (n + 1)
        cases hused : Expr.anyMentions (.cont n) (Node.emitArms c d arms (.named (.cont n)) (n + 1)).1 with
        | true =>
          rw [Node.emit_alt_used d arms n hl make hused]
          exact Block.valid_bind (hk _) (by rw [retArms_mentions, hused])
            (retArms_valid (Node.emitArms_ne_nil c d hne _ _) htries)
        | false =>
          rw [Node.emit_alt_unused d arms n hl make hused]
          refine retArms_valid (Node.emitArms_ne_nil c d hne _ _) fun e he => ?_
          rw [← kinds_of_not_mentioned (Expr.not_mentions_of_mem hused he)]
          exact htries e he
  | .group inner _ _ =>
    simp only [Node.emit]
    exact Node.emit_valid c inner (by simpa only [Node.emittable] using hx) hΓ hk n
  | .lit text fold => simp only [Node.emit]; exact emitLiteral_valid hk c text fold n
  | .dot dotAll => simp only [Node.emit]; exact emitDot_valid hk c dotAll n
  | .anchor kind =>
    simp only [Node.emit]
    exact call_valid hk (by cases kind <;> rfl) (by cases kind <;> rfl) n
  | .cls members =>
    simp only [Node.emit]
    exact emitClass_valid hk members (by simpa only [Node.emittable] using hx) n
  | .esc letter => simp only [Node.emit]; exact emitShorthand_valid hk letter n
  | .rep atom q =>
    have hatom : atom.emittable = true := by simpa only [Node.emittable] using hx
    have hnext : (Cont.named (.next (d + 1))).Valid (Γ.declare (.next (d + 1)) .cont) := by
      simp [Cont.Valid, Scope.declare]
    have hbody := Node.emit_valid c atom hatom hΓ.enter hnext n
    simp only [Node.emit]
    cases hq : q.driver with
    | none => exact emitStub_valid hk c _ _
    | some driver =>
      obtain ⟨m, bounds⟩ := driver
      obtain ⟨params, hbounds, hparams, hresults⟩ := q.driver_params hq Γ
      have hunit :
          Expr.kinds Γ (.func (some (d + 1)) (atom.emit c (d + 1) (.named (.next (d + 1))) n).1) = [.unit] := by
        simp [Expr.kinds, hΓ (d + 1) (Nat.lt_succ_self d), hbody]
      have hargs :
          Expr.kindsAll Γ (bounds ++ [.func (some (d + 1)) (atom.emit c (d + 1) (.named (.next (d + 1))) n).1]) =
            (params ++ [Kind.unit]).map fun τ => [τ] := by
        simp [Expr.kindsAll_append, Expr.kindsAll, hbounds, hunit]
      exact retCall_valid hk hargs (by simpa using hparams) hresults _
  | .stub message => simp only [Node.emit]; exact emitStub_valid hk c message n

theorem Node.emitSeq_valid (c : Style) (l : List Node) (hl : Node.allEmittable l = true) {d : Nat} {Γ : Scope}
    (hΓ : Γ.ShallowAt d) {k : Cont} (hk : k.Valid Γ) (n : Nat) :
    Block.valid Γ true (Node.emitSeq c d l k n).1 = true := by
  match l with
  | [] => simp only [Node.emitSeq]; exact hk.stmts n
  | [x] =>
    simp only [Node.allEmittable, Bool.and_true] at hl
    simp only [Node.emitSeq]
    exact Node.emit_valid c x hl hΓ hk n
  | x :: y :: r =>
    rw [Node.allEmittable, Bool.and_eq_true] at hl
    have htail : (Cont.delayed (Node.emitSeq c d (y :: r) k)).Valid Γ :=
      fun m => Node.emitSeq_valid c (y :: r) hl.2 hΓ hk m
    simp only [Node.emitSeq]
    exact Node.emit_valid c x hl.1 hΓ htail n

theorem Node.emitArms_valid (c : Style) (l : List Node) (hl : Node.allEmittable l = true) {d : Nat} {Γ : Scope}
    (hΓ : Γ.ShallowAt d) {k : Cont} (hk : k.Valid Γ) (n : Nat) :
    ∀ e ∈ (Node.emitArms c d l k n).1, e.kinds Γ = [.truth] := by
  match l with
  | [] => simp [Node.emitArms]
  | x :: r =>
    rw [Node.allEmittable, Bool.and_eq_true] at hl
    have hbody := Node.emit_valid c x hl.1 hΓ hk n
    intro e he
    simp only [Node.emitArms, List.mem_cons] at he
    rcases he with rfl | he
    · simp [Expr.thunk, Expr.kinds, hbody]
    · exact Node.emitArms_valid c r hl.2 hΓ hk _ e he
end

/-! ## Trees that are read -/

/-- a class of characters can be tested for -/
theorem CharClass.OfChars.encodable {c : CharClass} (h : c.OfChars) : c.encodable = true := by
  obtain ⟨hsingles, hranges⟩ := h
  simp only [CharClass.encodable, Bool.and_eq_true, List.all_eq_true]
  refine ⟨fun n hn => ?_, fun r hr => ?_⟩
  · obtain ⟨x, rfl⟩ := hsingles n hn
    exact isCodePoint_char x
  · obtain ⟨lo, hi, rfl⟩ := hranges r hr
    exact ⟨isCodePoint_char lo, isCodePoint_char hi⟩

theorem classPiece_emittable (flags : Flags) (pos : Nat) (s : List Char) :
    (classPiece flags pos s).node.emittable = true := by
  unfold classPiece
  dsimp only
  split <;> exact (classBody_ofChars _ _ _ (CharClass.OfChars.empty _)).encodable

theorem atomPiece_emittable (flags : Flags) (pos : Nat) (c : Char) (s : List Char) :
    (atomPiece flags pos c s).node.emittable = true := by
  unfold atomPiece
  split_ifs
  all_goals try rfl
  · exact classPiece_emittable flags pos s
  · unfold escapePiece
    split
    · rfl
    · dsimp only
      split_ifs <;> rfl

theorem Node.allEmittable_iff (l : List Node) : Node.allEmittable l = true ↔ ∀ x ∈ l, x.emittable = true := by
  induction l with
  | nil => simp [Node.allEmittable]
  | cons x r ih => simp [Node.allEmittable, ih]

theorem emittable_kept : Node.Kept fun x => x.emittable = true where
  atom := atomPiece_emittable
  stub := fun _ => rfl
  rep := fun _ _ h => h
  group := fun _ _ _ h => h
  seq := fun l h => (Node.allEmittable_iff l).2 h
  alt := by
    intro l hlen h
    have hne : l ≠ [] := by rintro rfl; simp at hlen
    simp [Node.emittable, hne, (Node.allEmittable_iff l).2 h]

/-! ## The body -/

/-- **Every body is valid code.** For every pattern and all options, the body passes the check: names are used in their
scope and locals are used at all, functions end in a return with a value or a panic, calls have the arguments that the
method asks for, and bytes are compared with ASCII constants. No continuation is bound twice. -/
theorem body_is_valid (o : Options) :
    let s := Session.start o (Reading.ofPattern o.pattern)
    Block.valid .empty true s.body = true ∧ (Block.locals s.body).Nodup := by
  have hroot := Reading.root_keeps emittable_kept o.pattern
  have hshallow : Scope.empty.ShallowAt 0 := fun _ _ => rfl
  refine ⟨?_, ?_⟩
  · exact Node.emit_valid _ _ hroot hshallow (Cont.accept_valid .empty) 0
  · exact (Node.emit_numbered _ 0 _ Cont.accept_numbers 0).nodup

-- a local that nothing uses, and a byte compared with a constant beyond ASCII, do not pass
example : Block.valid .empty true [.define [.cont 0] (.thunk [failStmt]), failStmt] = false := by decide

example : Block.valid .empty true [.cond [.define [.byte, .ok] (.method .peekByte [])] (.name .ok)
    [.cond [] (.binary .eq (.name .byte) (.code 200)) [failStmt] []] [], failStmt] = false := by decide

end MatcherGen
