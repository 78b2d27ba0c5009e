/-
Generated code as a scanner of source text sees it. The scanner reads one character after the other and gives up at a
character that no source file may hold, at a literal that is not closed on its line or holds no proper escape, at a
character outside names, numbers and operators, and at a bracket that does not close the innermost open one.

Main statements:
- `Scanner.run_frame`: brackets that are open around a text do not matter inside it;
- `quoted_skips`, `quotedCode_skips`: a literal is one, whatever it quotes;
- `Expr.layout_skips`, `Stmt.layoutBlock_skips`: code whose comments are proper comment lines is scanned to its end and
  leaves no bracket open.
-/
import Mathlib.Data.List.DropRight
import MatcherGen.Code.File
import MatcherGen.Proofs.Comments

namespace MatcherGen

/-! ## The scanner -/

/-- where a scanner stands -/
inductive ScanMode where
  /-- between the characters of code -/
  | code
  /-- after the first slash of a comment -/
  | slash
  | comment
  /-- inside a literal that `quote` opened -/
  | literal (quote : Char)
  /-- in a character literal that has its character -/
  | full
  /-- after a backslash -/
  | escape (quote : Char)
  /-- before `left` digits of an escape -/
  | digits (quote : Char) (left : Nat)
deriving DecidableEq, Repr

/-- a scanner: its mode, and the closing brackets it waits for, the innermost first -/
structure Scanner where
  mode : ScanMode
  awaited : List Char
deriving DecidableEq, Repr

/-- may the character stand in a source file? -/
def isLegal (c : Char) : Bool := (Glyph.scalar c).illegal?.isNone

/-- the characters of names, numbers, operators and blanks; every character beyond ASCII counts as a letter -/
def isCodeChar (c : Char) : Bool :=
  isAsciiLetter c || isAsciiDigit c || 0x80 ≤ c.toNat || "_ \t\n.,;:=|&<>!-".toList.contains c

/-- a digit of an escape -/
def isHexDigit (c : Char) : Bool := isAsciiDigit c || ('a' ≤ c && c ≤ 'f')

/-- the letters that stand for a control character after a backslash, and the backslash -/
def escapeNames : List Char := "abfnrtv\\".toList

/-- the mode after one character of a literal; a character literal has no more than one -/
def ScanMode.afterOne (quote : Char) : ScanMode := if quote == '\'' then .full else .literal quote

/-- the mode after one more character outside code -/
def ScanMode.next : ScanMode → Char → Option ScanMode
  | .code, _ => none
  | .slash, c => if c == '/' then some .comment else none
  | .comment, c => if c == '\n' then some .code else some .comment
  | .literal quote, c =>
    if c == quote then if quote == '\'' then none else some .code
    else if c == '\\' then some (.escape quote)
    else if c == '\n' then none
    else some (.afterOne quote)
  | .full, c => if c == '\'' then some .code else none
  | .escape quote, c =>
    match escapeWidth c with
    | some width => some (.digits quote width)
    | none => if c == quote || escapeNames.contains c then some (.afterOne quote) else none
  | .digits quote left, c =>
    if isHexDigit c then some (if left ≤ 1 then .afterOne quote else .digits quote (left - 1)) else none

namespace Scanner

/-- one character of code -/
def readCode (awaited : List Char) (c : Char) : Option Scanner :=
  if c == '(' then some ⟨.code, ')' :: awaited⟩
  else if c == '{' then some ⟨.code, '}' :: awaited⟩
  else if c == ')' || c == '}' then
    match awaited with
    | [] => none
    | b :: r => if c == b then some ⟨.code, r⟩ else none
  else if c == '/' then some ⟨.slash, awaited⟩
  else if c == '"' || c == '\'' then some ⟨.literal c, awaited⟩
  else if isCodeChar c then some ⟨.code, awaited⟩
  else none

/-- read one character -/
def step (s : Scanner) (c : Char) : Option Scanner :=
  if !isLegal c then none
  else if s.mode = .code then readCode s.awaited c
  else (s.mode.next c).map (⟨·, s.awaited⟩)

/-- read a text -/
def run (s : Scanner) (t : List Char) : Option Scanner := t.foldlM step s

end Scanner

/-- is the text scanned to its end, with every literal and comment closed and no bracket open? -/
def scans (t : List Char) : Bool := Scanner.run ⟨.code, []⟩ t == some ⟨.code, []⟩

/-! ## Runs -/

namespace Scanner

theorem run_cons {s s' : Scanner} {c : Char} (h : s.step c = some s') (t : List Char) : s.run (c :: t) = s'.run t := by
  simp [run, h]

theorem run_append {s s' : Scanner} {t : List Char} (h : s.run t = some s') (rest : List Char) :
    s.run (t ++ rest) = s'.run rest := by
  have hsplit : s.run (t ++ rest) = (s.run t).bind fun s' => s'.run rest := List.foldlM_append
  rw [hsplit, h]
  rfl

theorem readCode_frame {awaited : List Char} {c : Char} {s : Scanner} (h : readCode awaited c = some s)
    (base : List Char) : readCode (awaited ++ base) c = some ⟨s.mode, s.awaited ++ base⟩ := by
  unfold readCode at h ⊢
  split_ifs at h ⊢ with h1 h2 h3
  · obtain rfl := Option.some.inj h
    rfl
  · obtain rfl := Option.some.inj h
    rfl
  · cases awaited with
    | nil => exact absurd h (by simp)
    | cons b r =>
      dsimp only [List.cons_append] at h ⊢
      split_ifs at h ⊢
      obtain rfl := Option.some.inj h
      rfl
  all_goals
    obtain rfl := Option.some.inj h
    rfl

theorem step_frame {s s' : Scanner} {c : Char} (h : s.step c = some s') (base : List Char) :
    step ⟨s.mode, s.awaited ++ base⟩ c = some ⟨s'.mode, s'.awaited ++ base⟩ := by
  unfold step at h ⊢
  split_ifs at h ⊢ with hlegal hcode
  · exact readCode_frame h base
  · obtain ⟨mode, hmode, rfl⟩ := Option.map_eq_some_iff.1 h
    rw [hmode]
    rfl

/-- **Brackets that are open around a text do not matter inside it.** -/
theorem run_frame {s s' : Scanner} {t : List Char} (h : s.run t = some s') (base : List Char) :
    run ⟨s.mode, s.awaited ++ base⟩ t = some ⟨s'.mode, s'.awaited ++ base⟩ := by
  induction t generalizing s with
  | nil =>
    obtain rfl := Option.some.inj h
    rfl
  | cons c t ih =>
    cases hstep : s.step c with
    | none => exact absurd h (by simp [run, hstep])
    | some mid =>
      rw [run_cons hstep] at h
      rw [run_cons (step_frame hstep base)]
      exact ih h

end Scanner

/-- the text leads from some open brackets to others, whatever is open around them -/
def Leads (opened opened' t : List Char) : Prop :=
  ∀ base rest : List Char,
    Scanner.run ⟨.code, opened ++ base⟩ (t ++ rest) = Scanner.run ⟨.code, opened' ++ base⟩ rest

theorem Leads.fixed {opened opened' t : List Char} (h : Scanner.run ⟨.code, opened⟩ t = some ⟨.code, opened'⟩) :
    Leads opened opened' t :=
  fun base rest => Scanner.run_append (Scanner.run_frame h base) rest

/-- fixed text, with the brackets it leaves open -/
theorem Scanner.run_fixed {t o : List Char} (h : run ⟨.code, []⟩ t = some ⟨.code, o⟩) (base rest : List Char) :
    run ⟨.code, base⟩ (t ++ rest) = run ⟨.code, o ++ base⟩ rest :=
  Leads.fixed h base rest

theorem Leads.append {opened opened' opened'' s t : List Char} (hs : Leads opened opened' s)
    (ht : Leads opened' opened'' t) : Leads opened opened'' (s ++ t) := by
  intro base rest
  rw [List.append_assoc, hs, ht]

/-- the scanner passes over the text, whatever is open around it -/
def Skips (t : List Char) : Prop := Leads [] [] t

namespace Skips

theorem of_run {t : List Char}
    (h : ∀ base rest, Scanner.run ⟨.code, base⟩ (t ++ rest) = Scanner.run ⟨.code, base⟩ rest) : Skips t := h

theorem run {t : List Char} (h : Skips t) (base rest : List Char) :
    Scanner.run ⟨.code, base⟩ (t ++ rest) = Scanner.run ⟨.code, base⟩ rest :=
  h base rest

theorem leads {t : List Char} (h : Skips t) {opened : List Char} : Leads opened opened t :=
  fun base rest => h.run (opened ++ base) rest

theorem flatMap {α : Type} {f : α → List Char} {l : List α} (h : ∀ x ∈ l, Skips (f x)) : Skips (l.flatMap f) := by
  induction l with
  | nil => exact fun _ _ => rfl
  | cons x l ih =>
    rw [List.flatMap_cons]
    exact (h x List.mem_cons_self).append (ih fun y hy => h y (List.mem_cons_of_mem x hy))

theorem scans {t : List Char} (h : Skips t) : scans t = true := by
  have hrun := h.run [] []
  rw [List.append_nil] at hrun
  rw [MatcherGen.scans, hrun]
  rfl

end Skips

/-! ## Code characters -/

/-- a character of code that may stand in a source file -/
structure IsCode (c : Char) : Prop where
  legal : isLegal c = true
  code : isCodeChar c = true

instance (c : Char) : Decidable (IsCode c) := decidable_of_iff (isLegal c = true ∧ isCodeChar c = true)
  ⟨fun h => ⟨h.1, h.2⟩, fun h => ⟨h.legal, h.code⟩⟩

theorem IsCode.step {c : Char} (h : IsCode c) (base : List Char) : Scanner.step ⟨.code, base⟩ c = some ⟨.code, base⟩ := by
  have hne : ∀ x : Char, isCodeChar x = false → (c == x) = false := by
    intro x hx
    rw [beq_eq_false_iff_ne]
    rintro rfl
    rw [h.code] at hx
    exact absurd hx (by simp)
  simp [Scanner.step, Scanner.readCode, h.legal, h.code, hne '(' (by decide), hne '{' (by decide), hne ')' (by decide),
    hne '}' (by decide), hne '/' (by decide), hne '"' (by decide), hne '\'' (by decide)]

theorem Skips.code {t : List Char} (h : ∀ c ∈ t, IsCode c) : Skips t := by
  apply Skips.of_run
  intro base rest
  induction t with
  | nil => rfl
  | cons c t ih =>
    rw [List.cons_append, Scanner.run_cons ((h c List.mem_cons_self).step base)]
    exact ih fun x hx => h x (List.mem_cons_of_mem c hx)

/-! ## Literals -/

theorem isPrintable_legal {c : Char} (h : isPrintable c = true) : isLegal c = true := by
  have hne : ∀ n : Nat, isPrintable (Char.ofNat n) = false → c.toNat ≠ n := by
    rintro n hn rfl
    rw [Char.ofNat_toNat, h] at hn
    exact absurd hn (by simp)
  simp [isLegal, Glyph.illegal?, hne 0 (by decide), hne 0xfeff (by decide +kernel)]

theorem isPrintable_ne_newline {c : Char} (h : isPrintable c = true) : c ≠ '\n' := by
  rintro rfl
  exact absurd h (by decide)

section Literals

variable {quote : Char} (base rest : List Char)

theorem hexDigit_isHexDigit {n : Nat} (h : n < 16) :
    isHexDigit (hexDigit n) = true ∧ isLegal (hexDigit n) = true := by
  interval_cases n <;> decide

theorem hexDigits_isHexDigit (width n : Nat) :
    ∀ c ∈ hexDigits width n, isHexDigit c = true ∧ isLegal c = true := by
  induction width generalizing n with
  | zero => exact fun c hc => absurd hc (by simp [hexDigits])
  | succ width ih =>
    intro c hc
    rcases List.mem_append.1 hc with hc | hc
    · exact ih (n / 16) c hc
    · rw [List.mem_singleton.1 hc]
      exact hexDigit_isHexDigit (Nat.mod_lt n (by decide))

/-- the digits of an escape, all of them -/
theorem run_digits {t : List Char} {left : Nat} (hleft : t.length = left + 1)
    (h : ∀ c ∈ t, isHexDigit c = true ∧ isLegal c = true) :
    Scanner.run ⟨.digits quote (left + 1), base⟩ (t ++ rest) = Scanner.run ⟨.afterOne quote, base⟩ rest := by
  induction left generalizing t with
  | zero =>
    obtain ⟨c, rfl⟩ := List.length_eq_one_iff.1 hleft
    obtain ⟨hhex, hlegal⟩ := h c (by simp)
    exact Scanner.run_cons (by simp [Scanner.step, ScanMode.next, hhex, hlegal]) rest
  | succ left ih =>
    obtain ⟨c, t, rfl⟩ := List.exists_cons_of_length_eq_add_one hleft
    obtain ⟨hhex, hlegal⟩ := h c (by simp)
    have hstep : Scanner.step ⟨.digits quote (left + 2), base⟩ c = some ⟨.digits quote (left + 1), base⟩ := by
      simp [Scanner.step, ScanMode.next, hhex, hlegal]
    rw [List.cons_append, Scanner.run_cons hstep]
    exact ih (by simpa using hleft) fun x hx => h x (List.mem_cons_of_mem c hx)

/-- an escape by number, after its backslash -/
theorem run_numbered {m : Char} {width : Nat} (hmark : escapeWidth m = some (width + 1))
    (hlegal : isLegal m = true) (n : Nat) :
    Scanner.run ⟨.escape quote, base⟩ (m :: hexDigits (width + 1) n ++ rest) =
      Scanner.run ⟨.afterOne quote, base⟩ rest := by
  have hstep : Scanner.step ⟨.escape quote, base⟩ m = some ⟨.digits quote (width + 1), base⟩ := by
    simp [Scanner.step, ScanMode.next, hmark, hlegal]
  rw [List.cons_append, Scanner.run_cons hstep]
  exact run_digits base rest (length_hexDigits _ n) (hexDigits_isHexDigit _ n)

theorem controlName_escapeNames {c name : Char} (h : controlName c = some name) :
    name ∈ escapeNames ∧ escapeWidth name = none ∧ isLegal name = true := by
  unfold controlName at h
  split at h
  case h_8 => exact absurd h (by simp)
  all_goals
    obtain rfl := Option.some.inj h
    decide +kernel

/-- **One character of a literal**, whichever it is. -/
theorem run_escapeChar (hquote : quote = '"' ∨ quote = '\'') (c : Char) :
    Scanner.run ⟨.literal quote, base⟩ (escapeChar quote c ++ rest) = Scanner.run ⟨.afterOne quote, base⟩ rest := by
  have hback : Scanner.step ⟨.literal quote, base⟩ '\\' = some ⟨.escape quote, base⟩ := by
    rcases hquote with rfl | rfl <;> rfl
  unfold escapeChar
  by_cases hself : (c == quote || c == '\\') = true
  · rw [if_pos hself, List.cons_append, Scanner.run_cons hback]
    refine Scanner.run_cons ?_ rest
    simp only [Bool.or_eq_true, beq_iff_eq] at hself
    rcases hquote with rfl | rfl
    · rcases hself with rfl | rfl <;> rfl
    · rcases hself with rfl | rfl <;> rfl
  rw [if_neg hself]
  simp only [Bool.not_eq_true, Bool.or_eq_false_iff] at hself
  by_cases hprint : isPrintable c = true
  · rw [if_pos hprint]
    refine Scanner.run_cons ?_ rest
    have hline : (c == '\n') = false := beq_eq_false_iff_ne.2 (isPrintable_ne_newline hprint)
    simp [Scanner.step, ScanMode.next, isPrintable_legal hprint, hself.1, hself.2, hline]
  rw [if_neg hprint]
  cases hname : controlName c with
  | some name =>
    obtain ⟨hmem, hwidth, hlegal⟩ := controlName_escapeNames hname
    dsimp only
    rw [List.cons_append, Scanner.run_cons hback]
    exact Scanner.run_cons (by simp [Scanner.step, ScanMode.next, hwidth, hlegal, hmem]) rest
  | none =>
    dsimp only
    split_ifs
    · rw [List.cons_append, Scanner.run_cons hback]
      exact run_numbered base rest (m := 'x') rfl (by decide) c.toNat
    · rw [List.cons_append, Scanner.run_cons hback]
      exact run_numbered base rest (m := 'u') rfl (by decide) c.toNat
    · rw [List.cons_append, Scanner.run_cons hback]
      exact run_numbered base rest (m := 'U') rfl (by decide) c.toNat

end Literals

/-- **Quoted text is one literal.** -/
theorem quoted_skips (s : List Char) : Skips (quoted s) := by
  apply Skips.of_run
  intro base rest
  have hopen : Scanner.step ⟨.code, base⟩ '"' = some ⟨.literal '"', base⟩ := rfl
  have hclose : Scanner.step ⟨.literal '"', base⟩ '"' = some ⟨.code, base⟩ := rfl
  have hinside : Scanner.run ⟨.literal '"', base⟩ (s.flatMap (escapeChar '"') ++ '"' :: rest) =
      Scanner.run ⟨.code, base⟩ rest := by
    induction s with
    | nil => exact Scanner.run_cons hclose rest
    | cons c s ih =>
      rw [List.flatMap_cons, List.append_assoc]
      exact (run_escapeChar base _ (Or.inl rfl) c).trans ih
  rw [quoted, List.cons_append, Scanner.run_cons hopen, List.append_assoc]
  exact hinside

/-- **A quoted character is one literal.** -/
theorem quotedCode_skips (n : Int) : Skips (quotedCode n) := by
  apply Skips.of_run
  intro base rest
  have hopen : Scanner.step ⟨.code, base⟩ '\'' = some ⟨.literal '\'', base⟩ := rfl
  have hclose : Scanner.step ⟨.full, base⟩ '\'' = some ⟨.code, base⟩ := rfl
  rw [quotedCode, List.cons_append, Scanner.run_cons hopen, List.append_assoc]
  exact (run_escapeChar base _ (Or.inr rfl) _).trans (Scanner.run_cons hclose rest)

/-! ## Comments -/

/-- a character that may stand in a comment line -/
structure InComment (c : Char) : Prop where
  legal : isLegal c = true
  line : c ≠ '\n'

theorem InComment.printable {c : Char} (h : isPrintable c = true) : InComment c :=
  ⟨isPrintable_legal h, isPrintable_ne_newline h⟩

/-- a comment that ends with its line -/
structure IsCommentLine (l : List Char) : Prop where
  mark : ['/', '/'] <+: l
  chars : ∀ c ∈ l, InComment c

theorem IsCommentLine.run {l : List Char} (h : IsCommentLine l) (base rest : List Char) :
    Scanner.run ⟨.code, base⟩ (l ++ '\n' :: rest) = Scanner.run ⟨.code, base⟩ rest := by
  obtain ⟨⟨body, rfl⟩, hchars⟩ := h
  have hslash : Scanner.step ⟨.code, base⟩ '/' = some ⟨.slash, base⟩ := rfl
  have hmark : Scanner.step ⟨.slash, base⟩ '/' = some ⟨.comment, base⟩ := rfl
  have hend : Scanner.step ⟨.comment, base⟩ '\n' = some ⟨.code, base⟩ := rfl
  have hbody : ∀ t : List Char, (∀ c ∈ t, InComment c) →
      Scanner.run ⟨.comment, base⟩ (t ++ '\n' :: rest) = Scanner.run ⟨.code, base⟩ rest := by
    intro t ht
    induction t with
    | nil => exact Scanner.run_cons hend rest
    | cons c t ih =>
      obtain ⟨hlegal, hline⟩ := ht c List.mem_cons_self
      have hstep : Scanner.step ⟨.comment, base⟩ c = some ⟨.comment, base⟩ := by
        simp [Scanner.step, ScanMode.next, hlegal, hline]
      rw [List.cons_append, Scanner.run_cons hstep]
      exact ih fun x hx => ht x (List.mem_cons_of_mem c hx)
  rw [List.append_assoc, List.cons_append, Scanner.run_cons hslash, List.cons_append, Scanner.run_cons hmark]
  exact hbody body fun c hc => hchars c (List.mem_append_right _ hc)

/-- white space at the end of a comment may go -/
theorem IsCommentLine.trimEnd {l : List Char} (h : IsCommentLine l) : IsCommentLine (trimEnd l) := by
  have hpart : MatcherGen.trimEnd l <+: l := List.rdropWhile_prefix isBlank l
  refine ⟨?_, fun c hc => h.chars c (hpart.subset hc)⟩
  obtain ⟨body, rfl⟩ := h.mark
  -- trimming stops at the mark, which is not blank
  clear hpart h
  induction body using List.reverseRecOn with
  | nil => decide
  | append_singleton body c ih =>
    have htrim : MatcherGen.trimEnd (['/', '/'] ++ (body ++ [c])) =
        if isBlank c then MatcherGen.trimEnd (['/', '/'] ++ body) else ['/', '/'] ++ (body ++ [c]) := by
      rw [← List.append_assoc]
      exact List.rdropWhile_concat isBlank _ c
    rw [htrim]
    split_ifs
    · exact ih
    · exact ⟨body ++ [c], rfl⟩

theorem commentLine_isCommentLine {text : List Char} (h : ∀ c ∈ text, InComment c) :
    IsCommentLine (commentLine text) := by
  unfold commentLine
  split
  · exact ⟨⟨_, rfl⟩, h⟩
  · refine ⟨⟨' ' :: text, rfl⟩, fun c hc => ?_⟩
    rcases List.mem_append.1 (show c ∈ ['/', '/', ' '] ++ text from hc) with hc | hc
    · have hfixed : ['/', '/', ' '].all isPrintable = true := by decide
      exact .printable (List.all_eq_true.1 hfixed c hc)
    · exact h c hc

theorem tabs_skips (n : Nat) : Skips (tabs n) := by
  apply Skips.code
  intro c hc
  rw [List.eq_of_mem_replicate hc]
  decide

theorem commentLines_skips (indent : Nat) {lines : List (List Char)} (h : ∀ l ∈ lines, IsCommentLine l) :
    Skips (commentLines indent lines) := by
  apply Skips.flatMap
  intro l hl
  apply Skips.of_run
  intro base rest
  rw [List.append_assoc, List.append_assoc, (tabs_skips indent).run]
  exact (h l hl).trimEnd.run base rest

/-! ## Comments set as documentation -/

/-- lines of text that may stand in comments -/
def InComments (lines : List (List Char)) : Prop := ∀ l ∈ lines, ∀ c ∈ l, InComment c

theorem InComments.sub {lines some : List (List Char)} (h : InComments lines) (hsome : some ⊆ lines) :
    InComments some :=
  fun l hl => h l (hsome hl)

theorem commentBody_sub (line : List Char) : commentBody line ⊆ line := by
  unfold commentBody
  split
  · rename_i r hr
    intro c hc
    exact List.drop_subset 2 line (by rw [hr]; exact List.mem_cons_of_mem _ hc)
  · exact List.drop_subset 2 line

theorem trimBlankLines_sub (lines : List (List Char)) : trimBlankLines lines ⊆ lines := by
  intro l hl
  have hback : l ∈ (lines.dropWhile List.isEmpty).reverse :=
    (List.dropWhile_suffix _).subset (List.mem_reverse.1 hl)
  exact (List.dropWhile_suffix _).subset (List.mem_reverse.1 hback)

theorem InComments.unindent {lines : List (List Char)} (h : InComments lines) : InComments (unindent lines) := by
  unfold MatcherGen.unindent
  dsimp only
  split
  · exact fun l hl => absurd hl (by simp)
  · intro l hl c hc
    obtain ⟨m, hm, rfl⟩ := List.mem_map.1 hl
    split_ifs at hc
    · exact absurd hc (by simp)
    · exact h m hm c (List.drop_subset _ m hc)

theorem squeezeBlankLines_sub (lines : List (List Char)) : squeezeBlankLines lines ⊆ lines := by
  fun_induction squeezeBlankLines lines with
  | case1 r ih => exact fun l hl => List.mem_cons_of_mem _ (ih hl)
  | case2 l r _ ih => exact List.cons_subset_cons l ih
  | case3 => exact List.Subset.refl _

theorem curlyQuotes_inComment (l : List Char) (h : ∀ c ∈ l, InComment c) : ∀ c ∈ curlyQuotes l, InComment c := by
  have hmark : ∀ x ∈ ['`', '“', '”'], InComment x := by
    intro x hx
    have hfixed : ['`', '“', '”'].all isPrintable = true := by decide +kernel
    exact .printable (List.all_eq_true.1 hfixed x hx)
  fun_induction curlyQuotes l with
  | case1 => exact h
  | case2 r ih =>
    intro c hc
    have htail := ih fun x hx => h x (by simp [hx])
    simp only [List.mem_cons] at hc
    rcases hc with rfl | rfl | rfl | hc
    · exact hmark _ (by simp)
    · exact hmark _ (by simp)
    · exact hmark _ (by simp)
    · exact htail c hc
  | case3 r _ ih =>
    intro c hc
    rcases List.mem_cons.1 hc with rfl | hc
    · exact hmark _ (by simp)
    · exact ih (fun x hx => h x (by simp [hx])) c hc
  | case4 r ih =>
    intro c hc
    rcases List.mem_cons.1 hc with rfl | hc
    · exact hmark _ (by simp)
    · exact ih (fun x hx => h x (by simp [hx])) c hc
  | case5 c r _ _ _ ih =>
    intro x hx
    rcases List.mem_cons.1 hx with rfl | hx
    · exact h _ List.mem_cons_self
    · exact ih (fun y hy => h y (List.mem_cons_of_mem _ hy)) x hx

/-- **Comment lines set as documentation are comment lines.** -/
theorem docLines_isCommentLine {lines : List (List Char)} (h : ∀ l ∈ lines, IsCommentLine l) :
    ∀ l ∈ docLines lines, IsCommentLine l := by
  have hbodies : InComments (lines.map commentBody) := by
    intro l hl c hc
    obtain ⟨m, hm, rfl⟩ := List.mem_map.1 hl
    exact (h m hm).chars c (commentBody_sub m hc)
  have hdoc : InComments (squeezeBlankLines (trimBlankLines (unindent (trimBlankLines (lines.map commentBody))))) := by
    refine InComments.sub ?_ (squeezeBlankLines_sub _)
    refine InComments.sub ?_ (trimBlankLines_sub _)
    exact (hbodies.sub (trimBlankLines_sub _)).unindent
  intro l hl
  obtain ⟨m, hm, rfl⟩ := List.mem_map.1 hl
  split_ifs
  · refine ⟨⟨[], rfl⟩, fun c hc => .printable ?_⟩
    have hfixed : ['/', '/'].all isPrintable = true := by decide
    exact List.all_eq_true.1 hfixed c hc
  · exact commentLine_isCommentLine (curlyQuotes_inComment m (hdoc m hm))

/-! ## Layout -/

theorem isLegal_of_range {c : Char} (hlo : 0 < c.toNat) (hhi : c.toNat < 0xfeff) : isLegal c = true := by
  simp [isLegal, Glyph.illegal?, hlo.ne', hhi.ne]

theorem asciiDigit_isCode {c : Char} (h : isAsciiDigit c = true) : IsCode c := by
  refine ⟨?_, by simp [isCodeChar, h]⟩
  simp only [isAsciiDigit, Bool.and_eq_true, decide_eq_true_eq] at h
  have hlo : '0'.toNat ≤ c.toNat := h.1
  have hhi : c.toNat ≤ '9'.toNat := h.2
  exact isLegal_of_range (lt_of_lt_of_le (by decide) hlo) (lt_of_le_of_lt hhi (by decide))

theorem asciiLetter_isCode {c : Char} (h : isAsciiLetter c = true) : IsCode c := by
  refine ⟨?_, by simp [isCodeChar, h]⟩
  simp only [isAsciiLetter, Bool.or_eq_true, Bool.and_eq_true, decide_eq_true_eq] at h
  rcases h with ⟨hlo, hhi⟩ | ⟨hlo, hhi⟩
  · have hlo' : 'a'.toNat ≤ c.toNat := hlo
    have hhi' : c.toNat ≤ 'z'.toNat := hhi
    exact isLegal_of_range (lt_of_lt_of_le (by decide) hlo') (lt_of_le_of_lt hhi' (by decide))
  · have hlo' : 'A'.toNat ≤ c.toNat := hlo
    have hhi' : c.toNat ≤ 'Z'.toNat := hhi
    exact isLegal_of_range (lt_of_lt_of_le (by decide) hlo') (lt_of_le_of_lt hhi' (by decide))

theorem decimal_skips (n : Int) : Skips (decimal n) := by
  apply Skips.code
  intro c hc
  have hnumber := decimal_isNumberChar n c hc
  simp only [isNumberChar, Bool.or_eq_true, beq_iff_eq] at hnumber
  rcases hnumber with rfl | hdigit
  · decide
  · exact asciiDigit_isCode hdigit

theorem Ident.text_skips (x : Ident) : Skips x.text := by
  cases x with
  | cont id => exact (Leads.fixed (t := ['k']) (by decide)).append (decimal_skips id)
  | next depth => exact (Leads.fixed (by decide +kernel)).append (decimal_skips depth)
  | _ => exact .fixed (by decide +kernel)

/-- the names of packages are names -/
structure PackageNames.Skip (p : PackageNames) : Prop where
  runtime : Skips p.runtime
  tests : Skips p.tests

/-- the front of a function leaves its brace open -/
theorem run_funcFront (param : Option Nat) (base rest : List Char) :
    Scanner.run ⟨.code, base⟩ (funcFront param ++ rest) = Scanner.run ⟨.code, '}' :: base⟩ rest := by
  cases param with
  | none =>
    have hfront : Scanner.run ⟨.code, []⟩ "func() bool \x7b".toList = some ⟨.code, ['}']⟩ := by decide +kernel
    exact Scanner.run_fixed hfront base rest
  | some depth =>
    have hfront : Scanner.run ⟨.code, base⟩ ("func(".toList ++ ((Ident.next depth).text ++
        (" func() bool) bool \x7b".toList ++ rest))) = Scanner.run ⟨.code, '}' :: base⟩ rest := by
      rw [Scanner.run_fixed (o := [')']) (by decide +kernel), (Ident.text_skips _).run]
      have hclose : Scanner.run ⟨.code, [')']⟩ " func() bool) bool \x7b".toList = some ⟨.code, ['}']⟩ := by
        decide +kernel
      exact Leads.fixed hclose base rest
    change Scanner.run _ (("func(".toList ++ (Ident.next depth).text ++ " func() bool) bool \x7b".toList) ++ rest) = _
    rw [List.append_assoc, List.append_assoc]
    exact hfront

theorem joinWith_skips {sep : List Char} (hsep : Skips sep) {l : List (List Char)} (h : ∀ t ∈ l, Skips t) :
    Skips (joinWith sep l) := by
  fun_induction joinWith sep l with
  | case1 => exact fun _ _ => rfl
  | case2 t => exact h t (by simp)
  | case3 t r _ ih => exact ((h t (by simp)).append hsep).append (ih fun x hx => h x (List.mem_cons_of_mem t hx))

theorem run_close (b : Char) (h : b = ')' ∨ b = '}') (base rest : List Char) :
    Scanner.run ⟨.code, b :: base⟩ (b :: rest) = Scanner.run ⟨.code, base⟩ rest := by
  apply Scanner.run_cons
  rcases h with rfl | rfl <;> rfl

theorem run_newline (base rest : List Char) :
    Scanner.run ⟨.code, base⟩ ('\n' :: rest) = Scanner.run ⟨.code, base⟩ rest :=
  Scanner.run_cons rfl rest

/-- **A text made to fit on a comment line does**, if all its characters may stand in a file. -/
theorem commentText_inComment {t : Text} (h : ∀ c ∈ t.chars, isLegal c = true) :
    ∀ c ∈ (commentText t).chars, InComment c := by
  have hfixed : ∀ x ∈ ['\\', 'n', 'r', '*', '/'], InComment x := by
    intro x hx
    have hprint : ['\\', 'n', 'r', '*', '/'].all isPrintable = true := by decide
    exact .printable (List.all_eq_true.1 hprint x hx)
  fun_induction commentText t with
  | case1 => exact fun c hc => absurd hc (by simp [Text.chars])
  | case2 r ih | case3 r ih =>
    intro c hc
    simp only [Text.chars, List.map_cons, List.mem_cons, Glyph.char] at hc
    rcases hc with rfl | rfl | hc
    · exact hfixed _ (by simp)
    · exact hfixed _ (by simp)
    · exact ih (fun x hx => h x (List.mem_cons_of_mem _ hx)) c hc
  | case4 r ih =>
    intro c hc
    simp only [Text.chars, List.map_cons, List.mem_cons, Glyph.char] at hc
    rcases hc with rfl | rfl | rfl | hc
    · exact hfixed _ (by simp)
    · exact hfixed _ (by simp)
    · exact hfixed _ (by simp)
    · exact ih (fun x hx => h x (List.mem_cons_of_mem _ (List.mem_cons_of_mem _ hx))) c hc
  | case5 g r hline _ _ ih =>
    intro c hc
    rcases List.mem_cons.1 hc with rfl | hc
    · refine ⟨h _ List.mem_cons_self, ?_⟩
      cases g with
      | scalar c => exact fun hc => hline (congrArg Glyph.scalar hc)
      | stray b => exact (by decide : replacementChar ≠ '\n')
    · exact ih (fun x hx => h x (List.mem_cons_of_mem _ hx)) c hc

theorem SaysOnly.isCommentLine {s : List Char} (hs : ∀ c ∈ s, isLegal c = true) {t : Text} (h : SaysOnly s t) :
    IsCommentLine (commentLine t.chars) := by
  obtain ⟨message, rfl, hmessage⟩ := h
  apply commentLine_isCommentLine
  apply commentText_inComment
  rw [Text.chars_ofChars]
  intro c hc
  exact (hmessage c hc).elim isPrintable_legal (hs c)

theorem names_skip (names : List Ident) : Skips (joinWith ", ".toList (names.map Ident.text)) := by
  refine joinWith_skips (.fixed (by decide +kernel)) fun t ht => ?_
  obtain ⟨x, -, rfl⟩ := List.mem_map.1 ht
  exact x.text_skips

/-- is the statement a comment? -/
def Stmt.isComment : Stmt → Bool
  | .comment _ => true
  | _ => false

theorem Stmt.eq_comment {x : Stmt} (h : x.isComment = true) : ∃ text, x = .comment text := by
  cases x with
  | comment text => exact ⟨text, rfl⟩
  | _ => exact absurd h (by simp [Stmt.isComment])

/-- a statement that is no comment takes the comments above it -/
theorem Stmt.layoutBlock_code {p : PackageNames} {indent : Nat} {pending : List (List Char)} {x : Stmt}
    {r : List Stmt} {rest : List Char} (h : x.isComment = false) :
    Stmt.layoutBlock p indent pending (x :: r) rest =
      commentLines indent (if x.takesDoc then docLines pending else pending) ++ (tabs indent ++
        x.layout p indent ('\n' :: Stmt.layoutBlock p indent [] r rest)) := by
  cases x with
  | comment text => exact absurd h (by simp [Stmt.isComment])
  | _ => rfl

section Layout

variable {p : PackageNames} {s : List Char}

mutual
/-- **An expression is scanned to its end and leaves no bracket open.** -/
theorem Expr.layout_skips (hp : p.Skip) (hs : ∀ c ∈ s, isLegal c = true) (indent : Nat) (bare : Bool) (e : Expr)
    (he : e.SaysOnly s) (base rest : List Char) :
    Scanner.run ⟨.code, base⟩ (e.layout p indent bare rest) = Scanner.run ⟨.code, base⟩ rest := by
  match e with
  | .name x => exact x.text_skips.run base rest
  | .truth b =>
    cases b with
    | true => exact Scanner.run_fixed (o := []) (by decide +kernel) base rest
    | false => exact Scanner.run_fixed (o := []) (by decide +kernel) base rest
  | .code n => exact (quotedCode_skips n).run base rest
  | .text t => exact (quoted_skips t).run base rest
  | .number n => exact (decimal_skips n).run base rest
  | .newMatcher arg =>
    change Scanner.run _ (p.runtime ++ (".New(".toList ++ arg.layout p indent false (')' :: rest))) = _
    rw [hp.runtime.run, Scanner.run_fixed (o := [')']) (by decide +kernel)]
    exact (Expr.layout_skips hp hs indent false arg he _ _).trans (run_close ')' (Or.inl rfl) base rest)
  | .method m args =>
    have hm : Skips m.label.toList := .fixed (by cases m <;> decide +kernel)
    change Scanner.run _ ("m.".toList ++ (m.label.toList ++ '(' :: Expr.layoutArgs p indent args (')' :: rest))) = _
    rw [Scanner.run_fixed (o := []) (by decide +kernel), hm.run, Scanner.run_cons rfl]
    exact (Expr.layoutArgs_skips hp hs indent args he _ _).trans (run_close ')' (Or.inl rfl) base rest)
  | .test t arg =>
    have ht : Skips t.label.toList := .fixed (by cases t <;> decide +kernel)
    change Scanner.run _ (p.tests ++ '.' :: (t.label.toList ++ '(' :: arg.layout p indent false (')' :: rest))) = _
    rw [hp.tests.run, Scanner.run_cons rfl, ht.run, Scanner.run_cons rfl]
    exact (Expr.layout_skips hp hs indent false arg he _ _).trans (run_close ')' (Or.inl rfl) base rest)
  | .func param body =>
    change Scanner.run _ (funcFront param ++ '\n' :: Stmt.layoutBlock p (indent + 1) [] body
      (tabs indent ++ '}' :: rest)) = _
    rw [run_funcFront, run_newline, Stmt.layoutBlock_skips hp hs (indent + 1) (by simp) body he, (tabs_skips indent).run]
    exact run_close '}' (Or.inr rfl) base rest
  | .invoke f =>
    refine (Expr.layout_skips hp hs indent false f he base ('(' :: ')' :: rest)).trans ?_
    rw [Scanner.run_cons rfl]
    exact run_close ')' (Or.inl rfl) base rest
  | .binary op left right =>
    have hop : Skips op.text := .fixed (by cases op <;> decide +kernel)
    refine (Expr.layout_skips hp hs indent false left he.1 base _).trans ?_
    rw [hop.run]
    exact Expr.layout_skips hp hs indent false right he.2 base rest
  | .not e =>
    change Scanner.run _ ('!' :: e.layout p indent false rest) = _
    rw [Scanner.run_cons rfl]
    exact Expr.layout_skips hp hs indent false e he base rest
  | .paren e =>
    cases bare with
    | true => exact Expr.layout_skips hp hs indent true e he base rest
    | false =>
      change Scanner.run _ ('(' :: e.layout p indent true (')' :: rest)) = _
      rw [Scanner.run_cons rfl]
      exact (Expr.layout_skips hp hs indent true e he _ _).trans (run_close ')' (Or.inl rfl) base rest)

theorem Expr.layoutArgs_skips (hp : p.Skip) (hs : ∀ c ∈ s, isLegal c = true) (indent : Nat) (l : List Expr)
    (hl : Expr.AllSayOnly s l) (base rest : List Char) :
    Scanner.run ⟨.code, base⟩ (Expr.layoutArgs p indent l rest) = Scanner.run ⟨.code, base⟩ rest := by
  match l with
  | [] => rfl
  | [e] => exact Expr.layout_skips hp hs indent false e hl.1 base rest
  | e :: f :: r =>
    refine (Expr.layout_skips hp hs indent false e hl.1 base _).trans ?_
    rw [Scanner.run_cons rfl, Scanner.run_cons rfl]
    exact Expr.layoutArgs_skips hp hs indent (f :: r) hl.2 base rest

theorem Stmt.layoutInit_skips (hp : p.Skip) (hs : ∀ c ∈ s, isLegal c = true) (indent : Nat) (l : List Stmt)
    (hl : Stmt.AllDefineOnly s l) (base rest : List Char) :
    Scanner.run ⟨.code, base⟩ (Stmt.layoutInit p indent l rest) = Scanner.run ⟨.code, base⟩ rest := by
  match l with
  | [] => rfl
  | .define names value :: r =>
    change Scanner.run _ (joinWith ", ".toList (names.map Ident.text) ++ (" := ".toList ++
      value.layout p indent false (';' :: ' ' :: Stmt.layoutInit p indent r rest))) = _
    rw [(names_skip names).run, Scanner.run_fixed (o := []) (by decide +kernel)]
    refine (Expr.layout_skips hp hs indent false value hl.1 base _).trans ?_
    rw [Scanner.run_cons rfl, Scanner.run_cons rfl]
    exact Stmt.layoutInit_skips hp hs indent r hl.2 base rest

theorem Stmt.layout_skips (hp : p.Skip) (hs : ∀ c ∈ s, isLegal c = true) (indent : Nat) (x : Stmt)
    (hx : x.SaysOnly s) (hcode : x.isComment = false) (base rest : List Char) :
    Scanner.run ⟨.code, base⟩ (x.layout p indent rest) = Scanner.run ⟨.code, base⟩ rest := by
  match x with
  | .comment text => exact absurd hcode (by simp [Stmt.isComment])
  | .define names value =>
    change Scanner.run _ (joinWith ", ".toList (names.map Ident.text) ++ (" := ".toList ++
      value.layout p indent false rest)) = _
    rw [(names_skip names).run, Scanner.run_fixed (o := []) (by decide +kernel)]
    exact Expr.layout_skips hp hs indent false value hx base rest
  | .ret value =>
    change Scanner.run _ ("return ".toList ++ value.layout p indent false rest) = _
    rw [Scanner.run_fixed (o := []) (by decide +kernel)]
    exact Expr.layout_skips hp hs indent false value hx base rest
  | .retNothing =>
    change Scanner.run _ ("return".toList ++ rest) = _
    exact Scanner.run_fixed (o := []) (by decide +kernel) base rest
  | .abort message =>
    change Scanner.run _ ("panic(".toList ++ (quoted message ++ ')' :: rest)) = _
    rw [Scanner.run_fixed (o := [')']) (by decide +kernel), (quoted_skips message).run]
    exact run_close ')' (Or.inl rfl) base rest
  | .cond init test body other =>
    obtain ⟨hinit, htest, hbody, hother⟩ := hx
    have hfront : Scanner.run ⟨.code, []⟩ " \x7b\n".toList = some ⟨.code, ['}']⟩ := by decide +kernel
    have helse : Scanner.run ⟨.code, ['}']⟩ "\x7d else \x7b\n".toList = some ⟨.code, ['}']⟩ := by decide +kernel
    have hclosing : Scanner.run ⟨.code, '}' :: base⟩ (if other.isEmpty then '}' :: rest
        else "\x7d else \x7b\n".toList ++ Stmt.layoutBlock p (indent + 1) [] other (tabs indent ++ '}' :: rest)) =
          Scanner.run ⟨.code, base⟩ rest := by
      split_ifs
      · exact run_close '}' (Or.inr rfl) base rest
      · refine (Leads.fixed helse base _).trans ?_
        refine (Stmt.layoutBlock_skips hp hs (indent + 1) (by simp) other hother _ _).trans ?_
        rw [(tabs_skips indent).run]
        exact run_close '}' (Or.inr rfl) base rest
    change Scanner.run _ ("if ".toList ++ Stmt.layoutInit p indent init (test.layout p indent true
      (" \x7b\n".toList ++ Stmt.layoutBlock p (indent + 1) [] body (tabs indent ++ _)))) = _
    rw [Scanner.run_fixed (o := []) (by decide +kernel)]
    refine (Stmt.layoutInit_skips hp hs indent init hinit base _).trans ?_
    refine (Expr.layout_skips hp hs indent true test htest base _).trans ?_
    refine (Scanner.run_fixed hfront base _).trans ?_
    refine (Stmt.layoutBlock_skips hp hs (indent + 1) (by simp) body hbody _ _).trans ?_
    rw [(tabs_skips indent).run]
    exact hclosing

/-- **So are statements**, with comment lines above them. -/
theorem Stmt.layoutBlock_skips (hp : p.Skip) (hs : ∀ c ∈ s, isLegal c = true) (indent : Nat)
    {pending : List (List Char)} (hpending : ∀ l ∈ pending, IsCommentLine l) (l : List Stmt) (hl : Stmt.AllSayOnly s l)
    (base rest : List Char) :
    Scanner.run ⟨.code, base⟩ (Stmt.layoutBlock p indent pending l rest) = Scanner.run ⟨.code, base⟩ rest := by
  match l with
  | [] => exact (commentLines_skips indent hpending).run base rest
  | x :: r =>
    cases hx : x.isComment with
    | true =>
      obtain ⟨text, rfl⟩ := Stmt.eq_comment hx
      have hmore : ∀ l ∈ pending ++ [commentLine text.chars], IsCommentLine l := by
        intro l hl'
        rcases List.mem_append.1 hl' with hl' | hl'
        · exact hpending l hl'
        · rw [List.mem_singleton.1 hl']
          exact SaysOnly.isCommentLine hs hl.1
      exact Stmt.layoutBlock_skips hp hs indent hmore r hl.2 base rest
    | false =>
      have habove : ∀ l ∈ (if x.takesDoc then docLines pending else pending), IsCommentLine l := by
        split_ifs
        · exact docLines_isCommentLine hpending
        · exact hpending
      rw [Stmt.layoutBlock_code hx, (commentLines_skips indent habove).run, (tabs_skips indent).run]
      refine (Stmt.layout_skips hp hs indent x hl.1 hx base _).trans ?_
      rw [run_newline]
      exact Stmt.layoutBlock_skips hp hs indent (by simp) r hl.2 base rest
end

end Layout

end MatcherGen
