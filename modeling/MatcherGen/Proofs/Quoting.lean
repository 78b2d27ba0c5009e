/-
Quoted text can be read back. An escape says by itself where it ends, so quoted texts, quoted characters and numbers can
stand one after the other and are still told apart.

Main statements:
- `readEscape_escapeChar`: an escape is read back as the character it stands for;
- `flatMap_append_inj`, `optional_append_inj`, `append_inj_of_stop`: codes one after the other, optional words and words
  are told apart from what follows them;
- `quoted_selfDelimiting`, `quotedCode_inj`: quoted texts and quoted characters are self-delimiting;
- `decimal_injective`, `decimal_append_inj`: a number is determined by its digits, also with text after them;
- `quoted_printable`, `quotedCode_printable`: quoted text is printable, whatever it quotes.
-/
import Mathlib.Data.Nat.Digits.Defs
import Mathlib.Tactic
import MatcherGen.Text.Quoted

namespace MatcherGen

/-! ## Codes one after the other -/

/-- what is written for a value says where it ends, whatever follows -/
def SelfDelimiting {α : Type} (f : α → List Char) : Prop :=
  ∀ a b r s, f a ++ r = f b ++ s → a = b ∧ r = s

/-- **Codes one after the other, with a mark behind them, are told apart.** It is enough that a code is told apart before
what may follow it (`follows`), which is the next code or the mark; and of a value only `g` has to show. -/
theorem flatMap_append_inj {α β : Type} {f : α → List Char} {g : α → β} (follows : List Char → Prop) {stop : Char}
    (hcode : ∀ a t, follows (f a ++ t)) (hstop : ∀ t, follows (stop :: t))
    (hstart : ∀ a, ∃ c t, f a = c :: t ∧ c ≠ stop) {l m : List α}
    (hf : ∀ a ∈ l, ∀ b ∈ m, ∀ u v, follows u → follows v → f a ++ u = f b ++ v → g a = g b ∧ u = v) {r s : List Char}
    (h : l.flatMap f ++ stop :: r = m.flatMap f ++ stop :: s) : l.map g = m.map g ∧ r = s := by
  have hfollows : ∀ (k : List α) t, follows (k.flatMap f ++ stop :: t) := by
    intro k t
    cases k with
    | nil => exact hstop t
    | cons a k => rw [List.flatMap_cons, List.append_assoc]; exact hcode a _
  induction l generalizing m with
  | nil =>
    cases m with
    | nil => exact ⟨rfl, (List.cons.inj h).2⟩
    | cons b m =>
      obtain ⟨c, t, hb, hc⟩ := hstart b
      rw [List.flatMap_nil, List.nil_append, List.flatMap_cons, hb] at h
      exact absurd (List.cons.inj h).1.symm hc
  | cons a l ih =>
    cases m with
    | nil =>
      obtain ⟨c, t, ha, hc⟩ := hstart a
      rw [List.flatMap_nil, List.nil_append, List.flatMap_cons, ha] at h
      exact absurd (List.cons.inj h).1 hc
    | cons b m =>
      simp only [List.flatMap_cons, List.append_assoc] at h
      obtain ⟨hab, hrest⟩ := hf a List.mem_cons_self b List.mem_cons_self _ _ (hfollows l r) (hfollows m s) h
      have htail := ih (fun x hx y hy => hf x (List.mem_cons_of_mem a hx) y (List.mem_cons_of_mem b hy)) hrest
      exact ⟨by rw [List.map_cons, List.map_cons, hab, htail.1], htail.2⟩

/-- **An optional word is told apart from what follows**, if that does not start with the word. -/
theorem optional_append_inj {a b : Bool} {word r s : List Char} (hr : a = false → ¬ word <+: r)
    (hs : b = false → ¬ word <+: s) (h : (if a then word else []) ++ r = (if b then word else []) ++ s) :
    a = b ∧ r = s := by
  cases a with
  | false =>
    cases b with
    | false => exact ⟨rfl, h⟩
    | true => exact absurd ⟨s, h.symm⟩ (hr rfl)
  | true =>
    cases b with
    | false => exact absurd ⟨r, h⟩ (hs rfl)
    | true => exact ⟨rfl, List.append_cancel_left h⟩

/-- **Words that end at the first character outside a set** are told apart from what follows. -/
theorem append_inj_of_stop {p : Char → Bool} {l m : List Char} {c d : Char} {r s : List Char}
    (hl : ∀ x ∈ l, p x = true) (hm : ∀ x ∈ m, p x = true) (hc : p c = false) (hd : p d = false)
    (h : l ++ c :: r = m ++ d :: s) : l = m ∧ c = d ∧ r = s := by
  induction l generalizing m with
  | nil =>
    cases m with
    | nil => exact ⟨rfl, List.cons.inj h⟩
    | cons y m =>
      rw [(List.cons.inj h).1, hm y List.mem_cons_self] at hc
      exact absurd hc (by simp)
  | cons x l ih =>
    cases m with
    | nil =>
      rw [← (List.cons.inj h).1, hl x List.mem_cons_self] at hd
      exact absurd hd (by simp)
    | cons y m =>
      obtain ⟨rfl, hrest⟩ := List.cons.inj h
      obtain ⟨rfl, hcd⟩ := ih (fun z hz => hl z (List.mem_cons_of_mem x hz))
        (fun z hz => hm z (List.mem_cons_of_mem x hz)) hrest
      exact ⟨rfl, hcd⟩

/-! ## Escapes -/

/-- the value of a hexadecimal digit -/
def hexDigitValue (c : Char) : Nat := if c.toNat < 0x3a then c.toNat - 0x30 else c.toNat - 0x57

/-- the value of hexadecimal digits -/
def hexValue (s : List Char) : Nat := s.foldl (fun n c => n * 16 + hexDigitValue c) 0

theorem hexDigitValue_hexDigit {n : Nat} (h : n < 16) : hexDigitValue (hexDigit n) = n := by
  interval_cases n <;> rfl

theorem length_hexDigits (width n : Nat) : (hexDigits width n).length = width := by
  induction width generalizing n with
  | zero => rfl
  | succ width ih => rw [hexDigits, List.length_append, ih, List.length_singleton]

theorem hexValue_hexDigits (width n : Nat) (h : n < 16 ^ width) : hexValue (hexDigits width n) = n := by
  induction width generalizing n with
  | zero => rw [Nat.lt_one_iff.1 h]; rfl
  | succ width ih =>
    have hquot : n / 16 < 16 ^ width := by
      rw [Nat.div_lt_iff_lt_mul (by decide), ← pow_succ]
      exact h
    have hstep : hexValue (hexDigits (width + 1) n) = hexValue (hexDigits width (n / 16)) * 16 + n % 16 := by
      rw [hexDigits, hexValue, List.foldl_append]
      simp only [List.foldl_cons, List.foldl_nil, hexDigitValue_hexDigit (Nat.mod_lt n (by decide))]
      rfl
    rw [hstep, ih _ hquot]
    omega

/-- the character that a letter after a backslash stands for -/
def escapedChar : Char → Char
  | 'a' => '\x07'
  | 'b' => '\x08'
  | 'f' => '\x0c'
  | 'n' => '\n'
  | 'r' => '\r'
  | 't' => '\t'
  | 'v' => '\x0b'
  | c => c

/-- the number of digits that a letter after a backslash announces -/
def escapeWidth : Char → Option Nat
  | 'x' => some 2
  | 'u' => some 4
  | 'U' => some 8
  | _ => none

/-- read the character at the front of quoted text, and what follows it -/
def readEscape : List Char → Option (Char × List Char)
  | [] => none
  | '\\' :: c :: r =>
    match escapeWidth c with
    | some width => some (Char.ofNat (hexValue (r.take width)), r.drop width)
    | none => some (escapedChar c, r)
  | c :: r => some (c, r)

theorem escapedChar_controlName {c name : Char} (h : controlName c = some name) :
    escapedChar name = c ∧ escapeWidth name = none := by
  unfold controlName at h
  split at h
  case h_8 => exact absurd h (by simp)
  all_goals
    obtain rfl := Option.some.inj h
    decide

/-- a character that is no backslash is read as itself -/
theorem readEscape_plain {c : Char} (hc : c ≠ '\\') (r : List Char) : readEscape (c :: r) = some (c, r) := by
  unfold readEscape
  split
  case h_1 heq => exact absurd heq (by simp)
  case h_2 heq => exact absurd (List.cons.inj heq).1 hc
  case h_3 heq => rw [(List.cons.inj heq).1, (List.cons.inj heq).2]

/-- a letter after a backslash that announces no digits is read alone -/
theorem readEscape_named {c : Char} (hc : escapeWidth c = none) (r : List Char) :
    readEscape ('\\' :: c :: r) = some (escapedChar c, r) := by
  simp only [readEscape, hc]

/-- digits after a backslash and their mark are read as one character -/
theorem readEscape_digits {mark : Char} {width : Nat} (hmark : escapeWidth mark = some width) {c : Char}
    (hc : c.toNat < 16 ^ width) (r : List Char) :
    readEscape ('\\' :: mark :: hexDigits width c.toNat ++ r) = some (c, r) := by
  have hlen := length_hexDigits width c.toNat
  simp only [List.cons_append, readEscape, hmark]
  rw [List.take_left' hlen, List.drop_left' hlen, hexValue_hexDigits width c.toNat hc, Char.ofNat_toNat]

theorem toNat_lt (c : Char) : c.toNat < 0x110000 := by
  have hvalid := c.valid
  simp only [UInt32.isValidChar, Nat.isValidChar] at hvalid
  change c.val.toNat < 0x110000
  omega

/-- **An escape is read back as the character it stands for.** -/
theorem readEscape_escapeChar {quote : Char} (hquote : quote = '"' ∨ quote = '\'') (c : Char) (r : List Char) :
    readEscape (escapeChar quote c ++ r) = some (c, r) := by
  unfold escapeChar
  by_cases hself : (c == quote || c == '\\') = true
  · -- the quote and the backslash take a backslash
    rw [if_pos hself]
    have hcases : c = '"' ∨ c = '\'' ∨ c = '\\' := by
      simp only [Bool.or_eq_true, beq_iff_eq] at hself
      rcases hself with rfl | rfl
      · tauto
      · tauto
    rcases hcases with rfl | rfl | rfl <;> rfl
  rw [if_neg hself]
  by_cases hprint : isPrintable c = true
  · rw [if_pos hprint]
    exact readEscape_plain (fun hc => hself (by simp [hc])) r
  rw [if_neg hprint]
  cases hname : controlName c with
  | some name =>
    obtain ⟨hchar, hwidth⟩ := escapedChar_controlName hname
    exact (readEscape_named hwidth r).trans (by rw [hchar])
  | none =>
    have hlt := toNat_lt c
    dsimp only
    split_ifs with hbyte hshort
    · refine readEscape_digits rfl ?_ r
      simp only [Bool.or_eq_true, decide_eq_true_eq, beq_iff_eq] at hbyte
      omega
    · exact readEscape_digits rfl (by omega) r
    · exact readEscape_digits rfl (by omega) r

theorem escapeChar_selfDelimiting {quote : Char} (hquote : quote = '"' ∨ quote = '\'') :
    SelfDelimiting (escapeChar quote) := by
  intro a b r s h
  have hread := congrArg readEscape h
  rw [readEscape_escapeChar hquote, readEscape_escapeChar hquote] at hread
  simpa using hread

/-- no escape starts with the quote -/
theorem escapeChar_start {quote : Char} (hquote : quote ≠ '\\') (c : Char) :
    ∃ d t, escapeChar quote c = d :: t ∧ d ≠ quote := by
  unfold escapeChar
  by_cases hself : (c == quote || c == '\\') = true
  · rw [if_pos hself]
    exact ⟨'\\', _, rfl, hquote.symm⟩
  rw [if_neg hself]
  by_cases hprint : isPrintable c = true
  · rw [if_pos hprint]
    refine ⟨c, _, rfl, ?_⟩
    rintro rfl
    exact hself (by simp)
  rw [if_neg hprint]
  cases controlName c with
  | some name => exact ⟨'\\', _, rfl, hquote.symm⟩
  | none => dsimp only; split_ifs <;> exact ⟨'\\', _, rfl, hquote.symm⟩

/-! ## Quoted texts and characters -/

/-- **Quoted texts are self-delimiting.** -/
theorem quoted_selfDelimiting : SelfDelimiting quoted := by
  intro a b r s h
  simp only [quoted, List.cons_append, List.append_assoc, List.nil_append] at h
  have hinj := flatMap_append_inj (g := id) (fun _ => True) (fun _ _ => trivial) (fun _ => trivial)
    (escapeChar_start (by decide)) (fun x _ y _ u v _ _ => escapeChar_selfDelimiting (Or.inl rfl) x y u v)
    (List.cons.inj h).2
  simpa using hinj

/-- the code of a character is the code of no other -/
theorem charOfCode_toNat (c : Char) : charOfCode c.toNat = c := by
  have hvalid : c.toNat.isValidChar := c.valid
  unfold charOfCode
  rw [Int.toNat_natCast, if_pos (by simp [hvalid])]
  exact Char.ofNat_toNat c

/-- **Quoted characters are self-delimiting.** -/
theorem quotedCode_inj (a b : Char) (r s : List Char) (h : quotedCode a.toNat ++ r = quotedCode b.toNat ++ s) :
    a = b ∧ r = s := by
  simp only [quotedCode, charOfCode_toNat, List.cons_append, List.append_assoc, List.nil_append] at h
  obtain ⟨rfl, hrest⟩ := escapeChar_selfDelimiting (Or.inr rfl) a b _ _ (List.cons.inj h).2
  exact ⟨rfl, (List.cons.inj hrest).2⟩

/-! ## Numbers -/

/-- the characters of a number -/
def isNumberChar (c : Char) : Bool := c == '-' || c.isDigit

theorem decimal_isNumberChar (n : Int) : ∀ c ∈ decimal n, isNumberChar c = true := by
  have hdigits : ∀ k : Nat, ∀ c ∈ Nat.toDigits 10 k, isNumberChar c = true := by
    intro k c hc
    simp [isNumberChar, Nat.isDigit_of_mem_toDigits (by decide) (by decide) hc]
  cases n with
  | ofNat k => exact hdigits k
  | negSucc k =>
    intro c hc
    rcases List.mem_cons.1 hc with rfl | hc
    · rfl
    · exact hdigits (k + 1) c hc

theorem toDigits_inj {m n : Nat} (h : Nat.toDigits 10 m = Nat.toDigits 10 n) : m = n := by
  have hvalue := congrArg (Nat.ofDigitChars 10 · 0) h
  simpa using hvalue

/-- **A number is determined by its digits.** -/
theorem decimal_injective : Function.Injective decimal := by
  have hsign : ∀ m n, Nat.toDigits 10 m ≠ '-' :: Nat.toDigits 10 n := by
    intro m n h
    have hminus : '-' ∈ Nat.toDigits 10 m := by simp [h]
    exact absurd (Nat.isDigit_of_mem_toDigits (by decide) (by decide) hminus) (by decide)
  intro m n h
  cases m with
  | ofNat m =>
    cases n with
    | ofNat n => exact congrArg Int.ofNat (toDigits_inj h)
    | negSucc n => exact absurd h (hsign _ _)
  | negSucc m =>
    cases n with
    | ofNat n => exact absurd h.symm (hsign _ _)
    | negSucc n => exact congrArg Int.negSucc (Nat.succ.inj (toDigits_inj (List.cons.inj h).2))

/-- a number that another character follows is told apart from it -/
theorem decimal_append_inj {m n : Int} {c d : Char} {r s : List Char} (hc : isNumberChar c = false)
    (hd : isNumberChar d = false) (h : decimal m ++ c :: r = decimal n ++ d :: s) : m = n ∧ c = d ∧ r = s := by
  obtain ⟨hdigits, hrest⟩ := append_inj_of_stop (decimal_isNumberChar m) (decimal_isNumberChar n) hc hd h
  exact ⟨decimal_injective hdigits, hrest⟩

/-! ## Quoted text is printable -/

theorem hexDigit_printable {n : Nat} (h : n < 16) : isPrintable (hexDigit n) = true := by
  interval_cases n <;> rfl

theorem hexDigits_printable (width n : Nat) : ∀ c ∈ hexDigits width n, isPrintable c = true := by
  induction width generalizing n with
  | zero => simp [hexDigits]
  | succ width ih =>
    intro c hc
    rcases List.mem_append.1 hc with hc | hc
    · exact ih (n / 16) c hc
    · rw [List.mem_singleton.1 hc]
      exact hexDigit_printable (Nat.mod_lt n (by decide))

theorem controlName_printable {c name : Char} (h : controlName c = some name) : isPrintable name = true := by
  unfold controlName at h
  split at h
  case h_8 => exact absurd h (by simp)
  all_goals
    obtain rfl := Option.some.inj h
    rfl

theorem escapeChar_printable {quote : Char} (hquote : quote = '"' ∨ quote = '\'') (c : Char) :
    ∀ d ∈ escapeChar quote c, isPrintable d = true := by
  have hmark : ∀ {mark : Char} {l : List Char}, isPrintable mark = true → (∀ d ∈ l, isPrintable d = true) →
      ∀ d ∈ '\\' :: mark :: l, isPrintable d = true := by
    intro mark l hm hl d hd
    rcases List.mem_cons.1 hd with rfl | hd
    · rfl
    · rcases List.mem_cons.1 hd with rfl | hd
      · exact hm
      · exact hl d hd
  unfold escapeChar
  by_cases hself : (c == quote || c == '\\') = true
  · rw [if_pos hself]
    have hc : isPrintable c = true := by
      simp only [Bool.or_eq_true, beq_iff_eq] at hself
      rcases hself with rfl | rfl
      · rcases hquote with rfl | rfl <;> rfl
      · rfl
    exact hmark hc (by simp)
  rw [if_neg hself]
  by_cases hprint : isPrintable c = true
  · rw [if_pos hprint]
    simpa using hprint
  rw [if_neg hprint]
  cases hname : controlName c with
  | some name => exact hmark (controlName_printable hname) (by simp)
  | none =>
    dsimp only
    split_ifs
    · exact hmark rfl (hexDigits_printable 2 c.toNat)
    · exact hmark rfl (hexDigits_printable 4 c.toNat)
    · exact hmark rfl (hexDigits_printable 8 c.toNat)

/-- **Quoted text is printable.** -/
theorem quoted_printable (s : List Char) : ∀ c ∈ quoted s, isPrintable c = true := by
  intro c hc
  rcases List.mem_cons.1 hc with rfl | hc
  · rfl
  · rcases List.mem_append.1 hc with hc | hc
    · obtain ⟨d, -, hd⟩ := List.mem_flatMap.1 hc
      exact escapeChar_printable (Or.inl rfl) d c hd
    · rw [List.mem_singleton.1 hc]
      rfl

theorem quotedCode_printable (n : Int) : ∀ c ∈ quotedCode n, isPrintable c = true := by
  intro c hc
  rcases List.mem_cons.1 hc with rfl | hc
  · rfl
  · rcases List.mem_append.1 hc with hc | hc
    · exact escapeChar_printable (Or.inr rfl) _ c hc
    · rw [List.mem_singleton.1 hc]
      rfl

end MatcherGen
