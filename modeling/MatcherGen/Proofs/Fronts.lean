/-
What stands at the front of a group and after an atom, as text. The reader looks ahead here, so these are the places
where one part of a pattern could change how another is read; each form is given as it is written, and the reader is
shown to read exactly these.

Main statements:
- `groupStart_opens_iff`: groups open exactly after one of the four fronts;
- `groupStart_whole`: any other group is skipped or sets switches;
- `braces_some_iff`, `suffix_quantity_iff`: quantifiers are exactly those written as one.
-/
import Mathlib.Data.List.TakeWhile
import Mathlib.Tactic
import MatcherGen.Pattern.Piece

namespace MatcherGen

/-! ## Fronts of groups -/

/-- the front of a group whose body follows, and what it says of the group -/
inductive GroupFront : List Char → Bool → List Char → Prop where
  | capturing : GroupFront ['('] true []
  | nonCapturing : GroupFront ['(', '?', ':'] false []
  | named (name : List Char) (hne : name ≠ []) (hname : ∀ c ∈ name, isNameChar c = true) :
    GroupFront (['(', '?', 'P', '<'] ++ name ++ ['>']) true name
  | namedShort (name : List Char) (hne : name ≠ []) (hname : ∀ c ∈ name, isNameChar c = true) :
    GroupFront (['(', '?', '<'] ++ name ++ ['>']) true name

theorem takeWhile_append_of_all {p : Char → Bool} {l r : List Char} {c : Char} (hl : ∀ x ∈ l, p x = true)
    (hc : p c = false) :
    (l ++ c :: r).takeWhile p = l := by
  rw [List.takeWhile_append_of_pos hl]
  simp [hc]

/-- a named group opens exactly after a name and a closing bracket -/
theorem namedGroup_opens_iff {flags : Flags} {pos skip : Nat} {s : List Char} {capturing : Bool} {name : List Char}
    {size : Nat} :
    namedGroup flags pos skip s = .opens capturing name size ↔
      capturing = true ∧ name ≠ [] ∧ (∀ c ∈ name, isNameChar c = true) ∧ size = skip + name.length + 1 ∧
        ∃ r, s.drop skip = name ++ '>' :: r := by
  have hbracket : isNameChar '>' = false := by decide
  constructor
  · intro h
    unfold namedGroup at h
    dsimp only at h
    split at h
    · rename_i c l r hname hrest
      obtain ⟨rfl, rfl, rfl⟩ := GroupStart.opens.inj h
      refine ⟨rfl, by rw [hname]; simp, fun x hx => List.mem_takeWhile_imp hx, rfl, r, ?_⟩
      rw [← hrest, ← List.drop_drop]
      exact (List.prefix_iff_eq_append.1 (List.takeWhile_prefix _)).symm
    · exact absurd h (by simp)
  · rintro ⟨rfl, hne, hname, rfl, r, hs⟩
    have htake : (s.drop skip).takeWhile isNameChar = name := by
      rw [hs, takeWhile_append_of_all hname hbracket]
    have hdrop : s.drop (skip + name.length) = '>' :: r := by
      rw [← List.drop_drop, hs]
      simp
    unfold namedGroup
    simp only [htake, hdrop]
    cases name with
    | nil => exact absurd rfl hne
    | cons c l => rfl

/-- **Groups open** exactly after one of the four fronts. -/
theorem groupStart_opens_iff {flags : Flags} {pos : Nat} {s : List Char} {capturing : Bool} {name : List Char}
    {size : Nat} :
    groupStart flags pos ('(' :: s) = .opens capturing name size ↔
      ∃ front r, '(' :: s = front ++ r ∧ GroupFront front capturing name ∧ size = front.length ∧
        (front = ['('] → ∀ t, r ≠ '?' :: t) := by
  constructor
  · intro h
    unfold groupStart at h
    rw [List.drop_one, List.tail_cons] at h
    split at h
    · rename_i r
      obtain ⟨rfl, rfl, rfl⟩ := GroupStart.opens.inj h
      exact ⟨_, r, rfl, .nonCapturing, rfl, by simp⟩
    · exact absurd h (by simp)
    · exact absurd h (by simp)
    · exact absurd h (by simp)
    · exact absurd h (by simp)
    · rename_i tail
      obtain ⟨rfl, hne, hname, rfl, r, hs⟩ := namedGroup_opens_iff.1 h
      obtain rfl : tail = name ++ '>' :: r := hs
      exact ⟨_, r, by simp, .named name hne hname, by simp; omega, by simp⟩
    · rename_i tail _ _
      obtain ⟨rfl, hne, hname, rfl, r, hs⟩ := namedGroup_opens_iff.1 h
      obtain rfl : tail = name ++ '>' :: r := hs
      exact ⟨_, r, by simp, .namedShort name hne hname, by simp; omega, by simp⟩
    · exact absurd h (by simp)
    · obtain ⟨rfl, rfl, rfl⟩ := GroupStart.opens.inj h
      refine ⟨_, s, rfl, .capturing, rfl, fun _ t ht => ?_⟩
      simp_all
  · rintro ⟨front, r, hs, hfront, rfl, hplain⟩
    cases hfront with
    | capturing =>
      obtain rfl : s = r := by simpa using hs
      cases s with
      | nil => rfl
      | cons c t =>
        have hc : c ≠ '?' := by rintro rfl; exact hplain rfl t rfl
        simp [groupStart, hc]
    | nonCapturing =>
      rw [hs]
      rfl
    | named _ hne hname =>
      rw [hs]
      refine namedGroup_opens_iff.2 ⟨rfl, hne, hname, by simp; omega, r, by simp⟩
    | namedShort _ hne hname =>
      have hopens : namedGroup flags pos 3 ('(' :: s) = .opens true name (['(', '?', '<'] ++ name ++ ['>']).length :=
        namedGroup_opens_iff.2 ⟨rfl, hne, hname, by simp; omega, r, by simp [hs]⟩
      rw [← hopens]
      obtain ⟨c, l, rfl⟩ := List.exists_cons_of_ne_nil hne
      have hbehind : c ≠ '=' := by rintro rfl; exact absurd (hname _ List.mem_cons_self) (by decide)
      have hnotBehind : c ≠ '!' := by rintro rfl; exact absurd (hname _ List.mem_cons_self) (by decide)
      obtain rfl : s = '?' :: '<' :: c :: (l ++ '>' :: r) := by simpa using hs
      -- a name starts with neither of the marks of a look-behind
      simp [groupStart, hbehind, hnotBehind]

/-! ## Groups that are one piece -/

/-- the front of a named group is one piece only if it is skipped -/
theorem namedGroup_whole {flags : Flags} {pos skip : Nat} {s : List Char} {p : Piece}
    (h : namedGroup flags pos skip s = .whole p) : p = skippedGroup flags pos .groupName s := by
  unfold namedGroup at h
  dsimp only at h
  split at h
  · exact absurd h (by simp)
  · exact (GroupStart.whole.inj h).symm

/-- a flag group is skipped for a stub, or it is made of known letters up to its parenthesis -/
theorem flagGroup_cases (flags : Flags) (pos : Nat) (s : List Char) :
    (∃ problem, (∀ text, (problem text).isStub = true) ∧
      flagGroup flags pos ('(' :: '?' :: s) = skippedGroup flags pos problem ('(' :: '?' :: s)) ∨
      ∃ letters r, s = letters ++ ')' :: r ∧ letters ≠ [] ∧ (∀ c ∈ letters, isFlagLetter c = true) ∧
        flagGroup flags pos ('(' :: '?' :: s) = .plain (flags.set letters) (.seq []) (2 + letters.length + 1) := by
  have hs : ('(' :: '?' :: s).drop 2 = s := rfl
  unfold flagGroup
  simp only [← List.drop_drop, hs]
  split
  · exact Or.inl ⟨_, fun _ => rfl, rfl⟩
  · rename_i c l r hletters hrest
    split_ifs with hminus
    · exact Or.inl ⟨_, fun _ => rfl, rfl⟩
    · split
      · exact Or.inl ⟨_, fun _ => rfl, rfl⟩
      · rename_i hfind
        refine Or.inr ⟨s.takeWhile fun c => isLetter c || c == '-', r, ?_, ?_, ?_, rfl⟩
        · rw [← hrest]
          exact (List.prefix_iff_eq_append.1 (List.takeWhile_prefix _)).symm
        · rw [hletters]; simp
        · intro x hx
          have := List.find?_eq_none.1 hfind x hx
          simpa using this
  · exact Or.inl ⟨_, fun _ => rfl, rfl⟩

/-- a group that is one piece is skipped for a stub or sets switches -/
theorem groupStart_whole {flags : Flags} {pos : Nat} {s : List Char} {p : Piece}
    (h : groupStart flags pos ('(' :: s) = .whole p) :
    (∃ problem, (∀ text, (problem text).isStub = true) ∧ p = skippedGroup flags pos problem ('(' :: s)) ∨
      ∃ letters r, s = '?' :: (letters ++ ')' :: r) ∧ letters ≠ [] ∧ (∀ c ∈ letters, isFlagLetter c = true) ∧
        p = .plain (flags.set letters) (.seq []) (2 + letters.length + 1) := by
  unfold groupStart at h
  rw [List.drop_one, List.tail_cons] at h
  split at h
  · exact absurd h (by simp)
  · exact Or.inl ⟨_, fun _ => rfl, (GroupStart.whole.inj h).symm⟩
  · exact Or.inl ⟨_, fun _ => rfl, (GroupStart.whole.inj h).symm⟩
  · exact Or.inl ⟨_, fun _ => rfl, (GroupStart.whole.inj h).symm⟩
  · exact Or.inl ⟨_, fun _ => rfl, (GroupStart.whole.inj h).symm⟩
  · exact Or.inl ⟨_, fun _ => rfl, namedGroup_whole h⟩
  · exact Or.inl ⟨_, fun _ => rfl, namedGroup_whole h⟩
  · rename_i tail _ _ _ _ _ _ _
    rw [← GroupStart.whole.inj h]
    rcases flagGroup_cases flags pos tail with hskip | ⟨letters, r, rfl, hne, hall, heq⟩
    · exact Or.inl hskip
    · exact Or.inr ⟨letters, r, rfl, hne, hall, heq⟩
  · exact absurd h (by simp)

theorem isFlagLetter_cases {c : Char} (h : isFlagLetter c = true) : c = 'i' ∨ c = 'm' ∨ c = 's' := by
  simpa [isFlagLetter, or_assoc] using h

/-- known letters up to a parenthesis set switches, whatever follows -/
theorem groupStart_flags (flags : Flags) (pos : Nat) {letters : List Char} (hne : letters ≠ [])
    (hall : ∀ c ∈ letters, isFlagLetter c = true) (r : List Char) :
    groupStart flags pos ('(' :: '?' :: (letters ++ ')' :: r)) =
      .whole (.plain (flags.set letters) (.seq []) (2 + letters.length + 1)) := by
  have hletter : ∀ c ∈ letters, (isLetter c || c == '-') = true := by
    intro c hc
    rcases isFlagLetter_cases (hall c hc) with rfl | rfl | rfl <;> decide
  have hclose : (isLetter ')' || ')' == '-') = false := by decide
  have hminus : letters.contains '-' = false := by
    rw [← Bool.not_eq_true, List.contains_iff_mem]
    exact fun hm => absurd (hall '-' hm) (by decide)
  have hfind : letters.find? (fun c => !isFlagLetter c) = none := by
    rw [List.find?_eq_none]
    intro c hc
    simp [hall c hc]
  have htake := takeWhile_append_of_all (r := r) hletter hclose
  have hgroup : flagGroup flags pos ('(' :: '?' :: (letters ++ ')' :: r)) =
      .plain (flags.set letters) (.seq []) (2 + letters.length + 1) := by
    have hs : ('(' :: '?' :: (letters ++ ')' :: r)).drop 2 = letters ++ ')' :: r := rfl
    obtain ⟨c, l, rfl⟩ := List.exists_cons_of_ne_nil hne
    unfold flagGroup
    simp only [← List.drop_drop, hs, htake, List.drop_left, hminus, hfind]
    rfl
  rw [← hgroup]
  obtain ⟨c, l, rfl⟩ := List.exists_cons_of_ne_nil hne
  -- the first letter is none of the marks of other groups
  rcases isFlagLetter_cases (hall c List.mem_cons_self) with rfl | rfl | rfl <;> rfl

/-! ## Braces -/

/-- digits that are a repetition bound with the value `n` -/
structure IsBound (digits : List Char) (n : Nat) : Prop where
  ne_nil : digits ≠ []
  all_digits : ∀ c ∈ digits, isAsciiDigit c = true
  value : digitsValue digits = n
  lt : n < 2 ^ 63

theorem bound?_eq_some_iff {digits : List Char} {n : Nat} (hd : ∀ c ∈ digits, isAsciiDigit c = true) :
    bound? digits = some n ↔ IsBound digits n := by
  unfold bound?
  constructor
  · intro h
    split_ifs at h with hbad
    simp only [Bool.or_eq_true, List.isEmpty_iff, decide_eq_true_eq, not_or, not_le] at hbad
    obtain rfl := Option.some.inj h
    exact ⟨hbad.1, hd, rfl, hbad.2⟩
  · rintro ⟨hne, -, rfl, hlt⟩
    rw [if_neg (by simpa [hne] using hlt)]

/-- what is written between braces after the opening one, with the closing one, and what it says -/
inductive BraceForm : List Char → RepeatOp → Nat → Option Nat → Prop where
  | exact (lo : List Char) (n : Nat) (hlo : IsBound lo n) : BraceForm (lo ++ ['}']) .exact n (some n)
  | atLeast (lo : List Char) (n : Nat) (hlo : IsBound lo n) : BraceForm (lo ++ [',', '}']) .atLeast n none
  | between (lo hi : List Char) (n m : Nat) (hlo : IsBound lo n) (hhi : IsBound hi m) (hle : n ≤ m) :
    BraceForm (lo ++ [','] ++ hi ++ ['}']) .between n (some m)

theorem sizeToBrace_le (s : List Char) : (sizeToBrace s).getD 0 ≤ s.length := by
  induction s with
  | nil => rfl
  | cons c r ih =>
    simp only [sizeToBrace, List.length_cons]
    split_ifs
    · simp
    · simp
    · cases h : sizeToBrace r with
      | none => simp
      | some n => simp only [h, Option.getD_some, Option.map_some] at ih ⊢; omega

/-- the braces take at least the opening one, and nothing that is not there -/
theorem braces_size (s : List Char) : 0 < (braces s).2 ∧ (braces s).2 ≤ s.length + 1 := by
  have hlo := (List.takeWhile_prefix isAsciiDigit (l := s)).length_le
  have hafterLo : (s.drop (s.takeWhile isAsciiDigit).length).length = s.length - (s.takeWhile isAsciiDigit).length :=
    List.length_drop
  have hbad := sizeToBrace_le (s.drop (s.takeWhile isAsciiDigit).length)
  unfold braces
  dsimp only
  split
  · dsimp only; omega
  · split
    · rename_i hafter
      simp only [hafter, List.length_cons] at hafterLo
      dsimp only; omega
    · rename_i hafter
      simp only [hafter, List.length_cons] at hafterLo
      dsimp only; omega
    · rename_i r _ hafter
      simp only [hafter, List.length_cons] at hafterLo
      have hhi := (List.takeWhile_prefix isAsciiDigit (l := r)).length_le
      have hbadHi := sizeToBrace_le (r.drop (r.takeWhile isAsciiDigit).length)
      have hafterHi :
          (r.drop (r.takeWhile isAsciiDigit).length).length = r.length - (r.takeWhile isAsciiDigit).length :=
        List.length_drop
      split
      · rename_i hclose
        simp only [hclose, List.length_cons] at hafterHi
        split_ifs <;> dsimp only <;> omega
      · dsimp only; omega
    · dsimp only; omega

/-- digits, and what comes after them -/
theorem exists_digits (s : List Char) :
    ∃ lo r, s = lo ++ r ∧ (∀ c ∈ lo, isAsciiDigit c = true) ∧ s.takeWhile isAsciiDigit = lo ∧ s.drop lo.length = r :=
  ⟨s.takeWhile isAsciiDigit, s.drop (s.takeWhile isAsciiDigit).length,
    (List.prefix_iff_eq_append.1 (List.takeWhile_prefix _)).symm, fun _ hc => List.mem_takeWhile_imp hc, rfl, rfl⟩

/-- **Braces are well formed** exactly if they are written in one of the three forms; nothing after them matters. -/
theorem braces_some_iff {s : List Char} {op : RepeatOp} {n : Nat} {hi : Option Nat} {size : Nat} :
    braces s = (some (op, n, hi), size) ↔
      ∃ text r, s = text ++ r ∧ BraceForm text op n hi ∧ size = text.length + 1 := by
  have hcomma : isAsciiDigit ',' = false := by decide
  have hbrace : isAsciiDigit '}' = false := by decide
  constructor
  · intro h
    obtain ⟨lo, r, hs, hdigits, htake, hdrop⟩ := exists_digits s
    unfold braces at h
    simp only [htake, hdrop] at h
    split at h
    · exact absurd h (by simp)
    · rename_i k hk
      have hlo := (bound?_eq_some_iff hdigits).1 hk
      split at h
      · rename_i r
        simp only [Prod.mk.injEq, Option.some.injEq] at h
        obtain ⟨⟨rfl, rfl, rfl⟩, rfl⟩ := h
        exact ⟨_, r, by simp [hs], .exact lo k hlo, by simp; omega⟩
      · rename_i r
        simp only [Prod.mk.injEq, Option.some.injEq] at h
        obtain ⟨⟨rfl, rfl, rfl⟩, rfl⟩ := h
        exact ⟨_, r, by simp [hs], .atLeast lo k hlo, by simp; omega⟩
      · rename_i r _
        obtain ⟨up, r', hs', hdigits', htake', hdrop'⟩ := exists_digits r
        simp only [htake', hdrop'] at h
        split at h
        · rename_i m r'' hm
          have hup := (bound?_eq_some_iff hdigits').1 hm
          split_ifs at h with hlt
          · exact absurd h (by simp)
          · simp only [Prod.mk.injEq, Option.some.injEq] at h
            obtain ⟨⟨rfl, rfl, rfl⟩, rfl⟩ := h
            exact ⟨_, r'', by simp [hs, hs'], .between lo up k m hlo hup (by omega), by simp; omega⟩
        · exact absurd h (by simp)
      · exact absurd h (by simp)
  · rintro ⟨text, r, rfl, hform, rfl⟩
    cases hform with
    | exact lo n hlo =>
      have htake := takeWhile_append_of_all (r := r) hlo.all_digits hbrace
      have hbound := (bound?_eq_some_iff hlo.all_digits).2 hlo
      unfold braces
      simp [htake, hbound]
      omega
    | atLeast lo n hlo =>
      have htake := takeWhile_append_of_all (r := '}' :: r) hlo.all_digits hcomma
      have hbound := (bound?_eq_some_iff hlo.all_digits).2 hlo
      unfold braces
      simp [htake, hbound]
      omega
    | between lo up n m hlo hup hle =>
      have htake := takeWhile_append_of_all (r := up ++ '}' :: r) hlo.all_digits hcomma
      have htake' := takeWhile_append_of_all (r := r) hup.all_digits hbrace
      have hbound := (bound?_eq_some_iff hlo.all_digits).2 hlo
      have hbound' := (bound?_eq_some_iff hup.all_digits).2 hup
      -- the second bound is not empty, so these are not the braces of "at least"
      obtain ⟨c, l, rfl⟩ := List.exists_cons_of_ne_nil hup.ne_nil
      have hc : c ≠ '}' := by rintro rfl; exact absurd (hup.all_digits _ List.mem_cons_self) (by decide)
      rw [List.cons_append] at htake htake'
      unfold braces
      simp [htake, htake', hbound, hbound', hc, not_lt.2 hle]
      omega

/-! ## Quantifiers -/

/-- the value of an upper bound; no bound counts as -1 -/
def upperBound : Option Nat → Int
  | some m => m
  | none => -1

/-- the word that the reader makes of an upper bound -/
def upperWord : Option Nat → Int64
  | some m => Int64.ofNat m
  | none => -1

/-- a quantifier as it is written, without the question mark that makes it lazy, with its operator and bounds -/
inductive QuantifierForm : List Char → RepeatOp → Int64 → Int64 → Prop where
  | star : QuantifierForm ['*'] .star 0 0
  | plus : QuantifierForm ['+'] .plus 0 0
  | quest : QuantifierForm ['?'] .quest 0 0
  | braces (text : List Char) (op : RepeatOp) (n : Nat) (hi : Option Nat) (min max : Int64) (h : BraceForm text op n hi)
    (hmin : min.toInt = n) (hmax : max.toInt = upperBound hi) : QuantifierForm ('{' :: text) op min max

/-- the words for the bounds have their values -/
theorem BraceForm.toInt {text : List Char} {op : RepeatOp} {n : Nat} {hi : Option Nat} (h : BraceForm text op n hi) :
    (Int64.ofNat n).toInt = n ∧ (upperWord hi).toInt = upperBound hi := by
  cases h with
  | exact lo n hlo => exact ⟨Int64.toInt_ofNat_of_lt hlo.lt, Int64.toInt_ofNat_of_lt hlo.lt⟩
  | atLeast lo n hlo => exact ⟨Int64.toInt_ofNat_of_lt hlo.lt, by decide⟩
  | between lo up n m hlo hup hle => exact ⟨Int64.toInt_ofNat_of_lt hlo.lt, Int64.toInt_ofNat_of_lt hup.lt⟩

/-- the quantifier is greedy unless a question mark follows -/
theorem withLaziness_iff {op : RepeatOp} {lo hi : Int64} {n : Nat} {r : List Char} {q : Quantity} {size : Nat} :
    Suffix.withLaziness op lo hi n r = .quantity q size ↔
      (∃ t, r = '?' :: t) ∧ q = ⟨op, lo, hi, false⟩ ∧ size = n + 1 ∨
        (∀ t, r ≠ '?' :: t) ∧ q = ⟨op, lo, hi, true⟩ ∧ size = n := by
  unfold Suffix.withLaziness
  split
  · simp [eq_comm]
  · rename_i hr
    have hr : ∀ t, r ≠ '?' :: t := fun t ht => hr t ht
    simp [hr, eq_comm]

theorem suffix_of_braces {s : List Char} {op : RepeatOp} {n : Nat} {hi : Option Nat} {size : Nat}
    (h : braces s = (some (op, n, hi), size)) :
    suffix ('{' :: s) = .withLaziness op (Int64.ofNat n) (upperWord hi) size (('{' :: s).drop size) := by
  cases hi <;> simp [suffix, h, upperWord]

theorem suffix_of_malformed {s : List Char} {size : Nat} (h : braces s = (none, size)) :
    suffix ('{' :: s) = .malformed size := by
  simp [suffix, h]

/-- **A quantifier is read** exactly where one is written, and it is lazy exactly if a question mark follows. -/
theorem suffix_quantity_iff {s : List Char} {q : Quantity} {size : Nat} :
    suffix s = .quantity q size ↔
      ∃ text r, s = text ++ r ∧ ∃ op lo hi, QuantifierForm text op lo hi ∧
        ((∃ t, r = '?' :: t) ∧ q = ⟨op, lo, hi, false⟩ ∧ size = text.length + 1 ∨
          (∀ t, r ≠ '?' :: t) ∧ q = ⟨op, lo, hi, true⟩ ∧ size = text.length) := by
  constructor
  · intro h
    unfold suffix at h
    split at h
    · rename_i r
      exact ⟨['*'], r, rfl, _, _, _, .star, withLaziness_iff.1 h⟩
    · rename_i r
      exact ⟨['+'], r, rfl, _, _, _, .plus, withLaziness_iff.1 h⟩
    · rename_i r
      exact ⟨['?'], r, rfl, _, _, _, .quest, withLaziness_iff.1 h⟩
    · rename_i r
      rcases hb : braces r with ⟨_ | ⟨op, lo, hi⟩, n⟩
      · rw [hb] at h
        exact absurd h (by simp)
      · have h : suffix ('{' :: r) = .quantity q size := by simpa [suffix] using h
        rw [suffix_of_braces hb] at h
        obtain ⟨text, r', rfl, hform, rfl⟩ := braces_some_iff.1 hb
        obtain ⟨hmin, hmax⟩ := hform.toInt
        refine ⟨'{' :: text, r', rfl, _, _, _, .braces text op lo hi _ _ hform hmin hmax, ?_⟩
        simpa using withLaziness_iff.1 h
    · exact absurd h (by simp)
  · rintro ⟨text, r, rfl, op, lo, hi, hform, h⟩
    have h := withLaziness_iff.2 h
    cases hform with
    | star | plus | quest => exact h
    | braces text op n up min max hform hmin hmax =>
      have hb := braces_some_iff.2 ⟨text, r, rfl, hform, rfl⟩
      obtain ⟨hmin', hmax'⟩ := hform.toInt
      obtain rfl : Int64.ofNat n = lo := Int64.toInt_inj.1 (hmin'.trans hmin.symm)
      obtain rfl : upperWord up = hi := Int64.toInt_inj.1 (hmax'.trans hmax.symm)
      rw [List.cons_append, suffix_of_braces hb]
      simpa using h

theorem withLaziness_quantity (op : RepeatOp) (lo hi : Int64) (n : Nat) (r : List Char) :
    ∃ q size, Suffix.withLaziness op lo hi n r = .quantity q size := by
  unfold Suffix.withLaziness
  split <;> exact ⟨_, _, rfl⟩

/-- a quantifier is malformed only behind an opening brace -/
theorem suffix_malformed {s : List Char} {size : Nat} (h : suffix s = .malformed size) :
    ∃ r, s = '{' :: r ∧ braces r = (none, size) := by
  have hlazy : ∀ op lo hi n r, Suffix.withLaziness op lo hi n r ≠ .malformed size := by
    intro op lo hi n r heq
    obtain ⟨q, m, hq⟩ := withLaziness_quantity op lo hi n r
    exact absurd (hq.symm.trans heq) (by simp)
  unfold suffix at h
  split at h
  · exact absurd h (hlazy _ _ _ _ _)
  · exact absurd h (hlazy _ _ _ _ _)
  · exact absurd h (hlazy _ _ _ _ _)
  · rename_i r
    split at h
    · exact absurd h (hlazy _ _ _ _ _)
    · rename_i n hb
      obtain rfl := Suffix.malformed.inj h
      exact ⟨r, rfl, hb⟩
  · exact absurd h (by simp)

/-- there is no quantifier exactly where none starts -/
theorem suffix_none_iff {s : List Char} : suffix s = .none ↔ ∀ c t, s = c :: t → isQuantifierStart c = false := by
  have hlazy : ∀ op lo hi n r, Suffix.withLaziness op lo hi n r ≠ .none := by
    intro op lo hi n r heq
    obtain ⟨q, m, hq⟩ := withLaziness_quantity op lo hi n r
    exact absurd (hq.symm.trans heq) (by simp)
  constructor
  · rintro h c t rfl
    rw [← Bool.not_eq_true]
    intro hc
    simp only [isQuantifierStart, Bool.or_eq_true, beq_iff_eq] at hc
    rcases hc with ((rfl | rfl) | rfl) | rfl
    · exact hlazy _ _ _ _ _ h
    · exact hlazy _ _ _ _ _ h
    · exact hlazy _ _ _ _ _ h
    · rcases hb : braces t with ⟨_ | ⟨op, n, hi⟩, size⟩
      · rw [suffix_of_malformed hb] at h
        exact absurd h (by simp)
      · rw [suffix_of_braces hb] at h
        exact hlazy _ _ _ _ _ h
  · intro h
    cases s with
    | nil => rfl
    | cons c t =>
      have hc := h c t rfl
      simp only [isQuantifierStart, Bool.or_eq_false_iff, beq_eq_false_iff_ne] at hc
      obtain ⟨⟨⟨hstar, hplus⟩, hquest⟩, hbrace⟩ := hc
      simp [suffix, hstar, hplus, hquest, hbrace]

end MatcherGen
