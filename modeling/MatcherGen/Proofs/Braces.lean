/-
Braces after an atom. They are a quantifier exactly in their three forms; anything else that starts with a brace leaves the
atom as it is, and a stub for the text that is given up. How much that is follows from the text alone: the bounds as far
as they can be read, and then everything through the next closing brace, if no boundary of a group or an arm comes first.

Main statements:
- `sizeToBrace_eq_some_iff`: which closing brace is the next one;
- `braces_size_eq`: braces take their bounds and the text through the next closing brace, well formed or not;
- `braces_repeat_or_leave_atom`: what an atom and braces become.
-/
import MatcherGen.Proofs.Locality
import MatcherGen.Proofs.ReaderSteps

namespace MatcherGen

/-! ## The text of braces -/

/-- the closing brace after `mid` is the next one, and no boundary of a group or an arm comes first -/
structure ClosesAfter (mid s : List Char) : Prop where
  closed : ∃ t, s = mid ++ '}' :: t
  inside : ∀ c ∈ mid, c ≠ '}' ∧ c ≠ '(' ∧ c ≠ ')' ∧ c ≠ '|'

theorem ClosesAfter.cons {c : Char} {mid s : List Char} (hc : c ≠ '}' ∧ c ≠ '(' ∧ c ≠ ')' ∧ c ≠ '|')
    (h : ClosesAfter mid s) : ClosesAfter (c :: mid) (c :: s) := by
  obtain ⟨⟨t, rfl⟩, hinside⟩ := h
  refine ⟨⟨t, rfl⟩, fun x hx => ?_⟩
  rcases List.mem_cons.1 hx with rfl | hx
  · exact hc
  · exact hinside x hx

/-- **The next closing brace** is found exactly if there is one before every boundary. -/
theorem sizeToBrace_eq_some_iff {s : List Char} {n : Nat} :
    sizeToBrace s = some n ↔ ∃ mid, ClosesAfter mid s ∧ n = mid.length + 1 := by
  constructor
  · intro h
    induction s generalizing n with
    | nil => exact absurd h (by simp [sizeToBrace])
    | cons c r ih =>
      rw [sizeToBrace] at h
      split_ifs at h with hclose hbound
      · obtain rfl : c = '}' := by simpa using hclose
        exact ⟨[], ⟨⟨r, rfl⟩, by simp⟩, (Option.some.inj h).symm⟩
      · obtain ⟨m, hm, rfl⟩ := Option.map_eq_some_iff.1 h
        obtain ⟨mid, hmid, rfl⟩ := ih hm
        have hc : c ≠ '}' ∧ c ≠ '(' ∧ c ≠ ')' ∧ c ≠ '|' := by
          simp only [Bool.or_eq_true, beq_iff_eq, not_or] at hclose hbound
          exact ⟨hclose, hbound.1.1, hbound.1.2, hbound.2⟩
        exact ⟨c :: mid, hmid.cons hc, rfl⟩
  · rintro ⟨mid, ⟨⟨t, rfl⟩, hinside⟩, rfl⟩
    induction mid with
    | nil => rfl
    | cons c mid ih =>
      obtain ⟨hclose, hopen, hend, hbar⟩ := hinside c List.mem_cons_self
      have ih := ih fun x hx => hinside x (List.mem_cons_of_mem _ hx)
      simp [sizeToBrace, hclose, hopen, hend, hbar, ih]

theorem sizeToBrace_eq_none_iff {s : List Char} : sizeToBrace s = none ↔ ∀ mid, ¬ ClosesAfter mid s := by
  rw [Option.eq_none_iff_forall_ne_some]
  constructor
  · intro h mid hmid
    exact h _ (sizeToBrace_eq_some_iff.2 ⟨mid, hmid, rfl⟩)
  · intro h n hn
    obtain ⟨mid, hmid, -⟩ := sizeToBrace_eq_some_iff.1 hn
    exact h mid hmid

/-- the bounds at the front of what follows an opening brace, as far as they can be read: all digits that come first and,
if these are a bound and a comma follows, the comma and all digits after it; `r` is the rest -/
inductive BoundsFront : List Char → List Char → Prop where
  | lower (lo r : List Char) (hlo : ∀ c ∈ lo, isAsciiDigit c = true) (hr : ∀ c t, r = c :: t → isAsciiDigit c = false)
    (hstop : (∃ n, IsBound lo n) → ∀ t, r ≠ ',' :: t) : BoundsFront lo r
  | both (lo hi r : List Char) (n : Nat) (hlo : IsBound lo n) (hhi : ∀ c ∈ hi, isAsciiDigit c = true)
    (hr : ∀ c t, r = c :: t → isAsciiDigit c = false) : BoundsFront (lo ++ ',' :: hi) r

/-- the text that malformed braces `'{' :: s` take: the bounds, and everything through the next closing brace -/
inductive BraceText (s : List Char) : List Char → Prop where
  | closed (front mid r : List Char) (hs : s = front ++ r) (hfront : BoundsFront front r) (hmid : ClosesAfter mid r) :
    BraceText s ('{' :: (front ++ mid ++ ['}']))
  | unclosed (front r : List Char) (hs : s = front ++ r) (hfront : BoundsFront front r)
    (hr : ∀ mid, ¬ ClosesAfter mid r) : BraceText s ('{' :: front)

theorem exists_boundsFront (s : List Char) : ∃ front r, s = front ++ r ∧ BoundsFront front r := by
  obtain ⟨lo, r, rfl, hlo, hr⟩ := exists_span isAsciiDigit s
  by_cases hcomma : (∃ n, IsBound lo n) ∧ ∃ t, r = ',' :: t
  · obtain ⟨⟨n, hn⟩, t, rfl⟩ := hcomma
    obtain ⟨hi, r, rfl, hhi, hr'⟩ := exists_span isAsciiDigit t
    exact ⟨lo ++ ',' :: hi, r, by simp, .both lo hi r n hn hhi hr'⟩
  · exact ⟨lo, r, rfl, .lower lo r hlo hr fun hn t ht => hcomma ⟨hn, t, ht⟩⟩

theorem takeWhile_digits {lo r : List Char} (hlo : ∀ c ∈ lo, isAsciiDigit c = true)
    (hr : ∀ c t, r = c :: t → isAsciiDigit c = false) : (lo ++ r).takeWhile isAsciiDigit = lo := by
  rw [takeWhile_append_boundary hr, List.takeWhile_eq_self_iff.2 hlo]

/-- behind the comma the digits are taken, and the text through the next closing brace -/
theorem bracesUpper_size (n size : Nat) {hi r : List Char} (hhi : ∀ c ∈ hi, isAsciiDigit c = true)
    (hr : ∀ c t, r = c :: t → isAsciiDigit c = false) :
    (bracesUpper n size (hi ++ r)).2 = size + hi.length + (sizeToBrace r).getD 0 := by
  unfold bracesUpper
  simp only [takeWhile_digits hhi hr, List.drop_left]
  split
  · split_ifs <;> rfl
  · rfl

/-- the lower bound is taken, with what the comma leads to -/
theorem bracesLower_size (n size : Nat) {r : List Char} (hr : ∀ t, r ≠ ',' :: t) :
    (bracesLower n size r).2 = size + (sizeToBrace r).getD 0 := by
  unfold bracesLower
  split
  · rfl
  · exact absurd rfl (hr _)
  · exact absurd rfl (hr _)
  · rfl

theorem bracesLower_comma_size (n size : Nat) {hi r : List Char} (hhi : ∀ c ∈ hi, isAsciiDigit c = true)
    (hr : ∀ c t, r = c :: t → isAsciiDigit c = false) :
    (bracesLower n size (',' :: (hi ++ r))).2 = size + 1 + hi.length + (sizeToBrace r).getD 0 := by
  by_cases hclose : ∃ t, hi ++ r = '}' :: t
  · obtain ⟨t, ht⟩ := hclose
    -- no digit is a brace, so there are none
    obtain rfl : hi = [] := by
      cases hi with
      | nil => rfl
      | cons c hi =>
        obtain ⟨rfl, -⟩ := List.cons.inj ht
        exact absurd (hhi '}' List.mem_cons_self) (by decide)
    obtain rfl : r = '}' :: t := ht
    rfl
  · rw [← bracesUpper_size n (size + 1) hhi hr]
    unfold bracesLower
    split
    · rename_i heq
      exact absurd heq (by simp)
    · rename_i heq
      exact absurd ⟨_, (List.cons.inj heq).2⟩ hclose
    · rename_i heq
      rw [(List.cons.inj heq).2]
    · rename_i heq
      exact absurd rfl (heq _)

/-- **What braces take**, well formed or not: the bounds, and the text through the next closing brace. -/
theorem braces_size_eq {front r : List Char} (h : BoundsFront front r) :
    (braces (front ++ r)).2 = 1 + front.length + (sizeToBrace r).getD 0 := by
  cases h with
  | lower _ _ hlo hr hstop =>
    rw [braces_eq, takeWhile_digits hlo hr, List.drop_left]
    cases hbound : bound? front with
    | none => rfl
    | some n => exact bracesLower_size n _ (hstop ⟨n, (bound?_eq_some_iff hlo).1 hbound⟩)
  | both lo hi _ n hlo hhi hr =>
    have hcomma : ∀ c t, ',' :: (hi ++ r) = c :: t → isAsciiDigit c = false := by
      rintro c t heq
      obtain ⟨rfl, -⟩ := List.cons.inj heq
      decide
    rw [List.append_assoc, List.cons_append, braces_eq, takeWhile_digits hlo.all_digits hcomma, List.drop_left,
      (bound?_eq_some_iff hlo.all_digits).2 hlo]
    refine (bracesLower_comma_size n _ hhi hr).trans ?_
    rw [List.length_append, List.length_cons]
    omega

/-- the text of braces is what they take -/
theorem braceText_iff {s T : List Char} : BraceText s T ↔ T = ('{' :: s).take (braces s).2 := by
  have hclosed : ∀ {front mid r : List Char}, BoundsFront front r → ClosesAfter mid r →
      ('{' :: (front ++ r)).take (braces (front ++ r)).2 = '{' :: (front ++ mid ++ ['}']) := by
    intro front mid r hfront hmid
    have hsize : (braces (front ++ r)).2 = ('{' :: (front ++ mid ++ ['}'])).length := by
      rw [braces_size_eq hfront, sizeToBrace_eq_some_iff.2 ⟨mid, hmid, rfl⟩]
      simp only [Option.getD_some, List.length_cons, List.length_append, List.length_nil]
      omega
    obtain ⟨t, rfl⟩ := hmid.closed
    have hsplit : '{' :: (front ++ (mid ++ '}' :: t)) = '{' :: (front ++ mid ++ ['}']) ++ t := by simp
    rw [hsize, hsplit, List.take_left]
  have hopen : ∀ {front r : List Char}, BoundsFront front r → (∀ mid, ¬ ClosesAfter mid r) →
      ('{' :: (front ++ r)).take (braces (front ++ r)).2 = '{' :: front := by
    intro front r hfront hr
    have hsize : (braces (front ++ r)).2 = ('{' :: front).length := by
      rw [braces_size_eq hfront, sizeToBrace_eq_none_iff.2 hr]
      simp only [Option.getD_none, List.length_cons]
      omega
    rw [hsize, ← List.cons_append, List.take_left]
  constructor
  · rintro (⟨front, mid, r, rfl, hfront, hmid⟩ | ⟨front, r, rfl, hfront, hr⟩)
    · exact (hclosed hfront hmid).symm
    · exact (hopen hfront hr).symm
  · rintro rfl
    obtain ⟨front, r, rfl, hfront⟩ := exists_boundsFront s
    by_cases hmid : ∃ mid, ClosesAfter mid r
    · obtain ⟨mid, hmid⟩ := hmid
      rw [hclosed hfront hmid]
      exact .closed front mid r rfl hfront hmid
    · have hr : ∀ mid, ¬ ClosesAfter mid r := fun mid h => hmid ⟨mid, h⟩
      rw [hopen hfront hr]
      exact .unclosed front r rfl hfront hr

/-! ## Atoms with braces -/

/-- braces are malformed if no form of them stands at the front -/
theorem braces_of_no_form {s : List Char} (h : ¬ ∃ text t op n hi, s = text ++ t ∧ BraceForm text op n hi) :
    (braces s).1 = none := by
  cases hb : (braces s).1 with
  | none => rfl
  | some found =>
    obtain ⟨op, n, hi⟩ := found
    obtain ⟨text, t, hs, hform, -⟩ := braces_some_iff.1 (Prod.ext hb rfl : braces s = (some (op, n, hi), (braces s).2))
    exact absurd ⟨text, t, op, n, hi, hs, hform⟩ h

namespace Reader

theorem addAtom_of_quantity {r : Reader} {q : Quantity} {size : Nat} (h : suffix r.rest = .quantity q size) (x : Node) :
    r.addAtom x = { r with here := r.here.push [.rep x q] }.advance size := by
  unfold addAtom
  rw [h]

theorem addAtom_of_malformed {r : Reader} {size : Nat} (h : suffix r.rest = .malformed size) (x : Node) :
    r.addAtom x =
      { r with
        here := r.here.push [x, .stub (Problem.malformedQuantifier (r.rest.take size)).message]
        remarks := r.remarks ++ [(Problem.malformedQuantifier (r.rest.take size)).at r.pos] }.advance size := by
  unfold addAtom
  rw [h]

/-- braces in one of their forms repeat the atom, lazily exactly before a question mark -/
theorem addAtom_of_form {r : Reader} {text t : List Char} {op : RepeatOp} {n : Nat} {hi : Option Nat}
    (hform : BraceForm text op n hi) (hr : r.rest = '{' :: (text ++ t)) (x : Node) :
    ∃ q : Quantity, q.op = op ∧ q.min.toInt = n ∧ q.max.toInt = upperBound hi ∧
      (q.greedy = false ↔ ∃ u, t = '?' :: u) ∧
      r.addAtom x = { r with here := r.here.push [.rep x q] }.advance (text.length + if q.greedy then 1 else 2) := by
  obtain ⟨hmin, hmax⟩ := hform.toInt
  have hsuffix : suffix r.rest = .withLaziness op (Int64.ofNat n) (upperWord hi) (text.length + 1) t := by
    rw [hr, suffix_of_braces (braces_some_iff.2 ⟨text, t, rfl, hform, rfl⟩), List.drop_succ_cons, List.drop_left]
  by_cases hlazy : ∃ u, t = '?' :: u
  · have hq := hsuffix.trans (withLaziness_iff.2 (Or.inl ⟨hlazy, rfl, rfl⟩))
    exact ⟨⟨op, Int64.ofNat n, upperWord hi, false⟩, rfl, hmin, hmax, iff_of_true rfl hlazy, addAtom_of_quantity hq x⟩
  · have hq := hsuffix.trans (withLaziness_iff.2 (Or.inr ⟨fun u hu => hlazy ⟨u, hu⟩, rfl, rfl⟩))
    exact ⟨⟨op, Int64.ofNat n, upperWord hi, true⟩, rfl, hmin, hmax, iff_of_false (by simp) hlazy,
      addAtom_of_quantity hq x⟩

/-- any other braces leave the atom and a stub for their text -/
theorem addAtom_of_no_form {r : Reader} {s : List Char} (hr : r.rest = '{' :: s)
    (h : ¬ ∃ text t op n hi, s = text ++ t ∧ BraceForm text op n hi) (x : Node) :
    ∃ text, (∀ u, BraceText s u ↔ u = text) ∧ r.rest = text ++ (r.addAtom x).rest ∧
      r.addAtom x =
        { r with
          here := r.here.push [x, .stub ("malformed quantifier ".toList ++ text)]
          remarks := r.remarks ++ [Diagnostic.mk r.pos ("malformed quantifier ".toList ++ text) true] }.advance
          text.length := by
  have hsuffix : suffix r.rest = .malformed (braces s).2 := by
    rw [hr]
    exact suffix_of_malformed (Prod.ext (braces_of_no_form h) rfl)
  have hlength : (r.rest.take (braces s).2).length = (braces s).2 := by
    rw [hr, List.length_take, List.length_cons]
    exact Nat.min_eq_left (braces_size s).2
  have hatom := addAtom_of_malformed hsuffix x
  refine ⟨r.rest.take (braces s).2, fun u => ?_, ?_, ?_⟩
  · rw [hr]
    exact braceText_iff
  · rw [hatom]
    exact (List.take_append_drop _ _).symm
  · rw [hlength, hatom]
    rfl

end Reader

/-- **Braces repeat the atom or leave it.** Wherever an atom is read and an opening brace follows: the atom becomes one
repetition exactly if the braces have one of their three forms, with the bounds as they are written, lazy exactly if a
question mark follows, and the reader goes on behind them. Otherwise it stays, a stub follows it, and the text given up
is the one that `BraceText` describes. -/
theorem braces_repeat_or_leave_atom (r : Reader) (x : Node) (s : List Char) (hr : r.rest = '{' :: s) :
    ((∃ q, (r.addAtom x).here = r.here.push [.rep x q]) ↔
      ∃ text t op n hi, s = text ++ t ∧ BraceForm text op n hi) ∧
    (∀ text t op n hi, s = text ++ t → BraceForm text op n hi →
      ∃ q : Quantity, q.op = op ∧ q.min.toInt = n ∧ q.max.toInt = upperBound hi ∧
        (q.greedy = false ↔ ∃ u, t = '?' :: u) ∧
        r.addAtom x = { r with here := r.here.push [.rep x q] }.advance (text.length + if q.greedy then 1 else 2)) ∧
    ((¬ ∃ text t op n hi, s = text ++ t ∧ BraceForm text op n hi) →
      ∃ text, (∀ u, BraceText s u ↔ u = text) ∧ r.rest = text ++ (r.addAtom x).rest ∧
        r.addAtom x =
          { r with
            here := r.here.push [x, .stub ("malformed quantifier ".toList ++ text)]
            remarks := r.remarks ++ [Diagnostic.mk r.pos ("malformed quantifier ".toList ++ text) true] }.advance
            text.length) := by
  refine ⟨⟨fun ⟨q, hq⟩ => ?_, ?_⟩, ?_, fun h => Reader.addAtom_of_no_form hr h x⟩
  · by_contra hform
    obtain ⟨text, -, -, hatom⟩ := Reader.addAtom_of_no_form hr hform x
    -- two factors are not one
    have hterm := congrArg Branches.term ((congrArg Reader.here hatom).symm.trans hq)
    have hlength := congrArg List.length hterm
    simp [Reader.advance, Branches.push] at hlength
  · rintro ⟨text, t, op, n, hi, rfl, hform⟩
    obtain ⟨q, -, -, -, -, hatom⟩ := Reader.addAtom_of_form hform hr x
    exact ⟨q, congrArg Reader.here hatom⟩
  · rintro text t op n hi rfl hform
    exact Reader.addAtom_of_form hform hr x

/-- what follows the opening brace in `{5,3}?` -/
def invertedBounds : List Char := ['5', ',', '3', '}', '?']

/-- after `a{5,3}?` the atom is left, and the text given up ends with the brace -/
theorem invertedBounds_leave_atom :
    let r : Reader := { Reader.start ('{' :: invertedBounds) with pos := 1 }
    (¬ ∃ text t op n hi, invertedBounds = text ++ t ∧ BraceForm text op n hi) ∧
    (∀ u, BraceText invertedBounds u ↔ u = ['{', '5', ',', '3', '}']) ∧
    (r.addAtom (.lit ['a'] false)).rest = ['?'] := by
  intro r
  obtain ⟨hrepeats, -, hleaves⟩ := braces_repeat_or_leave_atom r (.lit ['a'] false) invertedBounds rfl
  have hform : ¬ ∃ text t op n hi, invertedBounds = text ++ t ∧ BraceForm text op n hi := by
    intro h
    obtain ⟨q, hq⟩ := hrepeats.2 h
    have hlength : (r.addAtom (.lit ['a'] false)).here.term.length = 2 := rfl
    rw [hq] at hlength
    exact absurd hlength (by simp [Branches.push, r, Reader.start])
  obtain ⟨text, htext, hrest, -⟩ := hleaves hform
  have hrest' : (r.addAtom (.lit ['a'] false)).rest = ['?'] := rfl
  obtain rfl : ['{', '5', ',', '3', '}'] = text :=
    List.append_cancel_right (hrest.trans (congrArg (text ++ ·) hrest'))
  exact ⟨hform, htext, hrest'⟩

/-- A lower bound that is too large ends the text given up, although a comma and digits follow. -/
theorem overflowing_bound_ends_text :
    (Reading.ofPattern (Text.ofString "a\x7b9223372036854775808,5")).root =
      .seq [.lit ['a'] false, .stub "malformed quantifier \x7b9223372036854775808".toList, .lit [',', '5'] false] := by
  rfl

end MatcherGen
