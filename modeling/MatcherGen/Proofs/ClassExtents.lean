/-
Where a class ends. A reader on an opening bracket looks at up to four characters at a time: for an escape, for a hyphen
and what follows it, for an escape behind a hyphen. Scanning the text once, with a backslash and the character after it
as one unit, finds the same end: the first bracket that is a unit of its own. If there is none, the class takes the rest of
the pattern, and one remark says so, at its opening bracket.

Main statements:
- `classBody_not_unterminated`, `ClassBody.piece_unterminated`: a class that is not closed has the remark once, and one
  that is closed has it nowhere;
- `classPiece_endsAfter`: how many characters a class takes;
- `class_ends_at_first_free_bracket`: where the reader goes on behind a class, and what it has remarked.
-/
import MatcherGen.Proofs.Classes
import MatcherGen.Proofs.ReaderSteps

namespace MatcherGen

/-! ## The remark on a class without an end -/

/-- the remark says that a class has no end -/
def Diagnostic.saysUnterminated (d : Diagnostic) : Bool := d.message = "unterminated character class".toList

theorem Problem.at_saysUnterminated (pos : Nat) : (Problem.unterminatedClass.at pos).saysUnterminated = true :=
  decide_eq_true rfl

/-- a message that starts otherwise does not say it -/
theorem Diagnostic.not_saysUnterminated {d : Diagnostic} {c : Char} (hhead : d.message.head? = some c) (hc : c ≠ 'u') :
    d.saysUnterminated = false := by
  refine decide_eq_false fun heq => hc ?_
  rw [heq] at hhead
  exact (Option.some.inj hhead).symm

/-- **No remark on a member or a range** says that a class has no end. -/
theorem classBody_not_unterminated (acc : ClassBody) (pos : Nat) (s : List Char) (h : acc.remarks = []) :
    (classBody acc pos s).remarks.filter Diagnostic.saysUnterminated = [] := by
  have hremarks : ∀ d ∈ (classBody acc pos s).remarks, d.saysUnterminated = false := by
    refine classBody_remarks_keep (fun pos c _ => ?_) (fun pos text _ => ?_) acc pos s (List.Subset.refl s) (by simp [h])
    · exact Diagnostic.not_saysUnterminated (c := 'e') rfl (by decide)
    · exact Diagnostic.not_saysUnterminated (c := 'i') rfl (by decide)
  refine List.filter_eq_nil_iff.2 fun d hd => ?_
  simp [hremarks d hd]

/-- **The remark is made once**, at the opening bracket, and only on a class that is not closed. -/
theorem ClassBody.piece_unterminated {b : ClassBody} (h : b.remarks.filter Diagnostic.saysUnterminated = [])
    (flags : Flags) (pos : Nat) :
    (b.piece flags pos).remarks.filter Diagnostic.saysUnterminated =
      if b.closed then [] else [Problem.unterminatedClass.at pos] := by
  unfold ClassBody.piece
  split_ifs
  · exact h
  · rw [List.filter_append, h, List.filter_cons_of_pos (Problem.at_saysUnterminated pos)]
    rfl

/-! ## The reader behind a class -/

/-- the reader behind a piece, before it looks for a quantifier -/
def Reader.past (r : Reader) (p : Piece) : Reader :=
  { r with flags := p.flags, remarks := r.remarks ++ p.remarks }.advance p.size

/-- a step from an opening bracket reads a class, and then the quantifier after it -/
theorem Reader.step_class {r : Reader} {s : List Char} (hr : r.rest = '[' :: s) :
    r.step = some ((r.past (classPiece r.flags r.pos s)).addAtom (classPiece r.flags r.pos s).node) :=
  (step_eq_some_iff r _).2 (.atom '[' s hr (by decide) (by decide) (by decide))

/-- the place where the text of a class starts: behind its opening bracket at `k`, and behind the circumflex if there is
one -/
def classStart (s : List Char) (k : Nat) : Nat := if s[k + 1]? = some '^' then k + 2 else k + 1

theorem classStart_le {s : List Char} {k : Nat} (h : k < s.length) : classStart s k ≤ s.length := by
  unfold classStart
  split_ifs with hneg
  · have := (List.getElem?_eq_some_iff.1 hneg).1
    omega
  · exact h

/-- the body of a class is read from there -/
theorem classPiece_eq_piece (flags : Flags) (s : List Char) (k : Nat) :
    ∃ negated size, k + size = classStart s k ∧
      classPiece flags k (s.drop (k + 1)) =
        (classBody ⟨⟨negated, [], []⟩, [], size, false⟩ (classStart s k) (s.drop (classStart s k))).piece flags k := by
  unfold classStart
  split_ifs with hneg
  · obtain ⟨hlt, hchar⟩ := List.getElem?_eq_some_iff.1 hneg
    refine ⟨true, 2, rfl, ?_⟩
    rw [List.drop_eq_getElem_cons hlt, hchar, classPiece_negated]
  · refine ⟨false, 1, rfl, classPiece_plain flags k fun r hr => hneg ?_⟩
    rw [← List.head?_drop, hr]
    rfl

/-- **A class takes its opening bracket, its circumflex and as much of its text as the units say**, and has the remark
exactly if none of them closes it. -/
theorem classPiece_endsAfter (flags : Flags) (s : List Char) (k : Nat) :
    ∃ n closed, EndsAfter (escapeUnits (s.drop (classStart s k))) n closed ∧
      k + (classPiece flags k (s.drop (k + 1))).size = classStart s k + n ∧
      (classPiece flags k (s.drop (k + 1))).remarks.filter Diagnostic.saysUnterminated =
        if closed then [] else [Problem.unterminatedClass.at k] := by
  obtain ⟨negated, size, hstart, hpiece⟩ := classPiece_eq_piece flags s k
  obtain ⟨n, hsize, hends⟩ := classBody_endsAfter ⟨⟨negated, [], []⟩, [], size, false⟩ (classStart s k)
    (s.drop (classStart s k)) rfl
  refine ⟨n, _, hends, ?_, ?_⟩
  · calc k + (classPiece flags k (s.drop (k + 1))).size = k + (size + n) := by rw [hpiece]; exact congrArg (k + ·) hsize
      _ = classStart s k + n := by rw [← Nat.add_assoc, hstart]
  · rw [hpiece]
    exact ClassBody.piece_unterminated (classBody_not_unterminated _ _ _ rfl) flags k

/-- **A class ends at the first free bracket.** Let a reader of a pattern, in whatever state, stand on an opening bracket,
and cut what follows the bracket, and the circumflex if there is one, into units. The reader goes on behind the first
closing bracket that is a unit of its own, and has not remarked that the class has no end. If no unit is such a bracket,
it goes on at the end of the pattern, and has remarked it once, at the opening bracket. -/
theorem class_ends_at_first_free_bracket (pattern : Text) (r : Reader) (hrest : r.rest = pattern.chars.drop r.pos)
    (hcursor : pattern.chars[r.pos]? = some '[') :
    let s := pattern.chars
    let units := escapeUnits (s.drop (classStart s r.pos))
    let p := classPiece r.flags r.pos (s.drop (r.pos + 1))
    let notes := p.remarks.filter Diagnostic.saysUnterminated
    r.step = some ((r.past p).addAtom p.node) ∧ (r.past p).rest = s.drop (r.past p).pos ∧
    ((∃ before after, units = before ++ [']'] :: after ∧ [']'] ∉ before ∧
        (r.past p).pos = classStart s r.pos + before.flatten.length + 1 ∧ notes = []) ∨
      [']'] ∉ units ∧ (r.past p).pos = s.length ∧
        notes = [⟨r.pos, "unterminated character class".toList, false⟩]) := by
  intro s units p notes
  obtain ⟨hlt, hbracket⟩ := List.getElem?_eq_some_iff.1 hcursor
  have hopen : r.rest = '[' :: s.drop (r.pos + 1) := by
    rw [hrest, List.drop_eq_getElem_cons hlt, hbracket]
  refine ⟨Reader.step_class hopen, ?_, ?_⟩
  · show r.rest.drop p.size = s.drop (r.pos + p.size)
    rw [hrest, List.drop_drop]
  · obtain ⟨n, closed, hends, hpos, hnotes⟩ := classPiece_endsAfter r.flags s r.pos
    have htext : units.flatten = s.drop (classStart s r.pos) := flatten_escapeUnits _
    change EndsAfter units n closed at hends
    clear_value units
    cases hends with
    | bracket before after hbefore => exact Or.inl ⟨before, after, rfl, hbefore, hpos, hnotes⟩
    | text _ hnone =>
      have hend : (r.past p).pos = s.length := by
        have hle := classStart_le hlt
        calc (r.past p).pos = classStart s r.pos + (s.length - classStart s r.pos) := by
              rw [← List.length_drop, ← htext]
              exact hpos
          _ = s.length := Nat.add_sub_cancel' hle
      exact Or.inr ⟨hnone, hend, hnotes⟩

/-- the pattern `x[^\]a-\]--]+[b-\`: a class with escaped brackets and hyphens before its own bracket, and one whose last
backslash escapes nothing -/
def bracketedPattern : Text := .ofString "x[^\\]a-\\]--]+[b-\\"

/-- a reader of a pattern that stands at `k` -/
def Reader.standing (pattern : Text) (k : Nat) : Reader := ⟨k, pattern.chars.drop k, ⟨false, false⟩, [], [], ⟨[], []⟩⟩

/-- the first class starts at the second character and ends with the twelfth, which is the seventh unit of its text; the
second has no end, and one remark says so -/
theorem bracketedPattern_ends :
    let s := bracketedPattern.chars
    let first := classPiece ⟨false, false⟩ 1 (s.drop 2)
    let second := classPiece ⟨false, false⟩ 13 (s.drop 14)
    (s[1]? = some '[' ∧ s[13]? = some '[') ∧
    (∃ before after, escapeUnits (s.drop 3) = before ++ [']'] :: after ∧ [']'] ∉ before ∧
      12 = 3 + before.flatten.length + 1 ∧ first.remarks.filter Diagnostic.saysUnterminated = []) ∧
    ((Reader.standing bracketedPattern 13).past second).pos = 17 ∧
    second.remarks.filter Diagnostic.saysUnterminated = [⟨13, "unterminated character class".toList, false⟩] := by
  intro s first second
  have hfirst : s[1]? = some '[' := by decide
  have hsecond : s[13]? = some '[' := by decide
  obtain ⟨-, -, hcloses⟩ := class_ends_at_first_free_bracket bracketedPattern (.standing bracketedPattern 1) rfl hfirst
  obtain ⟨-, -, hopen⟩ := class_ends_at_first_free_bracket bracketedPattern (.standing bracketedPattern 13) rfl hsecond
  have hbracket : [']'] ∈ escapeUnits (s.drop 3) := by decide
  have hnone : [']'] ∉ escapeUnits (s.drop 14) := by decide
  refine ⟨⟨hfirst, hsecond⟩, hcloses.resolve_right fun h => h.1 hbracket, ?_⟩
  rcases hopen with ⟨before, after, hunits, -⟩ | ⟨-, hend⟩
  · have hmem : [']'] ∈ escapeUnits (s.drop 14) := hunits ▸ by simp
    exact absurd hmem hnone
  · exact hend

end MatcherGen
