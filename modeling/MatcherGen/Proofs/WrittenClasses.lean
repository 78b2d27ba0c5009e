/-
A class reads back from its notation. Inside brackets a backslash takes away what a character means there, but for eleven
letters to which it gives a meaning: these stand bare. Members written that way come first, then the ranges, whose lower
ends are bare too, so that no hyphen of a range can be taken for one that follows a member.

Main statements:
- `classBody_writtenMember`, `classBody_writtenRange`: what is read from one member and from one range;
- `classBody_members`, `classBody_ranges`: what is read from all of them;
- `class_reads_back`: the class that is read from the notation of a class.
-/
import MatcherGen.Proofs.Classes
import MatcherGen.Proofs.Composition

namespace MatcherGen

/-! ## The notation of a class -/

/-- the letters that mean something after a backslash inside a class: control characters and shorthands -/
def escapeLetters : List Char := ['n', 't', 'r', 'f', 'v', 'd', 'D', 'w', 'W', 's', 'S']

/-- the characters that mean something inside a class -/
def classSigns : List Char := ['-', ']', '\\', '^']

/-- a member or the upper end of a range: after a backslash, unless that would mean something else -/
def writtenMember (c : Char) : List Char := if c ∈ escapeLetters then [c] else ['\\', c]

/-- a range; its lower end stands bare -/
def writtenRange (r : Char × Char) : List Char := r.1 :: '-' :: writtenMember r.2

/-- the members and ranges of a class, with the bracket that closes it -/
def writtenBody (singles : List Char) (ranges : List (Char × Char)) : List Char :=
  singles.flatMap writtenMember ++ (ranges.flatMap writtenRange ++ [']'])

/-- a class -/
def writtenClass (negated : Bool) (singles : List Char) (ranges : List (Char × Char)) : List Char :=
  '[' :: (if negated then '^' :: writtenBody singles ranges else writtenBody singles ranges)

/-- the class that is written -/
def CharClass.ofMembers (negated : Bool) (singles : List Char) (ranges : List (Char × Char)) : CharClass :=
  ⟨negated, singles.map fun c => (c.toNat : Int), ranges.map fun r => ⟨r.1.toNat, r.2.toNat⟩⟩

/-- the text starts with no hyphen, which would make a range of the member before it, and with no circumflex, which would
negate the class -/
def StartsPlainly (s : List Char) : Prop := ∀ c t, s = c :: t → c ≠ '-' ∧ c ≠ '^'

theorem StartsPlainly.ne_hyphen {s : List Char} (h : StartsPlainly s) (t : List Char) : s ≠ '-' :: t :=
  fun heq => (h _ _ heq).1 rfl

theorem startsPlainly_members (singles : List Char) {rest : List Char} (h : StartsPlainly rest) :
    StartsPlainly (singles.flatMap writtenMember ++ rest) := by
  cases singles with
  | nil => exact h
  | cons x singles =>
    intro c t heq
    rw [List.flatMap_cons, writtenMember] at heq
    split_ifs at heq with hx
    · obtain rfl := (List.cons.inj heq).1
      constructor <;> rintro rfl <;> exact absurd hx (by decide)
    · obtain rfl := (List.cons.inj heq).1
      decide

theorem startsPlainly_ranges {ranges : List (Char × Char)} (h : ∀ r ∈ ranges, r.1 ∉ classSigns) :
    StartsPlainly (ranges.flatMap writtenRange ++ [']']) := by
  intro c t heq
  cases ranges with
  | nil =>
    obtain rfl := (List.cons.inj heq).1
    decide
  | cons r ranges =>
    have hr := h r List.mem_cons_self
    obtain rfl := (List.cons.inj heq).1
    constructor <;> intro hc <;> exact hr (hc ▸ by decide)

/-! ## One member, one range -/

/-- the body with `k` characters more, by which the class becomes `c` -/
def ClassBody.grown (acc : ClassBody) (c : CharClass) (k : Nat) : ClassBody := { acc with cls := c, size := acc.size + k }

/-- any other character stands for itself after a backslash, without a remark -/
theorem classMember_of_not_escapeLetter {c : Char} (h : c ∉ escapeLetters) :
    classMember c = c ∧ ∀ pos, shorthandRemarks pos c = [] := by
  simp only [escapeLetters, List.mem_cons, List.not_mem_nil, or_false, not_or] at h
  constructor
  · unfold classMember controlEscape
    split <;> simp_all
  · simp [shorthandRemarks, isShorthand, h]

theorem escapeLetter_ne {c d : Char} (h : c ∈ escapeLetters) (hd : d ∉ escapeLetters) : c ≠ d := by
  rintro rfl
  exact hd h

theorem rangeRemarks_of_le {lo hi : Char} (h : lo.toNat ≤ hi.toNat) (pos : Nat) (text : List Char) :
    rangeRemarks pos lo hi text = [] := by
  have hord : ¬ hi < lo := fun hlt => absurd (UInt32.lt_iff_toNat_lt.1 hlt) (Nat.not_lt.2 h)
  exact if_neg hord

/-- **A written member is a member**, if no hyphen follows it. -/
theorem classBody_writtenMember (acc : ClassBody) (pos : Nat) (c : Char) {rest : List Char} (hrest : StartsPlainly rest) :
    classBody acc pos (writtenMember c ++ rest) =
      classBody (acc.grown (acc.cls.addSingle c.toNat) (writtenMember c).length) (pos + (writtenMember c).length) rest := by
  unfold writtenMember
  split_ifs with hc
  · exact classBody_single acc pos c rest (escapeLetter_ne hc (by decide)) (escapeLetter_ne hc (by decide))
      fun hi t => hrest.ne_hyphen (hi :: t)
  · obtain ⟨hmember, hremarks⟩ := classMember_of_not_escapeLetter hc
    simp [classBody, hmember, hremarks, ClassBody.grown]

/-- **A written range is a range**, whatever follows it. -/
theorem classBody_writtenRange (acc : ClassBody) (pos : Nat) {r : Char × Char} (hle : r.1.toNat ≤ r.2.toNat) (hlo : r.1 ∉ classSigns)
    (rest : List Char) :
    classBody acc pos (writtenRange r ++ rest) =
      classBody (acc.grown (acc.cls.addRange r.1.toNat r.2.toNat) (writtenRange r).length)
        (pos + (writtenRange r).length) rest := by
  obtain ⟨lo, hi⟩ := r
  have hne : ∀ d ∈ classSigns, lo ≠ d := fun d hd heq => hlo (heq ▸ hd)
  have hclose : lo ≠ ']' := hne _ (by decide)
  have hescape : lo ≠ '\\' := hne _ (by decide)
  unfold writtenRange writtenMember
  split_ifs with hc
  · have hrange := classBody_range acc pos lo hi rest hclose hescape (escapeLetter_ne hc (by decide))
      (escapeLetter_ne hc (by decide))
    rw [rangeRemarks_of_le hle, List.append_nil] at hrange
    exact hrange
  · obtain ⟨hmember, hremarks⟩ := classMember_of_not_escapeLetter hc
    simp [classBody, hmember, hremarks, rangeRemarks_of_le hle, ClassBody.grown]

/-! ## All members, all ranges -/

/-- **The members are read in order**, none of them twice. -/
theorem classBody_members (acc : ClassBody) (pos : Nat) (singles : List Char) {rest : List Char}
    (hnodup : (acc.cls.singles ++ singles.map fun c => (c.toNat : Int)).Nodup) (hrest : StartsPlainly rest) :
    classBody acc pos (singles.flatMap writtenMember ++ rest) =
      classBody
        (acc.grown { acc.cls with singles := acc.cls.singles ++ singles.map fun c => (c.toNat : Int) }
          (singles.flatMap writtenMember).length)
        (pos + (singles.flatMap writtenMember).length) rest := by
  induction singles generalizing acc pos with
  | nil => simp [ClassBody.grown]
  | cons c singles ih =>
    have hnew : (c.toNat : Int) ∉ acc.cls.singles := by
      intro hmem
      exact (List.nodup_append.1 hnodup).2.2 _ hmem _ List.mem_cons_self rfl
    have hadd : acc.cls.addSingle c.toNat = { acc.cls with singles := acc.cls.singles ++ [(c.toNat : Int)] } := if_neg hnew
    rw [List.flatMap_cons, List.append_assoc, classBody_writtenMember acc pos c (startsPlainly_members singles hrest), ih]
    · simp [ClassBody.grown, hadd, Nat.add_assoc]
    · simpa [ClassBody.grown, hadd] using hnodup

/-- **The ranges are read in order.** -/
theorem classBody_ranges (acc : ClassBody) (pos : Nat) {ranges : List (Char × Char)} (hle : ∀ r ∈ ranges, r.1.toNat ≤ r.2.toNat)
    (hlo : ∀ r ∈ ranges, r.1 ∉ classSigns) (rest : List Char) :
    classBody acc pos (ranges.flatMap writtenRange ++ rest) =
      classBody
        (acc.grown { acc.cls with ranges := acc.cls.ranges ++ ranges.map fun r => ⟨r.1.toNat, r.2.toNat⟩ }
          (ranges.flatMap writtenRange).length)
        (pos + (ranges.flatMap writtenRange).length) rest := by
  induction ranges generalizing acc pos with
  | nil => simp [ClassBody.grown]
  | cons r ranges ih =>
    obtain ⟨hler, hle⟩ := List.forall_mem_cons.1 hle
    obtain ⟨hlor, hlo⟩ := List.forall_mem_cons.1 hlo
    rw [List.flatMap_cons, List.append_assoc, classBody_writtenRange acc pos hler hlor, ih _ _ hle hlo]
    simp [ClassBody.grown, CharClass.addRange, Nat.add_assoc]

/-! ## The whole class -/

/-- the last piece of a pattern is followed by no quantifier -/
theorem Reader.addPiece_last {r : Reader} {p : Piece} (h : r.rest.drop p.size = []) :
    r.addPiece p = ⟨r.pos + p.size, [], p.flags, r.remarks ++ p.remarks, r.opened, r.here.push [p.node]⟩ := by
  simp [addPiece, addAtom, advance, h, suffix]

section

variable {singles : List Char} {ranges : List (Char × Char)}

theorem classBody_writtenBody (negated : Bool) (hnodup : singles.Nodup) (hle : ∀ r ∈ ranges, r.1.toNat ≤ r.2.toNat)
    (hlo : ∀ r ∈ ranges, r.1 ∉ classSigns) (size pos : Nat) :
    classBody ⟨⟨negated, [], []⟩, [], size, false⟩ pos (writtenBody singles ranges) =
      ⟨.ofMembers negated singles ranges, [], size + (writtenBody singles ranges).length, true⟩ := by
  have hcodes : (singles.map fun c => (c.toNat : Int)).Nodup :=
    hnodup.map fun a b hab => Char.toNat_inj.1 (Int.ofNat_inj.1 hab)
  rw [writtenBody, classBody_members _ _ singles (by simpa using hcodes) (startsPlainly_ranges hlo),
    classBody_ranges _ _ hle hlo, classBody]
  simp [ClassBody.grown, CharClass.ofMembers, Nat.add_assoc]

theorem classPiece_written (flags : Flags) (pos : Nat) (negated : Bool) (hnodup : singles.Nodup)
    (hle : ∀ r ∈ ranges, r.1.toNat ≤ r.2.toNat) (hlo : ∀ r ∈ ranges, r.1 ∉ classSigns) :
    classPiece flags pos (writtenClass negated singles ranges).tail =
      ⟨.cls (.ofMembers negated singles ranges), [], flags, (writtenClass negated singles ranges).length⟩ := by
  have hplain : StartsPlainly (writtenBody singles ranges) := startsPlainly_members singles (startsPlainly_ranges hlo)
  cases negated with
  | true =>
    show classPiece flags pos ('^' :: writtenBody singles ranges) = _
    rw [classPiece_negated, classBody_writtenBody true hnodup hle hlo, Nat.add_comm 2]
    rfl
  | false =>
    show classPiece flags pos (writtenBody singles ranges) = _
    rw [classPiece_plain flags pos fun t heq => (hplain _ _ heq).2 rfl, classBody_writtenBody false hnodup hle hlo,
      Nat.add_comm 1]
    rfl

/-- **A class reads back from its notation.** For every list of different members and every list of ranges whose ends are in
order and whose lower ends mean nothing inside a class: written down, negated or not, they are read to the end, without
remarks, as a sequence of one class, which has exactly these members and ranges in this order. -/
theorem class_reads_back (negated : Bool) (hnodup : singles.Nodup) (hle : ∀ r ∈ ranges, r.1.toNat ≤ r.2.toNat)
    (hlo : ∀ r ∈ ranges, r.1 ∉ classSigns) :
    let reading := Reading.ofPattern (.ofChars (writtenClass negated singles ranges))
    reading.complete = true ∧ reading.diagnostics = [] ∧
      reading.root = .seq [.cls ⟨negated, singles.map fun c => c.toNat, ranges.map fun r => ⟨r.1.toNat, r.2.toNat⟩⟩] := by
  intro reading
  let text := writtenClass negated singles ranges
  have hpiece := classPiece_written ⟨false, false⟩ 0 negated hnodup hle hlo
  have hstep : Reader.Step (Reader.start text) ((Reader.start text).addPiece
      ⟨.cls (.ofMembers negated singles ranges), [], ⟨false, false⟩, text.length⟩) := by
    have hatom := Reader.Step.atom '[' text.tail (r := Reader.start text) rfl (by decide) (by decide) (by decide)
    rw [← hpiece]
    exact hatom
  rw [Reader.addPiece_last (List.drop_length)] at hstep
  have hfinishes : Reader.Finishes text _ := ⟨.single hstep, rfl, rfl, rfl⟩
  rw [← Text.chars_ofChars text] at hfinishes
  have hreads := hfinishes.readsAs
  exact ⟨hreads.complete, hreads.diagnostics, hreads.root⟩

end

/-- the signs of a class, a control character with its letter, and the letter of a shorthand -/
def awkwardMembers : List Char := ['^', 'n', '\n', '-', ']', '\\', 'd']

/-- ranges up to signs and up to letters of escapes -/
def awkwardRanges : List (Char × Char) := [('+', '-'), ('[', '\\'), ('a', 'n'), ('d', 'd')]

/-- all of them in one negated class -/
theorem awkwardMembers_read_back :
    awkwardMembers.Nodup ∧ (∀ r ∈ awkwardRanges, r.1.toNat ≤ r.2.toNat) ∧ (∀ r ∈ awkwardRanges, r.1 ∉ classSigns) ∧
    writtenClass true awkwardMembers awkwardRanges = "[^\\^n\\\n\\-\\]\\\\d+-\\-[-\\\\a-nd-d]".toList ∧
    let reading := Reading.ofPattern (.ofChars (writtenClass true awkwardMembers awkwardRanges))
    reading.complete = true ∧ reading.diagnostics = [] ∧
      reading.root = .seq [.cls ⟨true, [94, 110, 10, 45, 93, 92, 100], [⟨43, 45⟩, ⟨91, 92⟩, ⟨97, 110⟩, ⟨100, 100⟩]⟩] := by
  have hnodup : awkwardMembers.Nodup := by decide
  have hle : ∀ r ∈ awkwardRanges, r.1.toNat ≤ r.2.toNat := by simp [awkwardRanges]
  have hlo : ∀ r ∈ awkwardRanges, r.1 ∉ classSigns := by simp [awkwardRanges, classSigns]
  exact ⟨hnodup, hle, hlo, rfl, class_reads_back true hnodup hle hlo⟩

end MatcherGen
