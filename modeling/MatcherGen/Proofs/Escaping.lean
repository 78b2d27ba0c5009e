/-
Escaped text reads back as itself. A backslash before every special character takes away its meaning: the pattern reads
as literals, one for each special character and one for each longest run of the others, and together they spell the text.

Main statements:
- `literalParts_kind`, `literalParts_maximal`: the parts of a text are special characters and longest runs of the others;
- `Reader.step_special`, `Reader.step_plainRun`: the step of the reader over each kind of part;
- `Reader.steps_parts`: the run over all parts;
- `escaped_text_reads_back`: what is read, and its shortest match.
-/
import Mathlib.Data.List.SplitBy
import MatcherGen.Pattern.Analysis
import MatcherGen.Proofs.Composition
import MatcherGen.Proofs.WellFormed

namespace MatcherGen

/-! ## Escaping -/

/-- the characters that mean something in a pattern -/
def specialChars : List Char := ['^', '$', '.', '*', '+', '?', '(', ')', '[', ']', '{', '}', '\\', '|']

/-- a backslash before every special character -/
def escaped (s : List Char) : List Char := s.flatMap fun c => if c ∈ specialChars then ['\\', c] else [c]

/-- a backslash before every special character; a stray byte reads as none of them -/
def Text.escaped (t : Text) : Text := t.flatMap fun g => if g.char ∈ specialChars then [.scalar '\\', g] else [g]

theorem Text.chars_escaped (t : Text) : t.escaped.chars = MatcherGen.escaped t.chars := by
  unfold Text.escaped MatcherGen.escaped Text.chars
  rw [List.map_flatMap, List.flatMap_map]
  congr 1
  funext g
  split <;> rfl

theorem isMeta_iff {c : Char} : isMeta c = true ↔ c ∈ specialChars := decide_eq_true_iff

theorem isMeta_eq_false_iff {c : Char} : isMeta c = false ↔ c ∉ specialChars := decide_eq_false_iff_not

theorem escaped_append (s t : List Char) : escaped (s ++ t) = escaped s ++ escaped t := List.flatMap_append

theorem escaped_special {c : Char} (h : c ∈ specialChars) : escaped [c] = ['\\', c] := by simp [escaped, h]

theorem escaped_run {s : List Char} (h : ∀ c ∈ s, c ∉ specialChars) : escaped s = s := by
  induction s with
  | nil => rfl
  | cons c r ih =>
    have hc : c ∉ specialChars := h c List.mem_cons_self
    have hr : escaped r = r := ih fun d hd => h d (List.mem_cons_of_mem c hd)
    calc escaped (c :: r) = (if c ∈ specialChars then ['\\', c] else [c]) ++ escaped r := rfl
      _ = c :: r := by rw [if_neg hc, hr, List.singleton_append]

/-- escaped text never starts like a quantifier, so it binds to nothing before it -/
theorem suffix_escaped (s : List Char) : suffix (escaped s) = .none := by
  rw [suffix_none_iff]
  intro c t heq
  cases s with
  | nil => exact absurd heq (by simp [escaped])
  | cons x r =>
    have hcons : escaped (x :: r) = (if x ∈ specialChars then ['\\', x] else [x]) ++ escaped r := rfl
    rw [hcons] at heq
    split_ifs at heq with hx
    · obtain rfl := (List.cons.inj heq).1
      rfl
    · obtain rfl := (List.cons.inj heq).1
      rw [← Bool.not_eq_true]
      exact fun hq => hx (isMeta_iff.1 (isQuantifierStart_isMeta hq))

/-! ## The parts of a text -/

/-- a special character on its own -/
def IsSpecial (p : List Char) : Prop := ∃ c ∈ specialChars, p = [c]

/-- some characters, none of them special -/
def IsPlainRun (p : List Char) : Prop := p ≠ [] ∧ ∀ c ∈ p, c ∉ specialChars

/-- the text cut before and after every special character -/
def literalParts (s : List Char) : List (List Char) := s.splitBy fun a b => a ∉ specialChars && b ∉ specialChars

theorem literalParts_flatten (s : List Char) : (literalParts s).flatten = s := List.flatten_splitBy _ s

/-- from a character that is not special on, neighbours that belong together are not special either -/
theorem not_special_of_isChain {c : Char} {r : List Char} (hc : c ∉ specialChars)
    (h : (c :: r).IsChain fun a b => (a ∉ specialChars && b ∉ specialChars) = true) : ∀ d ∈ c :: r, d ∉ specialChars := by
  induction r generalizing c with
  | nil => simpa using hc
  | cons b r ih =>
    obtain ⟨hpair, hrest⟩ := List.isChain_cons_cons.1 h
    have hb : b ∉ specialChars := by simpa [hc] using hpair
    exact List.forall_mem_cons.2 ⟨hc, ih hb hrest⟩

theorem literalParts_kind (s : List Char) : ∀ p ∈ literalParts s, IsSpecial p ∨ IsPlainRun p := by
  intro p hp
  have hne : p ≠ [] := List.ne_nil_of_mem_splitBy hp
  have hchain := List.isChain_of_mem_splitBy hp
  cases p with
  | nil => exact absurd rfl hne
  | cons c r =>
    by_cases hc : c ∈ specialChars
    · left
      cases r with
      | nil => exact ⟨c, hc, rfl⟩
      | cons d r => simp [hc] at hchain
    · right
      exact ⟨hne, not_special_of_isChain hc hchain⟩

/-- **The runs are longest**: no two of them are neighbours. -/
theorem literalParts_maximal (s : List Char) :
    (literalParts s).IsChain fun p q => ¬ (IsPlainRun p ∧ IsPlainRun q) := by
  refine (List.isChain_getLast_head_splitBy _ s).imp ?_
  rintro p q ⟨hp, hq, hcut⟩ ⟨hprun, hqrun⟩
  have hlast := hprun.2 _ (List.getLast_mem hp)
  have hhead := hqrun.2 _ (List.head_mem hq)
  simp [hlast, hhead] at hcut

namespace Reader

/-! ## Steps -/

/-- a literal that no quantifier follows is one more factor -/
theorem addPiece_lit {r : Reader} {text : List Char} {size : Nat} (h : suffix (r.rest.drop size) = .none) :
    r.addPiece (.plain r.flags (.lit text r.flags.fold) size) =
      { r with here := r.here.push [.lit text r.flags.fold] }.advance size := by
  have hsuffix : suffix (({ r with remarks := r.remarks ++ [] }.advance size).rest) = .none := h
  unfold addPiece addAtom Piece.plain
  rw [hsuffix]
  simp [advance]

/-- an escaped special character is a literal -/
theorem step_special {r : Reader} {c : Char} (hc : c ∈ specialChars) {post : List Char}
    (hr : r.rest = '\\' :: c :: escaped post) :
    Step r ({ r with here := r.here.push [.lit [c] r.flags.fold] }.advance 2) := by
  have hpiece : atomPiece r.flags r.pos '\\' (c :: escaped post) = .plain r.flags (.lit [c] r.flags.fold) 2 := by
    simp only [specialChars, List.mem_cons, List.not_mem_nil, or_false] at hc
    rcases hc with rfl | rfl | rfl | rfl | rfl | rfl | rfl | rfl | rfl | rfl | rfl | rfl | rfl | rfl <;> rfl
  have hstep := Step.atom '\\' (c :: escaped post) hr (by decide) (by decide) (by decide)
  rw [hpiece, addPiece_lit] at hstep
  · exact hstep
  · rw [hr]
    exact suffix_escaped post

/-- a character that is not special starts a literal run -/
theorem atomPiece_run (flags : Flags) (pos : Nat) {c : Char} (hc : c ∉ specialChars) (s : List Char) :
    atomPiece flags pos c s =
      .plain flags (.lit ((c :: s).take (runSize (c :: s))) flags.fold) (runSize (c :: s)) := by
  simp only [specialChars, List.mem_cons, List.not_mem_nil, or_false, not_or] at hc
  simp [atomPiece, hc]

/-- a run of other characters is a literal, up to the next backslash or the end -/
theorem step_plainRun {r : Reader} {run : List Char} (hrun : IsPlainRun run) {post : List Char}
    (hpost : escaped post = [] ∨ ∃ t, escaped post = '\\' :: t) (hr : r.rest = run ++ escaped post) :
    Step r ({ r with here := r.here.push [.lit run r.flags.fold] }.advance run.length) := by
  obtain ⟨hne, hplain⟩ := hrun
  have hmeta : ∀ c ∈ run, isMeta c = false := fun c hc => isMeta_eq_false_iff.2 (hplain c hc)
  have hsize : runSize (run ++ escaped post) = run.length := by
    rcases hpost with hend | ⟨t, ht⟩
    · rw [hend, List.append_nil, runSize_at_end hmeta]
    · rw [ht, runSize_at_meta hmeta rfl]
      simp [isQuantifierStart]
  cases run with
  | nil => exact absurd rfl hne
  | cons c s =>
    have hc : c ∉ specialChars := hplain c List.mem_cons_self
    have hpiece : atomPiece r.flags r.pos c (s ++ escaped post) =
        .plain r.flags (.lit (c :: s) r.flags.fold) (c :: s).length := by
      rw [atomPiece_run r.flags r.pos hc, ← List.cons_append, hsize, List.take_left]
    have hstep := Step.atom c (s ++ escaped post) hr (by rintro rfl; exact hc (by decide))
      (by rintro rfl; exact hc (by decide)) (by rintro rfl; exact hc (by decide))
    rw [hpiece, addPiece_lit] at hstep
    · exact hstep
    · rw [hr, List.drop_left]
      exact suffix_escaped post

/-! ## Runs -/

/-- after a run comes the end, or the backslash of a special character -/
theorem escaped_after_run {p : List Char} {parts : List (List Char)} (hp : IsPlainRun p)
    (hkind : ∀ q ∈ parts, IsSpecial q ∨ IsPlainRun q)
    (hchain : (p :: parts).IsChain fun p q => ¬ (IsPlainRun p ∧ IsPlainRun q)) :
    escaped parts.flatten = [] ∨ ∃ t, escaped parts.flatten = '\\' :: t := by
  cases parts with
  | nil => exact .inl rfl
  | cons q parts =>
    have hnot := (List.isChain_cons_cons.1 hchain).1
    obtain ⟨c, hc, rfl⟩ := (hkind q List.mem_cons_self).resolve_right fun hq => hnot ⟨hp, hq⟩
    refine .inr ⟨c :: escaped parts.flatten, ?_⟩
    rw [List.flatten_cons, escaped_append, escaped_special hc]
    rfl

/-- **The reader takes the parts one by one**: every part adds a literal, and nothing else changes. -/
theorem steps_parts {parts : List (List Char)} (hkind : ∀ p ∈ parts, IsSpecial p ∨ IsPlainRun p)
    (hchain : parts.IsChain fun p q => ¬ (IsPlainRun p ∧ IsPlainRun q)) (r : Reader)
    (hr : r.rest = escaped parts.flatten) :
    ∃ r', Relation.ReflTransGen Step r r' ∧ r'.rest = [] ∧ r'.flags = r.flags ∧ r'.remarks = r.remarks ∧
      r'.opened = r.opened ∧ r'.here = r.here.push (parts.map (.lit · r.flags.fold)) := by
  induction parts generalizing r with
  | nil => exact ⟨r, .refl, hr, rfl, rfl, rfl, by simp [Branches.push]⟩
  | cons p parts ih =>
    have hrest : ∀ q ∈ parts, IsSpecial q ∨ IsPlainRun q := fun q hq => hkind q (List.mem_cons_of_mem p hq)
    rw [List.flatten_cons, escaped_append] at hr
    -- one step takes the whole part
    have hstep : Step r ({ r with here := r.here.push [.lit p r.flags.fold] }.advance (escaped p).length) := by
      rcases hkind p List.mem_cons_self with ⟨c, hc, rfl⟩ | hrun
      · rw [escaped_special hc] at hr ⊢
        exact step_special hc hr
      · rw [escaped_run hrun.2] at hr ⊢
        exact step_plainRun hrun (escaped_after_run hrun hrest hchain) hr
    have hleft : ({ r with here := r.here.push [.lit p r.flags.fold] }.advance (escaped p).length).rest =
        escaped parts.flatten := by
      simp [advance, hr]
    obtain ⟨r', hsteps, hend, hflags, hclean, hopened, hhere⟩ := ih hrest hchain.tail _ hleft
    refine ⟨r', hsteps.head hstep, hend, hflags, hclean, hopened, hhere.trans ?_⟩
    simp [advance, Branches.push]

end Reader

/-! ## Lengths -/

theorem minLengthSum_lits (parts : List (List Char)) (n : Nat) :
    Node.minLengthSum (Int64.ofNat n) (parts.map (.lit · false)) = Int64.ofNat (n + parts.flatten.length) := by
  induction parts generalizing n with
  | nil => rfl
  | cons p parts ih =>
    have hadd : Int64.ofNat n + Int64.ofNat p.length = Int64.ofNat (n + p.length) := (Int64.ofNat_add _ _).symm
    rw [List.map_cons, Node.minLengthSum, Node.minLength, hadd, ih, List.flatten_cons, List.length_append, Nat.add_assoc]

/-- **Escaped text reads back as itself.** For every text: with a backslash before each special character it is read to its
end, without remarks and with no switch on, as a sequence of literals that fold no case. They spell the parts of the text
in order: one for each special character and one for each longest run of the others, and together they are the text. The
shortest match is as long as the text. -/
theorem escaped_text_reads_back (t : Text) :
    let reading := Reading.ofPattern t.escaped
    let parts := literalParts t.chars
    (reading.complete = true ∧ reading.diagnostics = [] ∧ reading.flags = ⟨false, false⟩ ∧
      reading.root = .seq (parts.map (.lit · false))) ∧
    (parts.flatten = t.chars ∧ (∀ p ∈ parts, IsSpecial p ∨ IsPlainRun p) ∧
      parts.IsChain fun p q => ¬ (IsPlainRun p ∧ IsPlainRun q)) ∧
    reading.root.analysis.minLength = Int64.ofNat t.chars.length ∧
    (t.chars.length < 2 ^ 63 → reading.root.analysis.minLength.toInt = t.chars.length) := by
  intro reading parts
  have hrest : (Reader.start t.escaped.chars).rest = escaped parts.flatten := by
    rw [literalParts_flatten, ← Text.chars_escaped]
    rfl
  obtain ⟨r, hsteps, hend, hflags, hclean, hopened, hhere⟩ :=
    Reader.steps_parts (literalParts_kind t.chars) (literalParts_maximal t.chars) _ hrest
  have hfinishes : Reader.Finishes t.escaped.chars r := ⟨hsteps, hend, hopened, hclean⟩
  have hreads := hfinishes.readsAs
  have hroot : reading.root = .seq (parts.map (.lit · false)) := by
    rw [hreads.root, hhere]
    rfl
  have hlength : reading.root.analysis.minLength = Int64.ofNat t.chars.length := by
    have hsum := minLengthSum_lits parts 0
    rw [literalParts_flatten, Nat.zero_add] at hsum
    rw [hroot]
    exact hsum
  refine ⟨⟨hreads.complete, hreads.diagnostics, hreads.flags.trans hflags, hroot⟩,
    ⟨literalParts_flatten t.chars, literalParts_kind t.chars, literalParts_maximal t.chars⟩, hlength, fun hlt => ?_⟩
  rw [hlength]
  exact Int64.toInt_ofNat_of_lt hlt

/-- special characters, a NUL, a byte that is no character, and a letter that a backslash would turn into a class -/
def mixedText : Text := [.scalar 'd', .scalar '+', .scalar '\x00', .stray 0xff, .scalar '\\', .scalar '.']

/-- five literals; the NUL and what the stray byte reads as are one run -/
theorem mixedText_reads_back :
    mixedText.escaped.chars = ['d', '\\', '+', '\x00', replacementChar, '\\', '\\', '\\', '.'] ∧
    mixedText.chars.length < 2 ^ 63 ∧
    (Reading.ofPattern mixedText.escaped).root = .seq [.lit ['d'] false, .lit ['+'] false,
      .lit ['\x00', replacementChar] false, .lit ['\\'] false, .lit ['.'] false] ∧
    (Reading.ofPattern mixedText.escaped).root.analysis.minLength.toInt = 6 := by
  have hlt : mixedText.chars.length < 2 ^ 63 := by decide
  obtain ⟨⟨-, -, -, hroot⟩, -, -, hlength⟩ := escaped_text_reads_back mixedText
  exact ⟨rfl, hlt, hroot, hlength hlt⟩

end MatcherGen
