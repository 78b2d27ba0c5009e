/-
Comments stay on their line. The text of a pattern comes into the header and the documentation of a matcher, into the notes
at its top and into the comments of stubs; on each of these ways line breaks are spelled out or quoted, and what stands in
front of the text is a word of the program. So no comment ends before its line does, none starts with a mark of its own, and
the text of a pattern never becomes code.

Main statements:
- `commentText_unbroken`, `commentText_no_end`: what text made for comments does not hold;
- `Session.comments_worded`: every comment starts with a word and has no line breaks;
- `docLines_worded`: comments that start with a word stay one line each when they are set as documentation;
- `comments_stay_on_one_line`: both together.
-/
import MatcherGen.Proofs.Bytes
import MatcherGen.Proofs.Lines
import MatcherGen.Proofs.Translation

namespace MatcherGen

/-! ## Text made for comments -/

/-- **Text made for comments has no line breaks.** -/
theorem commentText_unbroken (t : Text) : (commentText t).Unbroken := by
  fun_induction commentText t with
  | case1 => exact ⟨List.not_mem_nil, List.not_mem_nil⟩
  | case2 r ih => exact Text.Unbroken.append (s := [.scalar '\\', .scalar 'n']) ⟨by decide, by decide⟩ ih
  | case3 r ih => exact Text.Unbroken.append (s := [.scalar '\\', .scalar 'r']) ⟨by decide, by decide⟩ ih
  | case4 r ih => exact Text.Unbroken.append (s := [.scalar '*', .scalar '\\', .scalar '/']) ⟨by decide, by decide⟩ ih
  | case5 g r hfeed hback _ ih =>
    exact Text.Unbroken.append (s := [g]) ⟨by simpa using Ne.symm hfeed, by simpa using Ne.symm hback⟩ ih

/-- only a slash becomes a slash at the front -/
theorem head_commentText {t : Text} (h : (commentText t).head? = some (.scalar '/')) : t.head? = some (.scalar '/') := by
  revert h
  fun_cases commentText t with
  | case1 => simp
  | case2 r => simp
  | case3 r => simp
  | case4 r => simp
  | case5 g r _ _ _ => simp

/-- **Text made for comments does not end one.** A star that ends one replacement and a slash that starts the next would do
so; but a slash stays a slash only if it was one, and then the star before it was replaced together with it. -/
theorem commentText_no_end (t : Text) : ¬ [.scalar '*', .scalar '/'] <:+: commentText t := by
  fun_induction commentText t with
  | case1 => simp
  | case2 r ih => simpa [List.infix_cons_iff] using ih
  | case3 r ih => simpa [List.infix_cons_iff] using ih
  | case4 r ih => simpa [List.infix_cons_iff] using ih
  | case5 g r hfeed hback hend ih =>
    rw [List.infix_cons_iff]
    rintro (hfront | hlater)
    · obtain ⟨rfl, hnext⟩ := List.cons_prefix_cons.1 hfront
      obtain ⟨rest, hrest⟩ := hnext
      have hslash := head_commentText (t := r) (by rw [← hrest]; rfl)
      obtain ⟨r', rfl⟩ := List.head?_eq_some_iff.1 hslash
      exact hend r' rfl rfl
    · exact ih hlater

/-- what must not occur in a comment: line breaks and the end of a comment -/
def commentBreaks : List String := ["\n", "\r", "*/"]

theorem commentBreaks_ascii : ∀ w ∈ commentBreaks, ∀ c ∈ w.toList, c.toNat < 0x80 := by
  have hall : (commentBreaks.all fun w => w.toList.all fun c => decide (c.toNat < 0x80)) = true := by decide
  intro w hw c hc
  exact of_decide_eq_true (List.all_eq_true.1 (List.all_eq_true.1 hall w hw) c hc)

theorem not_occurs_commentText (t : Text) : ∀ w ∈ commentBreaks, ¬ Text.ofString w <:+: commentText t := by
  have hone : ∀ c : Char, .scalar c ∉ commentText t → ¬ Text.ofChars [c] <:+: commentText t :=
    fun c hc hoccurs => hc (hoccurs.subset List.mem_cons_self)
  intro w hw
  simp only [commentBreaks, List.mem_cons, List.not_mem_nil, or_false] at hw
  rcases hw with rfl | rfl | rfl
  · exact hone '\n' (commentText_unbroken t).feed
  · exact hone '\r' (commentText_unbroken t).back
  · exact commentText_no_end t

theorem commentText_straysHigh {t : Text} (h : t.StraysHigh) : (commentText t).StraysHigh := by
  have hsubset : ∀ b : UInt8, .stray b ∈ commentText t → .stray b ∈ t := by
    intro b
    fun_induction commentText t with
    | case1 => exact id
    | case2 r ih | case3 r ih | case4 r ih => simpa using ih (fun b hb => h b (by simp [hb]))
    | case5 g r _ _ _ ih =>
      intro hb
      rcases List.mem_cons.1 hb with rfl | hb
      · exact List.mem_cons_self
      · exact List.mem_cons_of_mem g (ih (fun b hb => h b (List.mem_cons_of_mem g hb)) hb)
  exact fun b hb => h b (hsubset b hb)

/-! ## Words in front -/

/-- the text starts with a letter -/
def LetterFirst (s : List Char) : Prop := ∃ c r, s = c :: r ∧ isAsciiLetter c = true

theorem LetterFirst.append {s : List Char} (h : LetterFirst s) (t : List Char) : LetterFirst (s ++ t) := by
  obtain ⟨c, r, rfl, hc⟩ := h
  exact ⟨c, r ++ t, rfl, hc⟩

theorem LetterFirst.wording {w : String} (h : w.toList.head?.any isAsciiLetter = true) : LetterFirst w.toList := by
  cases hw : w.toList with
  | nil => exact absurd h (by simp [hw])
  | cons c r => exact ⟨c, r, rfl, by simpa [hw] using h⟩

/-- a comment that starts with a letter and has no line breaks -/
structure Text.Worded (t : Text) : Prop where
  letter : LetterFirst t.chars
  unbroken : t.Unbroken

theorem Text.Worded.append {s t : Text} (hs : s.Worded) (ht : t.Unbroken) : Worded (s ++ t) where
  letter := by
    rw [chars_append]
    exact hs.letter.append t.chars
  unbroken := hs.unbroken.append ht

theorem Text.Worded.wording {w : String} (hletter : w.toList.head?.any isAsciiLetter = true)
    (hprintable : w.toList.all isPrintable = true) : (Text.ofString w).Worded where
  letter := by
    rw [Text.ofString, chars_ofChars]
    exact .wording hletter
  unbroken := .wording hprintable

/-- a word stays in front of text made for comments -/
theorem commentText_worded {s : List Char} (h : LetterFirst s) : (commentText (Text.ofChars s)).Worded where
  letter := by
    obtain ⟨c, r, rfl, hc⟩ := h
    have hfeed : c ≠ '\n' := by rintro rfl; exact absurd hc (by decide)
    have hback : c ≠ '\r' := by rintro rfl; exact absurd hc (by decide)
    have hstar : c ≠ '*' := by rintro rfl; exact absurd hc (by decide)
    refine ⟨c, (commentText (Text.ofChars r)).chars, ?_, hc⟩
    change (commentText (.scalar c :: Text.ofChars r)).chars = _
    rw [commentText]
    · rfl
    all_goals simp [hfeed, hback, hstar]
  unbroken := commentText_unbroken _

/-- **Messages start with a word.** -/
theorem Problem.message_letterFirst (p : Problem) : LetterFirst p.message := by
  have hafter : ∀ {w : String} (text : List Char), w.toList.head?.any isAsciiLetter = true →
      LetterFirst (w.toList ++ text) := fun text hw => (LetterFirst.wording hw).append text
  cases p with
  | danglingEscape => exact .wording (by decide)
  | unterminatedGroup => exact .wording (by decide)
  | unterminatedClass => exact .wording (by decide)
  | nothingToRepeat c => exact (hafter [c] (by decide)).append _
  | literalShorthand letter => exact (hafter [letter] (by decide)).append _
  | lookaround kind text => exact ((hafter kind.label.toList (by decide)).append _).append _
  | inlineFlag c text => exact ((hafter (quotedCode c.toNat) (by decide)).append _).append _
  | malformedQuantifier text | wordBoundary text | propertyClass text | namedBackreference text | backreference text
  | groupName text | scopedFlags text | groupForm text | flagNegation text | invertedRange text =>
    exact hafter text (by decide)

/-! ## The comments of a matcher -/

/-- the text of a mark that is a comment -/
def Mark.text? : Mark → Option Text
  | .note text => some text
  | .call _ => none

/-- the comments of a matcher: its header, its documentation, its notes and those of its body -/
def Session.comments (s : Session) : List Text :=
  s.part.header :: s.part.doc :: s.part.notes ++ (Block.marks s.part.body).filterMap Mark.text?

/-- the notes at the top start with a word and have no line breaks -/
theorem Reading.notes_worded (pattern : Text) (nested : Bool) :
    ∀ t ∈ (Reading.ofPattern pattern).notes nested, t.Worded := by
  intro t ht
  simp only [Reading.notes, List.mem_append] at ht
  rcases ht with (hleft | hremark) | hwarning
  · -- input left over is quoted
    split_ifs at hleft
    · exact absurd hleft List.not_mem_nil
    · rw [List.mem_singleton.1 hleft]
      have hquoted : MadeOf [] (quoted (Reading.ofPattern pattern).leftover) :=
        fun c hc => Or.inl (quoted_printable _ c hc)
      have hmade := (((MadeOf.wording (w := "unconsumed input at offset ") (by decide)).append
        (decimal_madeOf [] (Reading.ofPattern pattern).offset)).append (.wording (w := ": ") (by decide))).append hquoted
      refine ⟨?_, .printable hmade⟩
      rw [Text.chars_ofChars]
      exact (((LetterFirst.wording (by decide)).append _).append _).append _
  · -- a remark starts with its offset
    obtain ⟨d, -, rfl⟩ := List.mem_map.1 hremark
    exact commentText_worded ((((LetterFirst.wording (by decide)).append _).append _).append _)
  · split_ifs at hwarning
    · rw [List.mem_singleton.1 hwarning]
      exact .wording (by decide) (by decide)
    · exact absurd hwarning List.not_mem_nil

/-- **Every comment of a matcher starts with a word and has no line breaks.** -/
theorem Session.comments_worded (o : Options) :
    ∀ t ∈ (Session.start o (Reading.ofPattern o.pattern)).comments, t.Worded := by
  have hshown : ∀ w : String, w.toList.head?.any isAsciiLetter = true → w.toList.all isPrintable = true →
      ∀ e : String, e.toList.all isPrintable = true →
      (Text.ofString w ++ commentText o.pattern ++ Text.ofString e).Worded := by
    intro w hletter hw e he
    exact ((Text.Worded.wording hletter hw).append (commentText_unbroken _)).append (.wording he)
  intro t ht
  rcases List.mem_append.1 ht with hfile | hbody
  · rcases List.mem_cons.1 hfile with rfl | hfile
    · exact hshown _ (by decide) (by decide) _ (by decide)
    rcases List.mem_cons.1 hfile with rfl | hnote
    · exact hshown _ (by decide) (by decide) _ (by decide)
    · exact Reading.notes_worded o.pattern _ t hnote
  · obtain ⟨mark, hmark, htext⟩ := List.mem_filterMap.1 hbody
    cases mark with
    | call m => exact absurd htext (by simp [Mark.text?])
    | note text =>
      obtain rfl := Option.some.inj htext
      obtain ⟨m, hm, rfl⟩ := Session.body_says_stubs o hmark
      obtain ⟨d, hd, rfl⟩ := Reading.exists_remark o.pattern m hm
      obtain ⟨p, pos, rfl, -⟩ := Reading.diagnostics_quote o.pattern d hd
      exact commentText_worded p.message_letterFirst

/-! ## Comments as lines -/

theorem LetterFirst.ne_nil {s : List Char} (h : LetterFirst s) : s ≠ [] := by
  obtain ⟨c, r, rfl, -⟩ := h
  exact List.cons_ne_nil c r

theorem LetterFirst.head_ne {s : List Char} (h : LetterFirst s) {x : Char} (hx : isAsciiLetter x = false) :
    s.head? ≠ some x := by
  obtain ⟨c, r, rfl, hc⟩ := h
  rintro ⟨⟩
  rw [hx] at hc
  exact absurd hc (by simp)

/-- letters are not blank -/
theorem LetterFirst.not_blank {s : List Char} (h : LetterFirst s) : s.all isBlank = false := by
  obtain ⟨c, r, rfl, hc⟩ := h
  have hc' : ('a' ≤ c ∧ c ≤ 'z') ∨ ('A' ≤ c ∧ c ≤ 'Z') := by simpa [isAsciiLetter] using hc
  have hrange : 0x41 ≤ c.toNat ∧ c.toNat ≤ 0x7a := by
    rcases hc' with ⟨hlo, hhi⟩ | ⟨hlo, hhi⟩
    · exact ⟨le_trans (by decide) (show 'a'.toNat ≤ c.toNat from hlo), show c.toNat ≤ 'z'.toNat from hhi⟩
    · exact ⟨show 'A'.toNat ≤ c.toNat from hlo, le_trans (show c.toNat ≤ 'Z'.toNat from hhi) (by decide)⟩
  have hblank : isBlank c = false := by
    simp only [isBlank, Bool.or_eq_false_iff, Bool.and_eq_false_iff, decide_eq_false_iff_not, beq_eq_false_iff_ne]
    omega
  rw [List.all_cons, hblank, Bool.false_and]

/-- a text that starts with a word is set after the mark of a comment -/
theorem LetterFirst.commentLine_eq {s : List Char} (h : LetterFirst s) : commentLine s = "// ".toList ++ s := by
  unfold commentLine
  split
  · exact absurd rfl (h.head_ne (x := '/') (by decide))
  · rfl

theorem LetterFirst.commentBody_commentLine {s : List Char} (h : LetterFirst s) : commentBody (commentLine s) = s := by
  rw [h.commentLine_eq]
  rfl

theorem trimBlankLines_of_ne_nil {lines : List (List Char)} (h : ∀ l ∈ lines, l ≠ []) : trimBlankLines lines = lines := by
  have hdrop : ∀ ls : List (List Char), (∀ l ∈ ls, l ≠ []) → ls.dropWhile List.isEmpty = ls := by
    intro ls hls
    cases ls with
    | nil => rfl
    | cons l r => simp [hls l List.mem_cons_self]
  rw [trimBlankLines, hdrop lines h, hdrop lines.reverse fun l hl => h l (List.mem_reverse.1 hl), List.reverse_reverse]

theorem squeezeBlankLines_of_ne_nil {lines : List (List Char)} (h : ∀ l ∈ lines, l ≠ []) :
    squeezeBlankLines lines = lines := by
  fun_induction squeezeBlankLines lines with
  | case1 r _ => exact absurd rfl (h [] List.mem_cons_self)
  | case2 l r _ ih => rw [ih fun x hx => h x (List.mem_cons_of_mem l hx)]
  | case3 => rfl

/-- lines that start with words share no indentation -/
theorem unindent_of_letterFirst {lines : List (List Char)} (h : ∀ l ∈ lines, LetterFirst l) : unindent lines = lines := by
  have hfilled : lines.filter (fun l => !l.isEmpty) = lines := by
    rw [List.filter_eq_self]
    exact fun l hl => by simp [(h l hl).ne_nil]
  have hshared : ∀ ls : List (List Char), ls.foldl (fun acc l => commonStart acc (indentation l)) [] = [] := by
    intro ls
    induction ls with
    | nil => rfl
    | cons l r ih => exact ih
  unfold unindent
  dsimp only
  rw [hfilled]
  cases lines with
  | nil => rfl
  | cons first others =>
    have hfirst : indentation first = [] := by
      obtain ⟨c, r, rfl, hc⟩ := h first List.mem_cons_self
      have hblank : c ≠ ' ' := by rintro rfl; exact absurd hc (by decide)
      have htab : c ≠ '\t' := by rintro rfl; exact absurd hc (by decide)
      simp [indentation, hblank, htab]
    dsimp only
    rw [hfirst, hshared]
    conv_rhs => rw [← List.map_id (first :: others)]
    refine List.map_congr_left fun l hl => ?_
    rw [if_neg (by rw [(h l hl).not_blank]; exact Bool.false_ne_true)]
    rfl

theorem newline_curlyQuotes {s : List Char} (h : '\n' ∉ s) : '\n' ∉ curlyQuotes s := by
  fun_induction curlyQuotes s with
  | case1 => exact h
  | case2 r ih | case3 r _ ih | case4 r ih => simpa using ih (by simpa using h)
  | case5 c r _ _ _ ih =>
    rw [List.mem_cons, not_or] at h ⊢
    exact ⟨h.1, ih h.2⟩

/-- **Comments that start with a word stay one line each when they are set as documentation.** -/
theorem docLines_worded {lines : List (List Char)} (h : ∀ l ∈ lines, LetterFirst l) :
    docLines (lines.map commentLine) = lines.map fun l => commentLine (curlyQuotes l) := by
  have hfull : ∀ l ∈ lines, l ≠ [] := fun l hl => (h l hl).ne_nil
  have hbodies : (lines.map commentLine).map commentBody = lines := by
    rw [List.map_map]
    conv_rhs => rw [← List.map_id lines]
    exact List.map_congr_left fun l hl => (h l hl).commentBody_commentLine
  unfold docLines
  dsimp only
  rw [hbodies, trimBlankLines_of_ne_nil hfull, unindent_of_letterFirst h, trimBlankLines_of_ne_nil hfull,
    squeezeBlankLines_of_ne_nil hfull]
  refine List.map_congr_left fun l hl => ?_
  rw [if_neg (by simp [hfull l hl])]

theorem LetterFirst.docLines_eq {s : List Char} (h : LetterFirst s) :
    docLines [commentLine s] = [commentLine (curlyQuotes s)] := by
  have hletter : ∀ l ∈ [s], LetterFirst l := by
    intro l hl
    rwa [List.mem_singleton.1 hl]
  have hdoc := docLines_worded hletter
  rwa [List.map_singleton, List.map_singleton] at hdoc

/-- no mark of a comment stands in front of a text that starts with a word -/
theorem Text.Worded.unmarked {t : Text} (h : t.Worded) {x : Char} : ¬ Text.ofChars ['/', x] <+: t := by
  rintro ⟨r, rfl⟩
  exact absurd rfl (h.letter.head_ne (x := '/') (by decide))

/-- a comment of one line: neither a line break nor a mark of its own is in it, and it is written after the mark of a comment
as one line, also when it is set as documentation -/
structure Text.IsLineComment (t : Text) : Prop where
  feed : .scalar '\n' ∉ t
  back : .scalar '\r' ∉ t
  lineMark : ¬ Text.ofString "//" <+: t
  blockMark : ¬ Text.ofString "/*" <+: t
  written : commentLine t.chars = "// ".toList ++ t.chars
  oneLine : '\n' ∉ commentLine t.chars
  documented : docLines [commentLine t.chars] = [commentLine (curlyQuotes t.chars)]
  oneDocLine : '\n' ∉ commentLine (curlyQuotes t.chars)

theorem newline_commentLine {s : List Char} (h : '\n' ∉ s) : '\n' ∉ commentLine s := by
  unfold commentLine
  split
  · exact h
  · simpa using h

theorem Text.Worded.isLineComment {t : Text} (h : t.Worded) : t.IsLineComment where
  feed := h.unbroken.feed
  back := h.unbroken.back
  lineMark := h.unmarked
  blockMark := h.unmarked
  written := h.letter.commentLine_eq
  oneLine := newline_commentLine (Text.newline_not_mem_chars h.unbroken.feed)
  documented := h.letter.docLines_eq
  oneDocLine := newline_commentLine (newline_curlyQuotes (Text.newline_not_mem_chars h.unbroken.feed))

/-- **The text of a pattern does not leave its comments.** For every pattern and all options, every comment of the matcher is
a line of its own; and no text made for comments has a line break or the end of a comment in it, neither among its characters
nor, decoded from bytes, among its bytes. -/
theorem comments_stay_on_one_line :
    (∀ o : Options, ∀ t ∈ (Session.start o (Reading.ofPattern o.pattern)).comments, t.IsLineComment) ∧
    (∀ t : Text, ∀ w ∈ commentBreaks, ¬ Text.ofString w <:+: commentText t) ∧
    ∀ bs : List UInt8, ∀ w ∈ commentBreaks, ¬ (Text.ofString w).bytes <:+: (commentText (Text.ofBytes bs)).bytes := by
  refine ⟨?_, not_occurs_commentText, ?_⟩
  · intro o t ht
    exact (Session.comments_worded o t ht).isLineComment
  · intro bs w hw hoccurs
    apply not_occurs_commentText (Text.ofBytes bs) w hw
    exact Text.occurs_of_bytes (commentText_straysHigh (Text.ofBytes_straysHigh bs)) (commentBreaks_ascii w hw) hoccurs

end MatcherGen
