/-
Where the text of messages comes from. A remark on a pattern quotes pieces of the pattern as they are written; the rest of
its wording is fixed and printable. So a message holds no character that is neither printable nor in the pattern, and the
stubs in the tree, which carry the messages of remarks, hold none either.

Main statements:
- `Problem.message_madeOf`: a message is made of printable characters and those that its problem quotes;
- `Text.Unbroken.printable`: printable text has no line breaks;
- `atomPiece_quotes`, `groupStart_quotes`: remarks on a piece quote nothing but the text from there on;
- `Reading.diagnostics_quote`, `Reading.stubMessages_quote`: so the remarks and stubs of a reading quote the pattern.
-/
import MatcherGen.Proofs.Quoting
import MatcherGen.Proofs.Stubs

namespace MatcherGen

/-! ## Messages -/

/-- the characters of the pattern that a problem quotes as they are -/
def Problem.chars : Problem → List Char
  | .nothingToRepeat c => [c]
  | .literalShorthand letter => [letter]
  | .danglingEscape | .unterminatedGroup | .unterminatedClass => []
  | .malformedQuantifier text | .wordBoundary text | .propertyClass text | .namedBackreference text
  | .backreference text | .lookaround _ text | .groupName text | .scopedFlags text | .groupForm text
  | .flagNegation text | .inlineFlag _ text | .invertedRange text => text

/-- every character of the text is printable or one of `quoted` -/
def MadeOf (quoted text : List Char) : Prop := ∀ c ∈ text, isPrintable c = true ∨ c ∈ quoted

theorem MadeOf.quoted (text : List Char) : MadeOf text text := fun _ hc => Or.inr hc

theorem MadeOf.wording {q : List Char} {w : String} (h : w.toList.all isPrintable = true) : MadeOf q w.toList :=
  fun c hc => Or.inl (List.all_eq_true.1 h c hc)

theorem MadeOf.append {q s t : List Char} (hs : MadeOf q s) (ht : MadeOf q t) : MadeOf q (s ++ t) := by
  intro c hc
  rcases List.mem_append.1 hc with hc | hc
  · exact hs c hc
  · exact ht c hc

theorem MadeOf.after {text : List Char} {w : String} (h : w.toList.all isPrintable = true) :
    MadeOf text (w.toList ++ text) :=
  (MadeOf.wording h).append (MadeOf.quoted text)

/-- **A message is made of printable characters and those that its problem quotes.** -/
theorem Problem.message_madeOf (p : Problem) : MadeOf p.chars p.message := by
  cases p with
  | nothingToRepeat c => exact (MadeOf.after (by decide +kernel)).append (.wording (by decide +kernel))
  | literalShorthand letter => exact (MadeOf.after (by decide +kernel)).append (.wording (by decide +kernel))
  | danglingEscape => exact .wording (by decide +kernel)
  | unterminatedGroup => exact .wording (by decide +kernel)
  | unterminatedClass => exact .wording (by decide +kernel)
  | malformedQuantifier text => exact .after (by decide +kernel)
  | wordBoundary text => exact .after (by decide +kernel)
  | propertyClass text => exact .after (by decide +kernel)
  | namedBackreference text => exact .after (by decide +kernel)
  | backreference text => exact .after (by decide +kernel)
  | groupName text => exact .after (by decide +kernel)
  | scopedFlags text => exact .after (by decide +kernel)
  | groupForm text => exact .after (by decide +kernel)
  | flagNegation text => exact .after (by decide +kernel)
  | invertedRange text => exact .after (by decide +kernel)
  | lookaround kind text =>
    have hkind : MadeOf text kind.label.toList := .wording (by cases kind <;> decide +kernel)
    have hblank : MadeOf text [' '] := fun c hc => Or.inl (by rw [List.mem_singleton.1 hc]; rfl)
    exact (((MadeOf.wording (by decide +kernel)).append hkind).append hblank).append (.quoted text)
  | inlineFlag c text =>
    have hflag : MadeOf text (quotedCode c.toNat) := fun d hd => Or.inl (quotedCode_printable _ d hd)
    exact (((MadeOf.wording (by decide +kernel)).append hflag).append (.wording (by decide +kernel))).append (.quoted text)

/-! ## Line breaks -/

/-- no line break in the text -/
structure Text.Unbroken (t : Text) : Prop where
  feed : .scalar '\n' ∉ t
  back : .scalar '\r' ∉ t

theorem Text.Unbroken.append {s t : Text} (hs : s.Unbroken) (ht : t.Unbroken) : Unbroken (s ++ t) where
  feed := by simp [hs.feed, ht.feed]
  back := by simp [hs.back, ht.back]

/-- printable characters are no line breaks -/
theorem Text.Unbroken.printable {s : List Char} (h : MadeOf [] s) : (Text.ofChars s).Unbroken := by
  have hchar : ∀ c : Char, isPrintable c = false → .scalar c ∉ Text.ofChars s := by
    intro c hc hmem
    obtain ⟨x, hx, hxc⟩ := List.mem_map.1 hmem
    have hprintable := (h x hx).resolve_right List.not_mem_nil
    rw [Glyph.scalar.inj hxc, hc] at hprintable
    exact absurd hprintable (by simp)
  exact ⟨hchar '\n' (by decide), hchar '\r' (by decide)⟩

theorem Text.Unbroken.wording {w : String} (h : w.toList.all isPrintable = true) : (Text.ofString w).Unbroken :=
  .printable (.wording h)

/-! ## Remarks on pieces -/

/-- the remark is on a problem that quotes nothing but characters of `s` -/
def Diagnostic.Quotes (s : List Char) (d : Diagnostic) : Prop := ∃ (p : Problem) (pos : Nat), d = p.at pos ∧ p.chars ⊆ s

theorem Problem.at_quotes {p : Problem} {s : List Char} (h : p.chars ⊆ s) (pos : Nat) : (p.at pos).Quotes s :=
  ⟨p, pos, rfl, h⟩

theorem Diagnostic.Quotes.mono {s t : List Char} {d : Diagnostic} (h : d.Quotes s) (hst : s ⊆ t) : d.Quotes t := by
  obtain ⟨p, pos, hd, hp⟩ := h
  exact ⟨p, pos, hd, List.Subset.trans hp hst⟩

theorem Diagnostic.Quotes.message_madeOf {s : List Char} {d : Diagnostic} (h : d.Quotes s) : MadeOf s d.message := by
  obtain ⟨p, pos, rfl, hp⟩ := h
  intro c hc
  exact (p.message_madeOf c hc).imp_right fun hmem => hp hmem

/-- the remarks on a piece quote nothing but characters of `s` -/
def Piece.Quotes (s : List Char) (p : Piece) : Prop := ∀ d ∈ p.remarks, d.Quotes s

theorem Piece.plain_quotes (s : List Char) (flags : Flags) (node : Node) (size : Nat) :
    (Piece.plain flags node size).Quotes s := by
  intro d hd
  exact absurd hd (by simp [Piece.plain])

theorem Piece.stub_quotes {s : List Char} (flags : Flags) (pos : Nat) {p : Problem} (size : Nat) (h : p.chars ⊆ s) :
    (Piece.stub flags pos p size).Quotes s := by
  intro d hd
  rw [List.mem_singleton.1 hd]
  exact Problem.at_quotes h pos

/-- the remarks on the members of a class quote the class -/
theorem classBody_quotes (acc : ClassBody) (pos : Nat) (s : List Char) {t : List Char} (hs : s ⊆ t)
    (hacc : ∀ d ∈ acc.remarks, d.Quotes t) : ∀ d ∈ (classBody acc pos s).remarks, d.Quotes t := by
  refine classBody_remarks_keep (fun pos c hc => ?_) (fun pos text htext => ?_) acc pos s hs hacc
  · exact Problem.at_quotes (by simpa [Problem.chars] using hc) pos
  · exact Problem.at_quotes htext pos

theorem classPiece_quotes (flags : Flags) (pos : Nat) (s : List Char) : (classPiece flags pos s).Quotes s := by
  have hclosed : ∀ b : ClassBody, (∀ d ∈ b.remarks, d.Quotes s) →
      ∀ d ∈ (if b.closed then b.remarks else b.remarks ++ [Problem.unterminatedClass.at pos]), d.Quotes s := by
    intro b hb d hd
    split_ifs at hd
    · exact hb d hd
    · rcases List.mem_append.1 hd with hd | hd
      · exact hb d hd
      · rw [List.mem_singleton.1 hd]
        exact Problem.at_quotes (List.nil_subset s) pos
  unfold classPiece Piece.Quotes
  dsimp only
  split
  · exact hclosed _ (classBody_quotes _ _ _ (List.subset_cons_self _ _) (by simp))
  · exact hclosed _ (classBody_quotes _ _ _ (List.Subset.refl _) (by simp))

theorem escapePiece_quotes (flags : Flags) (pos : Nat) (s : List Char) : (escapePiece flags pos s).Quotes ('\\' :: s) := by
  unfold escapePiece
  cases s with
  | nil => exact Piece.stub_quotes flags pos 1 (List.nil_subset _)
  | cons c r =>
    dsimp only
    split_ifs
    · exact Piece.plain_quotes _ _ _ _
    · exact Piece.plain_quotes _ _ _ _
    · exact Piece.plain_quotes _ _ _ _
    · exact Piece.stub_quotes _ _ _ (List.take_subset _ _)
    · exact Piece.stub_quotes _ _ _ (List.take_subset _ _)
    · exact Piece.stub_quotes _ _ _ (List.take_subset _ _)
    · exact Piece.stub_quotes _ _ _ (List.take_subset _ _)
    · exact Piece.plain_quotes _ _ _ _

/-- **The remarks on an atom quote nothing but the text from there on.** -/
theorem atomPiece_quotes (flags : Flags) (pos : Nat) (c : Char) (s : List Char) :
    (atomPiece flags pos c s).Quotes (c :: s) := by
  unfold atomPiece
  split_ifs with h1 h2 h3 h4 h5 h6 h7
  · exact Piece.plain_quotes _ _ _ _
  · exact Piece.plain_quotes _ _ _ _
  · exact Piece.plain_quotes _ _ _ _
  · exact fun d hd => (classPiece_quotes flags pos s d hd).mono (List.subset_cons_self _ _)
  · obtain rfl : c = '\\' := by simpa using h5
    exact escapePiece_quotes flags pos s
  · exact Piece.stub_quotes _ _ _ (by simp [Problem.chars])
  · exact Piece.plain_quotes _ _ _ _
  · exact Piece.plain_quotes _ _ _ _

theorem skippedGroup_quotes (flags : Flags) (pos : Nat) {problem : List Char → Problem} (s : List Char)
    (h : ∀ text, (problem text).chars = text) : (skippedGroup flags pos problem s).Quotes s := by
  intro d hd
  rcases List.mem_append.1 hd with hd | hd
  · split_ifs at hd
    · exact absurd hd (by simp)
    · rw [List.mem_singleton.1 hd]
      exact Problem.at_quotes (List.nil_subset s) pos
  · rw [List.mem_singleton.1 hd]
    exact Problem.at_quotes (by rw [h]; exact List.take_subset _ _) pos

theorem flagGroup_quotes (flags : Flags) (pos : Nat) (s : List Char) : (flagGroup flags pos s).Quotes s := by
  unfold flagGroup
  dsimp only
  split
  · exact skippedGroup_quotes flags pos s fun _ => rfl
  · split_ifs
    · exact skippedGroup_quotes flags pos s fun _ => rfl
    · split
      · exact skippedGroup_quotes flags pos s fun _ => rfl
      · exact Piece.plain_quotes _ _ _ _
  · exact skippedGroup_quotes flags pos s fun _ => rfl

/-- **So do the remarks on a group that is one piece.** -/
theorem groupStart_quotes {flags : Flags} {pos : Nat} {s : List Char} {p : Piece}
    (h : groupStart flags pos s = .whole p) : p.Quotes s := by
  unfold groupStart at h
  split at h
  · exact absurd h (by simp)
  · exact GroupStart.whole.inj h ▸ skippedGroup_quotes flags pos s fun _ => rfl
  · exact GroupStart.whole.inj h ▸ skippedGroup_quotes flags pos s fun _ => rfl
  · exact GroupStart.whole.inj h ▸ skippedGroup_quotes flags pos s fun _ => rfl
  · exact GroupStart.whole.inj h ▸ skippedGroup_quotes flags pos s fun _ => rfl
  · exact namedGroup_whole h ▸ skippedGroup_quotes flags pos s fun _ => rfl
  · exact namedGroup_whole h ▸ skippedGroup_quotes flags pos s fun _ => rfl
  · exact GroupStart.whole.inj h ▸ flagGroup_quotes flags pos s
  · exact absurd h (by simp)

/-! ## Readings -/

namespace Reader

/-- what is still to be read is part of `s`, and the remarks quote nothing else -/
structure Quotes (s : List Char) (r : Reader) : Prop where
  rest : r.rest ⊆ s
  remarks : ∀ d ∈ r.remarks, d.Quotes s

theorem Quotes.advance {s : List Char} {r : Reader} (h : r.Quotes s) (n : Nat) : (r.advance n).Quotes s :=
  ⟨List.Subset.trans (List.drop_subset n r.rest) h.rest, h.remarks⟩

theorem Quotes.remark {s : List Char} {r : Reader} (h : r.Quotes s) {new : List Diagnostic}
    (hnew : ∀ d ∈ new, d.Quotes s) (flags : Flags) :
    ({ r with flags := flags, remarks := r.remarks ++ new } : Reader).Quotes s := by
  refine ⟨h.rest, fun d hd => ?_⟩
  rcases List.mem_append.1 hd with hd | hd
  · exact h.remarks d hd
  · exact hnew d hd

theorem Quotes.addAtom {s : List Char} {r : Reader} (h : r.Quotes s) (x : Node) : (r.addAtom x).Quotes s := by
  unfold Reader.addAtom
  split
  · exact ⟨h.rest, h.remarks⟩
  · apply Quotes.advance
    exact ⟨h.rest, h.remarks⟩
  · rename_i size _
    apply Quotes.advance
    refine ⟨h.rest, fun d hd => ?_⟩
    rcases List.mem_append.1 hd with hd | hd
    · exact h.remarks d hd
    · rw [List.mem_singleton.1 hd]
      exact Problem.at_quotes (List.Subset.trans (List.take_subset size r.rest) h.rest) r.pos

theorem Quotes.addPiece {s : List Char} {r : Reader} (h : r.Quotes s) {p : Piece} (hp : p.Quotes r.rest) :
    (r.addPiece p).Quotes s :=
  ((h.remark (fun d hd => (hp d hd).mono h.rest) p.flags).advance p.size).addAtom p.node

/-- **A step quotes nothing but what is there to read.** -/
theorem Quotes.step {s : List Char} {r r' : Reader} (hs : Step r r') (h : r.Quotes s) : r'.Quotes s := by
  cases hs with
  | arm t hr =>
    apply Quotes.advance
    exact ⟨h.rest, h.remarks⟩
  | close t g outer hr ho =>
    apply Quotes.addAtom
    apply Quotes.advance
    exact ⟨h.rest, h.remarks⟩
  | opens t capturing name size hr hg =>
    apply Quotes.advance
    exact ⟨h.rest, h.remarks⟩
  | whole t p hr hg => exact h.addPiece (groupStart_quotes hg)
  | atom c t hr hbar hclose hopen =>
    have hpiece := atomPiece_quotes r.flags r.pos c t
    rw [← hr] at hpiece
    exact h.addPiece hpiece

theorem closeAll_quotes {s : List Char} (opened : List OpenGroup) (here : Branches) {remarks : List Diagnostic}
    (h : ∀ d ∈ remarks, d.Quotes s) : ∀ d ∈ (closeAll opened here remarks).2, d.Quotes s := by
  induction opened generalizing here remarks with
  | nil => exact h
  | cons g outer ih =>
    refine ih _ fun d hd => ?_
    rcases List.mem_append.1 hd with hd | hd
    · exact h d hd
    · rw [List.mem_singleton.1 hd]
      exact Problem.at_quotes (List.nil_subset s) g.start

end Reader

/-- **The remarks of a reading quote nothing but the pattern.** -/
theorem Reading.diagnostics_quote (pattern : Text) :
    ∀ d ∈ (Reading.ofPattern pattern).diagnostics, d.Quotes pattern.chars := by
  have hstart : (Reader.start pattern.chars).Quotes pattern.chars := ⟨List.Subset.refl _, by simp [Reader.start]⟩
  have hrun := Reader.run_keeps (P := fun r => r.Quotes pattern.chars) (fun _ _ hs h => h.step hs)
    pattern.chars.length _ hstart
  exact Reader.closeAll_quotes _ _ hrun.remarks

/-- the message of a stub is the message of a remark -/
theorem Reading.exists_remark (pattern : Text) :
    ∀ m ∈ (Reading.ofPattern pattern).root.stubMessages, ∃ d ∈ (Reading.ofPattern pattern).diagnostics, m = d.message := by
  intro m hm
  rw [Reading.stubMessages_eq] at hm
  obtain ⟨d, hd, rfl⟩ := List.mem_map.1 hm
  exact ⟨d, List.mem_of_mem_filter hd, rfl⟩

/-- **The stubs of a tree that is read say nothing but what remarks say.** -/
theorem Reading.stubMessages_quote (pattern : Text) :
    ∀ m ∈ (Reading.ofPattern pattern).root.stubMessages, MadeOf pattern.chars m := by
  intro m hm
  obtain ⟨d, hd, rfl⟩ := Reading.exists_remark pattern m hm
  exact (Reading.diagnostics_quote pattern d hd).message_madeOf

end MatcherGen
