/-
Where a group that is skipped ends. Skipping looks for the parenthesis that closes the group by counting those that no
backslash escapes; reading knows classes as well, where a parenthesis is a member like any other. So the two agree on a
body exactly as far as its parentheses are nested when classes are ignored.

Main statements:
- `balanced_eq_whole_iff`: counting ends with the last parenthesis exactly if what stands before it is nested;
- `Reader.Step.segment`: a step without remarks takes a text whose marks change the depth by as many groups as it opens;
- `lookaround_skipped_iff_nested`: which look-around groups are skipped whole.
-/
import MatcherGen.Proofs.Composition

namespace MatcherGen

/-! ## Marks -/

/-- what counts for the nesting of a text, each with whether it stands inside a class: the parentheses that no backslash
escapes, and a backslash at the very end, which would escape what follows -/
def marks : Bool → List Char → List (Bool × Char)
  | _, [] => []
  | inside, ['\\'] => [(inside, '\\')]
  | inside, '\\' :: _ :: r => marks inside r
  | inside, c :: r =>
    if c = '(' ∨ c = ')' then (inside, c) :: marks inside r
    else marks (if inside then c != ']' else c == '[') r

/-- the depth after one parenthesis; nothing else has one -/
def depthStep : Nat → Char → Option Nat
  | d, '(' => some (d + 1)
  | d + 1, ')' => some d
  | _, _ => none

/-- the depth after parentheses that start at depth `d`, if none closes what was not opened -/
def depthAfter (d : Nat) (w : List Char) : Option Nat := w.foldlM depthStep d

/-- the parentheses of the text come in pairs, those in classes like all others, and it does not end in an escape -/
def Nested (s : List Char) : Prop := depthAfter 0 ((marks false s).map Prod.snd) = some 0

instance (s : List Char) : Decidable (Nested s) := inferInstanceAs (Decidable (_ = _))

theorem depthAfter_append (d : Nat) (u v : List Char) :
    depthAfter d (u ++ v) = (depthAfter d u).bind fun d' => depthAfter d' v := List.foldlM_append

theorem depthAfter_open (d : Nat) (w : List Char) : depthAfter d ('(' :: w) = depthAfter (d + 1) w := rfl

theorem depthAfter_close (d : Nat) (w : List Char) : depthAfter (d + 1) (')' :: w) = depthAfter d w := rfl

/-- a character that is neither a parenthesis nor a backslash is counted over -/
theorem balanced_plain (d : Nat) {c : Char} (hescape : c ≠ '\\') (hopen : c ≠ '(') (hclose : c ≠ ')') (r : List Char) :
    balanced d (c :: r) = ((balanced d r).1 + 1, (balanced d r).2) := by
  rw [balanced.eq_def]
  split <;> simp_all

/-- **Counting ends with the last parenthesis** exactly if what stands before it is nested; classes make no difference. -/
theorem balanced_eq_whole_iff (inside : Bool) (d : Nat) (s : List Char) :
    balanced (d + 1) (s ++ [')']) = (s.length + 1, true) ↔
      depthAfter d ((marks inside s).map Prod.snd) = some 0 := by
  fun_induction marks inside s generalizing d with
  | case1 inside =>
    cases d with
    | zero => simp [balanced, depthAfter]
    | succ d => simp [balanced, depthAfter]
  | case2 inside => simp [balanced, depthAfter, depthStep]
  | case3 inside c r ih =>
    rw [← ih]
    simp [balanced, Prod.ext_iff]
  | case4 inside c r hlast hmore hparen ih =>
    rcases hparen with rfl | rfl
    · rw [List.map_cons, depthAfter_open, ← ih]
      simp [balanced, Prod.ext_iff]
    · cases d with
      | zero => simp [balanced, depthAfter, depthStep]
      | succ d =>
        rw [List.map_cons, depthAfter_close, ← ih]
        simp [balanced, Prod.ext_iff]
  | case5 inside c r hlast hmore hparen ih =>
    obtain ⟨hopen, hclose⟩ := not_or.1 hparen
    rw [← ih, List.cons_append, balanced_plain (d + 1) (ne_backslash hlast hmore) hopen hclose]
    simp [Prod.ext_iff]

/-! ## Segments -/

/-- `w` are the marks of `u`, whatever follows -/
def Segment (u : List Char) (w : List (Bool × Char)) : Prop := ∀ t, marks false (u ++ t) = w ++ marks false t

theorem Segment.append {u v : List Char} {w w' : List (Bool × Char)} (hu : Segment u w) (hv : Segment v w') :
    Segment (u ++ v) (w ++ w') := by
  intro t
  rw [List.append_assoc, hu, hv, List.append_assoc]

/-- outside of classes the character says nothing about nesting -/
def isPlain (c : Char) : Bool := c != '\\' && c != '(' && c != ')' && c != '['

theorem isPlain_iff {c : Char} : isPlain c = true ↔ c ≠ '\\' ∧ c ≠ '(' ∧ c ≠ ')' ∧ c ≠ '[' := by
  simp [isPlain, and_assoc]

theorem isPlain_of {p : Char → Bool} (hp : ['\\', '(', ')', '['].any p = false) {c : Char} (hc : p c = true) :
    isPlain c = true := by
  have hne : ∀ c' ∈ ['\\', '(', ')', '['], c ≠ c' := by
    rintro c' hc' rfl
    exact List.any_eq_false.1 hp c hc' hc
  exact isPlain_iff.2 ⟨hne _ (by simp), hne _ (by simp), hne _ (by simp), hne _ (by simp)⟩

theorem isPlain_of_digit {c : Char} (hc : isAsciiDigit c = true) : isPlain c = true := isPlain_of (by decide) hc

theorem isPlain_of_nameChar {c : Char} (hc : isNameChar c = true) : isPlain c = true := isPlain_of (by decide) hc

theorem isPlain_of_flagLetter {c : Char} (hc : isFlagLetter c = true) : isPlain c = true := isPlain_of (by decide) hc

theorem isPlain_of_not_meta {c : Char} (hc : isMeta c = false) : isPlain c = true :=
  isPlain_of (p := fun c => !isMeta c) (by decide) (by simp [hc])

theorem marks_cons (inside : Bool) {c : Char} (hescape : c ≠ '\\') (r : List Char) :
    marks inside (c :: r) =
      if c = '(' ∨ c = ')' then (inside, c) :: marks inside r
      else marks (if inside then c != ']' else c == '[') r := by
  rw [marks.eq_def]
  split <;> simp_all

theorem segment_plain {u : List Char} (h : ∀ c ∈ u, isPlain c = true) : Segment u [] := by
  intro t
  induction u with
  | nil => rfl
  | cons c u ih =>
    obtain ⟨hescape, hopen, hclose, hclass⟩ := isPlain_iff.1 (h c List.mem_cons_self)
    have ih := ih fun x hx => h x (List.mem_cons_of_mem _ hx)
    rw [List.cons_append, marks_cons false hescape, if_neg (by simp [hopen, hclose]), if_neg (by simp),
      beq_eq_false_iff_ne.2 hclass]
    exact ih

theorem segment_escape (c : Char) : Segment ['\\', c] [] := fun _ => rfl

theorem segment_open : Segment ['('] [(false, '(')] := fun t => marks_cons false (by decide) t

theorem segment_close : Segment [')'] [(false, ')')] := fun t => marks_cons false (by decide) t

/-- the front of a group opens one parenthesis -/
theorem segment_front {front : List Char} {capturing : Bool} {name : List Char} (hf : GroupFront front capturing name) :
    Segment front [(false, '(')] := by
  have hplain : ∀ lead : List Char, (∀ c ∈ lead, isPlain c = true) → (∀ c ∈ name, isNameChar c = true) →
      Segment (['('] ++ (lead ++ name ++ ['>'])) [(false, '(')] := by
    intro lead hlead hname
    refine segment_open.append (segment_plain fun c hc => ?_)
    simp only [List.mem_append, List.mem_singleton] at hc
    rcases hc with (hc | hc) | rfl
    · exact hlead c hc
    · exact isPlain_of_nameChar (hname c hc)
    · decide
  cases hf with
  | capturing => exact segment_open
  | nonCapturing => exact segment_open.append (segment_plain (u := ['?', ':']) (List.all_eq_true.1 rfl))
  | named _ hne hname => exact hplain ['?', 'P', '<'] (List.all_eq_true.1 rfl) hname
  | namedShort _ hne hname => exact hplain ['?', '<'] (List.all_eq_true.1 rfl) hname

/-- a group of flag letters opens and closes one -/
theorem segment_flags {letters : List Char} (h : ∀ c ∈ letters, isFlagLetter c = true) :
    Segment ('(' :: '?' :: (letters ++ [')'])) [(false, '('), (false, ')')] := by
  have hplain : ∀ c ∈ '?' :: letters, isPlain c = true := by
    intro c hc
    rcases List.mem_cons.1 hc with rfl | hc
    · decide
    · exact isPlain_of_flagLetter (h c hc)
  exact (segment_open.append (segment_plain hplain)).append segment_close

/-! ## Classes -/

/-- the text of a class after its opening bracket: it ends with the first bracket that no backslash escapes -/
inductive ClassText : List Char → Prop where
  | close : ClassText [']']
  | escape (c : Char) {u : List Char} (h : ClassText u) : ClassText ('\\' :: c :: u)
  | member {c : Char} {u : List Char} (hclose : c ≠ ']') (hescape : c ≠ '\\') (h : ClassText u) : ClassText (c :: u)

/-- all marks of a class are inside it, and what follows is outside again -/
theorem ClassText.marks_append {u : List Char} (h : ClassText u) (t : List Char) :
    marks true (u ++ t) = marks true u ++ marks false t ∧ ∀ m ∈ marks true u, m.1 = true := by
  induction h with
  | close => exact ⟨rfl, fun m hm => absurd hm List.not_mem_nil⟩
  | escape c h ih => exact ih
  | @member c u hclose hescape h ih =>
    have hinside : (if true then c != ']' else c == '[') = true := bne_iff_ne.2 hclose
    rw [List.cons_append, marks_cons true hescape, marks_cons true hescape, hinside]
    split_ifs with hparen
    · refine ⟨congrArg _ ih.1, fun m hm => ?_⟩
      rcases List.mem_cons.1 hm with rfl | hm
      · rfl
      · exact ih.2 m hm
    · exact ih

theorem segment_class {u : List Char} (h : ClassText u) : Segment ('[' :: u) (marks true u) :=
  fun t => (h.marks_append t).1

/-- the units up to the first bracket that is one of them are the text of a class -/
theorem classText_of_units {s : List Char} {before after : List (List Char)} (hs : escapeUnits s = before ++ [']'] :: after)
    (hbefore : [']'] ∉ before) : ClassText (before.flatten ++ [']']) := by
  fun_induction escapeUnits s generalizing before with
  | case1 => exact absurd hs (by simp)
  | case2 =>
    have hmem : [']'] ∈ [['\\']] := hs ▸ by simp
    exact absurd hmem (by decide)
  | case3 c r ih =>
    cases before with
    | nil => exact absurd (List.cons.inj hs).1 (by simp)
    | cons u before =>
      obtain ⟨rfl, htail⟩ := List.cons.inj hs
      exact (ih htail fun h => hbefore (List.mem_cons_of_mem _ h)).escape c
  | case4 c r hlast hmore ih =>
    cases before with
    | nil =>
      obtain rfl : c = ']' := by simpa using (List.cons.inj hs).1
      exact .close
    | cons u before =>
      obtain ⟨rfl, htail⟩ := List.cons.inj hs
      have hclose : c ≠ ']' := by
        rintro rfl
        exact hbefore List.mem_cons_self
      exact (ih htail fun h => hbefore (List.mem_cons_of_mem _ h)).member hclose (ne_backslash hlast hmore)

/-- **A class that is closed** ends with the first bracket that no backslash escapes. -/
theorem classBody_text (acc : ClassBody) (pos : Nat) (s : List Char) (hopen : acc.closed = false)
    (hclosed : (classBody acc pos s).closed = true) :
    ∃ u t, s = u ++ t ∧ ClassText u ∧ (classBody acc pos s).size = acc.size + u.length := by
  obtain ⟨n, hsize, hends⟩ := classBody_endsAfter acc pos s hopen
  have htext := flatten_escapeUnits s
  rw [hclosed] at hends
  generalize hunits : escapeUnits s = units at hends htext
  obtain ⟨before, after, hbefore⟩ := hends
  refine ⟨before.flatten ++ [']'], after.flatten, ?_, classText_of_units hunits hbefore, ?_⟩
  · rw [← htext, List.flatten_append, List.flatten_cons, List.append_assoc]
  · rw [hsize, List.length_append]
    rfl

theorem classPiece_text {flags : Flags} {pos : Nat} {s : List Char} (h : (classPiece flags pos s).remarks = []) :
    ∃ u t, s = u ++ t ∧ ClassText u ∧ (classPiece flags pos s).size = u.length + 1 := by
  have hclosed : ∀ b : ClassBody, (b.piece flags pos).remarks = [] → b.closed = true := by
    intro b hb
    by_contra hopen
    simp [ClassBody.piece, hopen] at hb
  by_cases hneg : ∃ r, s = '^' :: r
  · obtain ⟨r, rfl⟩ := hneg
    rw [classPiece_negated] at h ⊢
    obtain ⟨u, t, rfl, hu, hsize⟩ := classBody_text _ _ _ rfl (hclosed _ h)
    refine ⟨'^' :: u, t, rfl, hu.member (by decide) (by decide), hsize.trans ?_⟩
    simp only [List.length_cons]
    omega
  · have hplain : ∀ r, s ≠ '^' :: r := fun r hr => hneg ⟨r, hr⟩
    rw [classPiece_plain flags pos hplain] at h ⊢
    obtain ⟨u, t, rfl, hu, hsize⟩ := classBody_text _ _ _ rfl (hclosed _ h)
    exact ⟨u, t, rfl, hu, hsize.trans (Nat.add_comm _ _)⟩

/-! ## Atoms and quantifiers -/

/-- an escape without remarks is a backslash and one character -/
theorem escapePiece_segment {flags : Flags} {pos : Nat} {s : List Char} (h : (escapePiece flags pos s).remarks = []) :
    ∃ c r, s = c :: r ∧ (escapePiece flags pos s).size = 2 := by
  cases s with
  | nil => exact absurd h (by simp [escapePiece, Piece.stub])
  | cons c r =>
    refine ⟨c, r, rfl, ?_⟩
    unfold escapePiece at h ⊢
    dsimp only at h ⊢
    split_ifs at h ⊢
    all_goals
      first
      | rfl
      | exact absurd h (by simp [Piece.stub])

/-- there is no metacharacter in a literal run -/
theorem runSize_not_meta (s : List Char) : ∀ c ∈ s.take (runSize s), isMeta c = false := by
  obtain ⟨run, rest, rfl, hrun, hrest⟩ := exists_run s
  have hle : runSize (run ++ rest) ≤ run.length := by
    cases rest with
    | nil => rw [List.append_nil, runSize_at_end hrun]
    | cons c t =>
      rw [runSize_at_meta hrun (hrest c t rfl)]
      split_ifs <;> omega
  intro c hc
  rw [List.take_append_of_le_length hle] at hc
  exact hrun c (List.mem_of_mem_take hc)

/-- **An atom without remarks** has no marks but those inside a class. -/
theorem atomPiece_segment {flags : Flags} {pos : Nat} {c : Char} {s : List Char}
    (h : (atomPiece flags pos c s).remarks = []) (hbar : c ≠ '|') (hclose : c ≠ ')') (hopen : c ≠ '(') :
    ∃ u t w, c :: s = u ++ t ∧ (atomPiece flags pos c s).size = u.length ∧ Segment u w ∧ ∀ m ∈ w, m.1 = true := by
  have hsingle : ∀ size, size = 1 → isPlain c = true →
      ∃ u t w, c :: s = u ++ t ∧ size = u.length ∧ Segment u w ∧ ∀ m ∈ w, m.1 = true := by
    rintro size rfl hc
    exact ⟨[c], s, [], rfl, rfl, segment_plain (by simpa using hc), by simp⟩
  unfold atomPiece at h ⊢
  split_ifs at h ⊢ with h1 h2 h3 h4 h5 h6 h7
  · exact hsingle _ rfl (by rw [eq_of_beq h1]; decide)
  · exact hsingle _ rfl (by rw [eq_of_beq h2]; decide)
  · exact hsingle _ rfl (by rw [eq_of_beq h3]; decide)
  · obtain ⟨u, t, rfl, hu, hsize⟩ := classPiece_text h
    rw [eq_of_beq h4]
    exact ⟨'[' :: u, t, _, rfl, hsize, segment_class hu, (hu.marks_append t).2⟩
  · obtain ⟨x, r, rfl, hsize⟩ := escapePiece_segment h
    rw [eq_of_beq h5]
    exact ⟨['\\', x], r, [], rfl, hsize, segment_escape x, by simp⟩
  · exact absurd h (by simp [Piece.stub])
  · refine hsingle _ rfl ?_
    simp only [Bool.or_eq_true, beq_iff_eq] at h7
    rcases h7 with (rfl | rfl) | rfl <;> decide
  · refine ⟨(c :: s).take (runSize (c :: s)), (c :: s).drop (runSize (c :: s)), [], (List.take_append_drop _ _).symm, ?_,
      segment_plain fun x hx => isPlain_of_not_meta (runSize_not_meta (c :: s) x hx), by simp⟩
    rw [List.length_take, Nat.min_eq_left (runSize_le (c :: s))]
    rfl

theorem BraceForm.isPlain {text : List Char} {op : RepeatOp} {n : Nat} {hi : Option Nat} (h : BraceForm text op n hi) :
    ∀ c ∈ text, isPlain c = true := by
  intro c hc
  cases h with
  | exact lo n hlo =>
    simp only [List.mem_append, List.mem_singleton] at hc
    rcases hc with hc | rfl
    · exact isPlain_of_digit (hlo.all_digits c hc)
    · decide
  | atLeast lo n hlo =>
    simp only [List.mem_append, List.mem_cons, List.not_mem_nil, or_false] at hc
    rcases hc with hc | rfl | rfl
    · exact isPlain_of_digit (hlo.all_digits c hc)
    · decide
    · decide
  | between lo up n m hlo hup hle =>
    simp only [List.mem_append, List.mem_singleton] at hc
    rcases hc with ((hc | rfl) | hc) | rfl
    · exact isPlain_of_digit (hlo.all_digits c hc)
    · decide
    · exact isPlain_of_digit (hup.all_digits c hc)
    · decide

/-- a quantifier is made of plain characters -/
theorem suffix_isPlain {s : List Char} (h : ∀ n, suffix s ≠ .malformed n) :
    ∀ c ∈ s.take (suffix s).size, isPlain c = true := by
  cases hs : suffix s with
  | none => simp [Suffix.size]
  | malformed n => exact absurd hs (h n)
  | quantity q size =>
    obtain ⟨text, r, rfl, op, lo, hi, hform, hlazy⟩ := suffix_quantity_iff.1 hs
    have htext : ∀ c ∈ text, isPlain c = true := by
      cases hform with
      | star | plus | quest => exact List.all_eq_true.1 rfl
      | braces text op n hi min max hform hmin hmax =>
        intro c hc
        rcases List.mem_cons.1 hc with rfl | hc
        · decide
        · exact hform.isPlain c hc
    rcases hlazy with ⟨⟨t, rfl⟩, -, rfl⟩ | ⟨-, -, rfl⟩
    · intro c hc
      rw [Suffix.size, List.take_length_add_append] at hc
      simp only [List.take_succ_cons, List.take_zero, List.mem_append, List.mem_singleton] at hc
      rcases hc with hc | rfl
      · exact htext c hc
      · decide
    · rwa [Suffix.size, List.take_left]

/-! ## Steps -/

namespace Reader

theorem addAtom_opened (r : Reader) (x : Node) : (r.addAtom x).opened = r.opened := by
  unfold addAtom
  split <;> rfl

/-- an atom is at least one more factor of the term at hand -/
theorem addAtom_here (r : Reader) (x : Node) : ∃ l, l ≠ [] ∧ (r.addAtom x).here = r.here.push l := by
  unfold addAtom
  split <;> exact ⟨_, by simp, rfl⟩

theorem addPiece_opened (r : Reader) (p : Piece) : (r.addPiece p).opened = r.opened := addAtom_opened _ _

theorem addPiece_here (r : Reader) (p : Piece) : ∃ l, l ≠ [] ∧ (r.addPiece p).here = r.here.push l := addAtom_here _ _

/-- the quantifier after an atom, if it is not remarked on -/
theorem addAtom_segment {r : Reader} {x : Node} (h : (r.addAtom x).remarks = []) :
    ∃ q, r.rest = q ++ (r.addAtom x).rest ∧ ∀ c ∈ q, isPlain c = true := by
  have hsuffix := (addAtom_remarks h).2
  rw [addAtom_eq hsuffix]
  exact ⟨r.rest.take (suffix r.rest).size, (List.take_append_drop _ _).symm, suffix_isPlain hsuffix⟩

theorem addPiece_segment {r : Reader} {p : Piece} {u t : List Char} (hr : r.rest = u ++ t) (hsize : p.size = u.length)
    (h : (r.addPiece p).remarks = []) :
    ∃ q, r.rest = u ++ q ++ (r.addPiece p).rest ∧ ∀ c ∈ q, isPlain c = true := by
  obtain ⟨q, hrest, hq⟩ := addAtom_segment h
  have hdrop : r.rest.drop p.size = t := by rw [hr, hsize, List.drop_left]
  refine ⟨q, ?_, hq⟩
  calc r.rest = u ++ t := hr
    _ = u ++ (q ++ (r.addPiece p).rest) := congrArg (u ++ ·) (hdrop.symm.trans hrest)
    _ = u ++ q ++ (r.addPiece p).rest := (List.append_assoc _ _ _).symm

/-- **A step without remarks** takes a text whose marks do not depend on what follows. If none of them is inside a class,
they change the depth as the step changes the number of groups around the cursor. -/
theorem Step.segment {r r' : Reader} (h : Step r r') (hclean : r'.remarks = []) :
    ∃ u w, r.rest = u ++ r'.rest ∧ Segment u w ∧
      ((∀ m ∈ w, m.1 = false) → ∀ d d', r.opened.length = d + 1 → r'.opened.length = d' + 1 →
        depthAfter d (w.map Prod.snd) = some d') := by
  cases h with
  | arm s hr =>
    refine ⟨['|'], [], by simp [advance, hr], segment_plain (List.all_eq_true.1 rfl), fun _ d d' hd hd' => ?_⟩
    exact congrArg some (Nat.succ_injective (hd.symm.trans hd'))
  | close s g outer hr ho =>
    obtain ⟨q, hrest, hq⟩ := addAtom_segment hclean
    refine ⟨')' :: q, [(false, ')')], ?_, segment_close.append (segment_plain hq), fun _ d d' hd hd' => ?_⟩
    · rw [List.cons_append, ← hrest]
      simp [advance, hr]
    · rw [addAtom_opened] at hd'
      rw [ho, List.length_cons] at hd
      obtain rfl : d = d' + 1 := (Nat.succ_injective hd).symm.trans hd'
      rfl
  | opens s capturing name size hr hg =>
    rw [hr] at hg
    obtain ⟨front, t, hs, hfront, rfl, -⟩ := groupStart_opens_iff.1 hg
    refine ⟨front, _, ?_, segment_front hfront, fun _ d d' hd hd' => ?_⟩
    · simp [openGroup, advance, hr, hs]
    · exact congrArg some (hd.symm.trans (Nat.succ_injective hd'))
  | whole s p hr hg =>
    have hremarks := (addPiece_remarks hclean).2.1
    rw [hr] at hg
    rcases groupStart_whole hg with ⟨problem, -, rfl⟩ | ⟨letters, t, rfl, hne, hall, rfl⟩
    · exact absurd hremarks (by simp [skippedGroup])
    · have htext : r.rest = '(' :: '?' :: (letters ++ [')']) ++ t := by simp [hr]
      obtain ⟨q, hrest, hq⟩ := addPiece_segment htext (by simp [Piece.plain]; omega) hclean
      refine ⟨_, _, hrest, (segment_flags hall).append (segment_plain hq), fun _ d d' hd hd' => ?_⟩
      rw [addPiece_opened, hd] at hd'
      exact congrArg some (Nat.succ_injective hd')
  | atom c s hr hbar hclose hopen =>
    obtain ⟨u, t, w, hs, hsize, hu, hw⟩ := atomPiece_segment (addPiece_remarks hclean).2.1 hbar hclose hopen
    obtain ⟨q, hrest, hq⟩ := addPiece_segment (hr.trans hs) hsize hclean
    refine ⟨u ++ q, w ++ [], hrest, hu.append (segment_plain hq), fun hout d d' hd hd' => ?_⟩
    -- all marks of an atom are inside a class, so there are none
    obtain rfl : w = [] := by
      refine List.eq_nil_iff_forall_not_mem.2 fun m hm => ?_
      have := (hw m hm).symm.trans (hout m (by simp [hm]))
      exact absurd this (by simp)
    rw [addPiece_opened, hd] at hd'
    exact congrArg some (Nat.succ_injective hd')

/-- a step that leaves the last group takes its parenthesis and the quantifier after it -/
theorem Step.leaves {r r' : Reader} (h : Step r r') (hclean : r'.remarks = []) {d : Nat} (hd : r.opened.length = d + 1)
    (hnone : r'.opened = []) :
    d = 0 ∧ r'.here.term ≠ [] ∧ ∃ q, r.rest = ')' :: (q ++ r'.rest) ∧ ∀ c ∈ q, isPlain c = true := by
  have hne : r.opened ≠ [] := by
    intro hnil
    simp [hnil] at hd
  cases h with
  | arm s hr => exact absurd hnone hne
  | close s g outer hr ho =>
    obtain ⟨q, hrest, hq⟩ := addAtom_segment hclean
    obtain ⟨l, hl, hhere⟩ := addAtom_here ({ r with opened := outer, here := g.outer }.advance 1)
      (.group r.here.node g.capturing g.name)
    obtain rfl : outer = [] := (addAtom_opened _ _).symm.trans hnone
    refine ⟨by simpa [ho] using hd.symm, by simp [hhere, Branches.push, hl], q, ?_, hq⟩
    rw [← hrest]
    simp [advance, hr]
  | opens s capturing name size hr hg => exact absurd hnone (by simp [openGroup, advance])
  | whole s p hr hg => exact absurd ((addPiece_opened _ _).symm.trans hnone) hne
  | atom c s hr hbar hclose hopen => exact absurd ((addPiece_opened _ _).symm.trans hnone) hne

/-! ## The outermost term -/

/-- the outermost expression -/
def bottomOf : List OpenGroup → Branches → Branches
  | [], here => here
  | g :: outer, _ => bottomOf outer g.outer

/-- the outermost expression being read -/
def bottom (r : Reader) : Branches := bottomOf r.opened r.here

/-- the number of factors of the outermost term; a group that is being read counts -/
def width (r : Reader) : Nat := r.bottom.term.length + if r.opened.isEmpty then 0 else 1

/-- the outermost expression has more than one factor -/
def Wide (r : Reader) : Prop := r.bottom.arms ≠ [] ∨ 2 ≤ r.width

/-- a factor more, in the outermost term or below -/
theorem width_push {r r' : Reader} (hopened : r'.opened = r.opened) {l : List Node} (hl : l ≠ [])
    (hhere : r'.here = r.here.push l) :
    r'.bottom.arms = r.bottom.arms ∧ r.width ≤ r'.width ∧ (r.opened = [] → r.width < r'.width) := by
  have hpos := List.length_pos_of_ne_nil hl
  unfold width bottom
  rw [hopened, hhere]
  cases r.opened with
  | nil =>
    simp only [bottomOf, Branches.push, List.length_append]
    exact ⟨trivial, by omega, fun _ => by omega⟩
  | cons g outer => exact ⟨rfl, le_refl _, by simp⟩

/-- a step adds to the outermost expression, or works below it -/
theorem Step.width {r r' : Reader} (h : Step r r') :
    r'.bottom.arms ≠ [] ∨
      r'.bottom.arms = r.bottom.arms ∧ r.width ≤ r'.width ∧ (r.opened = [] → r.width < r'.width) := by
  cases h with
  | arm s hr =>
    unfold Reader.width bottom advance
    cases r.opened with
    | nil => exact Or.inl (by simp [bottomOf, Branches.nextArm])
    | cons g outer => exact Or.inr ⟨rfl, le_refl _, by simp⟩
  | close s g outer hr ho =>
    obtain ⟨l, hl, hhere⟩ := addAtom_here ({ r with opened := outer, here := g.outer }.advance 1)
      (.group r.here.node g.capturing g.name)
    have hpos := List.length_pos_of_ne_nil hl
    refine Or.inr ?_
    unfold Reader.width bottom
    rw [hhere, addAtom_opened, ho]
    cases outer with
    | nil =>
      simp only [advance, bottomOf, Branches.push, List.length_append]
      exact ⟨trivial, by simp; omega, by simp⟩
    | cons g' outer => exact ⟨rfl, le_refl _, by simp⟩
  | opens s capturing name size hr hg =>
    refine Or.inr ⟨rfl, ?_, fun ho => ?_⟩
    · unfold Reader.width
      exact Nat.add_le_add (le_refl _) (by split <;> simp [openGroup, advance])
    · unfold Reader.width
      rw [ho]
      exact Nat.lt_succ_self _
  | whole s p hr hg =>
    obtain ⟨l, hl, hhere⟩ := addPiece_here r p
    exact Or.inr (width_push (addPiece_opened r p) hl hhere)
  | atom c s hr hbar hclose hopen =>
    obtain ⟨l, hl, hhere⟩ := addPiece_here r (atomPiece r.flags r.pos c s)
    exact Or.inr (width_push (addPiece_opened r _) hl hhere)

theorem Wide.steps {r e : Reader} (h : Relation.ReflTransGen Step r e) (hr : r.Wide) : e.Wide := by
  induction h with
  | refl => exact hr
  | tail _ hstep ih =>
    rcases hstep.width with harms | ⟨harms, hle, -⟩
    · exact Or.inl harms
    · rcases ih with hbefore | hbefore
      · exact Or.inl (by rwa [harms])
      · exact Or.inr (hbefore.trans hle)

/-- whatever is read after a first factor makes the outermost expression wide -/
theorem wide_of_steps {r e : Reader} (h : Relation.ReflTransGen Step r e) (hopened : r.opened = [])
    (hterm : r.here.term ≠ []) (hrest : r.rest ≠ e.rest) : e.Wide := by
  rcases Relation.ReflTransGen.cases_head h with rfl | ⟨r₁, hstep, hsteps⟩
  · exact absurd rfl hrest
  · refine Wide.steps hsteps ?_
    rcases hstep.width with harms | ⟨-, -, hlt⟩
    · exact Or.inl harms
    · refine Or.inr (lt_of_le_of_lt ?_ (hlt hopened))
      unfold Reader.width bottom
      rw [hopened]
      exact List.length_pos_of_ne_nil hterm

/-- **From inside a group to the end.** If the group at the bottom is all there is, the text up to the last parenthesis
closes the groups around the cursor but that one, and no other parenthesis closes it. -/
theorem depthAfter_of_steps {r e : Reader} (h : Relation.ReflTransGen Step r e) (hclean : e.remarks = [])
    (hrest : e.rest = []) (hopened : e.opened = []) (hnarrow : ¬ e.Wide) {s : List Char} {d : Nat}
    (hr : r.rest = s ++ [')']) (hd : r.opened.length = d + 1) (hout : ∀ m ∈ marks false s, m.1 = false) :
    depthAfter d ((marks false s).map Prod.snd) = some 0 := by
  induction h using Relation.ReflTransGen.head_induction_on generalizing s d with
  | refl => exact absurd (hrest.symm.trans hr) (by simp)
  | @head r r' hstep hsteps ih =>
    have hclean' := steps_remarks hsteps hclean
    cases hopened' : r'.opened with
    | nil =>
      obtain ⟨rfl, hterm, q, htext, hq⟩ := hstep.leaves hclean' hd hopened'
      have hend : r'.rest = [] := by
        by_contra hne
        exact hnarrow (wide_of_steps hsteps hopened' hterm (by rwa [hrest]))
      -- no quantifier ends in a parenthesis, so the parenthesis is the only character
      rw [hr, hend, List.append_nil] at htext
      cases s with
      | nil => rfl
      | cons c s =>
        have hmem : ')' ∈ q := by
          rw [← (List.cons.inj htext).2]
          simp
        exact absurd rfl (isPlain_iff.1 (hq ')' hmem)).2.2.1
    | cons g outer =>
      obtain ⟨u, w, htext, hu, hdepth⟩ := hstep.segment hclean'
      have hne : r'.rest ≠ [] := by
        intro hnil
        rcases Relation.ReflTransGen.cases_head hsteps with rfl | ⟨r₂, hstep₂, -⟩
        · exact absurd (hopened.symm.trans hopened') (by simp)
        · have := (step_eq_none_iff r').2 (Or.inl hnil)
          rw [(step_eq_some_iff r' r₂).2 hstep₂] at this
          exact absurd this (by simp)
      obtain ⟨s', c, hs'⟩ := (List.eq_nil_or_concat' r'.rest).resolve_left hne
      have hsplit : s ++ [')'] = (u ++ s') ++ [c] := by rw [← hr, htext, hs', List.append_assoc]
      obtain ⟨rfl, hc⟩ := List.append_inj' hsplit rfl
      obtain rfl : ')' = c := List.singleton_inj.1 hc
      rw [hu s'] at hout ⊢
      have hinner := ih hs' (by rw [hopened', List.length_cons]) fun m hm => hout m (List.mem_append_right _ hm)
      have houter := hdepth (fun m hm => hout m (List.mem_append_left _ hm)) d outer.length hd (by rw [hopened']; rfl)
      rw [List.map_append, depthAfter_append, houter]
      exact hinner

end Reader

/-! ## Look-around groups -/

/-- the front of a look-around group -/
def Lookaround.front : Lookaround → List Char
  | .ahead => ['(', '?', '=']
  | .notAhead => ['(', '?', '!']
  | .behind => ['(', '?', '<', '=']
  | .notBehind => ['(', '?', '<', '!']

/-- the whole pattern is read as one look-around group that is skipped: a stub for all of its text, and no other remark -/
structure SkippedWhole (kind : Lookaround) (pattern : Text) : Prop where
  complete : (Reading.ofPattern pattern).complete = true
  root : (Reading.ofPattern pattern).root = .seq [.stub (Problem.lookaround kind pattern.chars).message]
  diagnostics : (Reading.ofPattern pattern).diagnostics = [(Problem.lookaround kind pattern.chars).at 0]

theorem balanced_front (kind : Lookaround) (s : List Char) :
    balanced 0 (kind.front ++ s) = (kind.front.length + (balanced 1 s).1, (balanced 1 s).2) := by
  cases kind <;> simp [Lookaround.front, balanced] <;> omega

namespace Reader

/-- the first step over a look-around group skips it -/
theorem step_lookaround (kind : Lookaround) (s : List Char) :
    (start (kind.front ++ s)).step =
      some ((start (kind.front ++ s)).addPiece
        (skippedGroup ⟨false, false⟩ 0 (.lookaround kind) (kind.front ++ s))) := by
  cases kind <;> rfl

theorem addAtom_keeps_remarks (r : Reader) (x : Node) : r.remarks <+: (r.addAtom x).remarks := by
  unfold addAtom
  split
  · exact List.prefix_refl _
  · exact List.prefix_refl _
  · exact List.prefix_append _ _

theorem addPiece_adds_remarks (r : Reader) (p : Piece) : r.remarks ++ p.remarks <+: (r.addPiece p).remarks :=
  addAtom_keeps_remarks ({ r with flags := p.flags, remarks := r.remarks ++ p.remarks }.advance p.size) p.node

/-- remarks are only added -/
theorem Step.keeps_remarks {r r' : Reader} (h : Step r r') : r.remarks <+: r'.remarks := by
  cases h with
  | arm s hr => exact List.prefix_refl _
  | close s g outer hr ho => exact addAtom_keeps_remarks ({ r with opened := outer, here := g.outer }.advance 1) _
  | opens s capturing name size hr hg => exact List.prefix_refl _
  | whole s p hr hg => exact (List.prefix_append _ _).trans (addPiece_adds_remarks r p)
  | atom c s hr hbar hclose hopen => exact (List.prefix_append _ _).trans (addPiece_adds_remarks r _)

/-- what a state on the way has remarked on, the reading has -/
theorem Reachable.keeps_remarks {pattern : Text} {r : Reader} (h : Reachable pattern.chars r) :
    r.remarks <+: (Reading.ofPattern pattern).diagnostics := by
  have hgrow : r.remarks <+: (r.run r.rest.length).remarks :=
    run_keeps (P := fun r' => r.remarks <+: r'.remarks) (fun _ _ hs hr => hr.trans hs.keeps_remarks) _ r
      (List.prefix_refl _)
  refine hgrow.trans ?_
  rw [← h.run_eq]
  exact closeAll_remarks_prefix _ _ _

end Reader

theorem Problem.lookaround_message_inj {kind : Lookaround} {text text' : List Char}
    (h : (Problem.lookaround kind text).message = (Problem.lookaround kind text').message) : text = text' :=
  List.append_cancel_left h

/-- a group that is skipped to its end leaves a reader with nothing more to read -/
theorem skippedWhole_of_balanced {kind : Lookaround} {pattern : Text} {s : List Char}
    (hpattern : pattern.chars = kind.front ++ s) (h : balanced 0 pattern.chars = (pattern.chars.length, true)) :
    SkippedWhole kind pattern := by
  have hpiece : skippedGroup ⟨false, false⟩ 0 (.lookaround kind) pattern.chars =
      ⟨.stub (Problem.lookaround kind pattern.chars).message, [(Problem.lookaround kind pattern.chars).at 0],
        ⟨false, false⟩, pattern.chars.length⟩ := by
    simp [skippedGroup, h]
  have hstep := (Reader.step_eq_some_iff _ _).1 (Reader.step_lookaround kind s)
  rw [← hpattern, hpiece] at hstep
  generalize hend : (Reader.start pattern.chars).addPiece _ = e at hstep
  obtain rfl : ⟨pattern.chars.length, [], ⟨false, false⟩, [(Problem.lookaround kind pattern.chars).at 0], [],
      ⟨[], [.stub (Problem.lookaround kind pattern.chars).message]⟩⟩ = e := by
    simp [← hend, Reader.addPiece, Reader.addAtom, Reader.advance, Reader.start, suffix, Branches.push]
  have hrun := Reader.run_eq_of_steps (.single hstep) rfl (le_refl pattern.chars.length)
  constructor <;> simp [Reading.complete, Reading.ofPattern, hrun, Reader.closeAll, Branches.node]

/-- **A look-around group is skipped whole** exactly if its body is nested. -/
theorem skippedWhole_iff (kind : Lookaround) {pattern : Text} {s : List Char}
    (hpattern : pattern.chars = kind.front ++ (s ++ [')'])) : SkippedWhole kind pattern ↔ Nested s := by
  have hcount : balanced 0 pattern.chars = (pattern.chars.length, true) ↔ Nested s := by
    rw [Nested, ← balanced_eq_whole_iff false 0 s, hpattern, balanced_front]
    simp [Prod.ext_iff]
  rw [← hcount]
  refine ⟨fun h => ?_, skippedWhole_of_balanced hpattern⟩
  have hstep := (Reader.step_eq_some_iff _ _).1 (Reader.step_lookaround kind (s ++ [')']))
  rw [← hpattern] at hstep
  -- the remarks on the group come first, and there is only one
  have hremarks := (Reader.addPiece_adds_remarks _ _).trans (Reader.Reachable.keeps_remarks (.single hstep))
  rw [h.diagnostics] at hremarks
  cases hclosed : (balanced 0 pattern.chars).2 with
  | false =>
    have hle := hremarks.length_le
    simp [skippedGroup, hclosed, Reader.start] at hle
  | true =>
    have hone := hremarks.eq_of_length (by simp [skippedGroup, hclosed, Reader.start])
    simp only [skippedGroup, hclosed, Reader.start, if_true, List.nil_append, List.cons.injEq, and_true] at hone
    have htext := Problem.lookaround_message_inj (congrArg Diagnostic.message hone)
    have hle := (List.take_eq_self_iff _).1 htext
    exact Prod.ext (le_antisymm (balanced_within 0 _).1 hle) hclosed

theorem Branches.of_node_eq_seq {b : Branches} {l : List Node} (h : b.node = .seq l) : b.arms = [] ∧ b.term = l := by
  rcases b with ⟨_ | ⟨a, arms⟩, term⟩
  · exact ⟨rfl, Node.seq.inj h⟩
  · exact absurd h (by simp [Branches.node])

/-- a body that is read as that of one group, and has no marks inside classes, is nested -/
theorem nested_of_reads {b : Text} {flags : Flags} {x : Node}
    (h : (Text.ofString "(?:" ++ b ++ Text.ofString ")").ReadsAs flags (.seq [.group x false []]))
    (hout : ∀ m ∈ marks false b.chars, m.1 = false) : Nested b.chars := by
  obtain ⟨e, he, -, hnode⟩ := Text.readsAs_iff.1 h
  have hchars : (Text.ofString "(?:" ++ b ++ Text.ofString ")").chars = ['(', '?', ':'] ++ (b.chars ++ [')']) := by
    simp [Text.ofString]
  rw [hchars] at he
  obtain ⟨harms, hterm⟩ := Branches.of_node_eq_seq hnode
  have hnarrow : ¬ e.Wide := by
    rw [Reader.Wide, Reader.width, Reader.bottom, he.opened]
    simp [Reader.bottomOf, harms, hterm]
  have hopen := Reader.step_open (r := Reader.start (['(', '?', ':'] ++ (b.chars ++ [')']))) .nonCapturing rfl (by simp)
  rcases Relation.ReflTransGen.cases_head he.reached with heq | ⟨r₁, hstep, hsteps⟩
  · exact absurd (heq ▸ he.rest) (by simp [Reader.start])
  · have hsame := ((Reader.step_eq_some_iff _ _).2 hstep).symm.trans ((Reader.step_eq_some_iff _ _).2 hopen)
    rw [Option.some.inj hsame] at hsteps
    exact Reader.depthAfter_of_steps hsteps he.clean he.rest he.opened hnarrow rfl rfl hout

/-- **A look-around group is skipped whole exactly if its body is nested**, whatever it is; then it is one stub for all of
its text. A body that is read without remarks as that of one group is nested if none of its classes has a parenthesis
that no backslash escapes. -/
theorem lookaround_skipped_iff_nested (b : Text) :
    (∀ kind : Lookaround,
      SkippedWhole kind (Text.ofChars kind.front ++ b ++ Text.ofString ")") ↔ Nested b.chars) ∧
    ∀ flags x, (Text.ofString "(?:" ++ b ++ Text.ofString ")").ReadsAs flags (.seq [.group x false []]) →
      (∀ m ∈ marks false b.chars, m.1 = false) →
      ∀ kind : Lookaround, SkippedWhole kind (Text.ofChars kind.front ++ b ++ Text.ofString ")") := by
  have hiff : ∀ kind : Lookaround,
      SkippedWhole kind (Text.ofChars kind.front ++ b ++ Text.ofString ")") ↔ Nested b.chars := by
    intro kind
    refine skippedWhole_iff kind ?_
    simp [Text.ofString]
  exact ⟨hiff, fun flags x hreads hout kind => (hiff kind).2 (nested_of_reads hreads hout)⟩

/-- a body with a switch, an escaped parenthesis, a class and a group with arms: `(?i)\)[^x](b|c)*` -/
def mixedBody : Text := .ofString "(?i)\\)[^x](b|c)*"

/-- the mixed body is skipped to the same parenthesis at which it is read to end -/
theorem mixedBody_skipped :
    (∃ x, (Text.ofString "(?:" ++ mixedBody ++ Text.ofString ")").ReadsAs ⟨true, false⟩ (.seq [.group x false []])) ∧
    (∀ m ∈ marks false mixedBody.chars, m.1 = false) ∧
    SkippedWhole .notBehind (Text.ofString "(?<!" ++ mixedBody ++ Text.ofString ")") := by
  have hreads : (Text.ofString "(?:" ++ mixedBody ++ Text.ofString ")").ReadsAs ⟨true, false⟩
      (.seq [.group _ false []]) := ⟨by decide +kernel, by decide +kernel, by decide +kernel, rfl⟩
  have hout : ∀ m ∈ marks false mixedBody.chars, m.1 = false := by
    have hall : (marks false mixedBody.chars).all (fun m => !m.1) = true := by decide +kernel
    simpa using hall
  exact ⟨⟨_, hreads⟩, hout, (lookaround_skipped_iff_nested mixedBody).2 _ _ hreads hout .notBehind⟩

/-- A parenthesis in a class ends the group that is skipped, though not the group that is read. -/
theorem class_ends_skipped_group :
    (∃ x, (Text.ofString "(?:[)])").ReadsAs ⟨false, false⟩ (.seq [.group x false []])) ∧
    (Reading.ofPattern (Text.ofString "(?=[)])")).complete = false ∧
    (Reading.ofPattern (Text.ofString "(?=[)])")).root =
      .seq [.stub "unsupported lookahead (?=[)".toList, .lit [']'] false] := by
  exact ⟨⟨_, by decide, rfl, rfl, rfl⟩, by decide, rfl⟩

end MatcherGen
