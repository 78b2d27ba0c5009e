/-
What is read inside a part of a pattern does not depend on where the part stands or on what follows it, as long as the
part is read without remarks and an arm boundary or a parenthesis follows. A reader inside a larger pattern mirrors
one that reads the part alone: it is in the same state, apart from the groups around the part, the arms before it and
the characters after it.

Main statements:
- `atomPiece_append`, `groupStart_append`, `suffix_append`: no look ahead leaves the part;
- `Reader.Mirrors.step`: a mirror makes the steps of the reader it mirrors;
- `Reader.Finishes.embed`: what a part is read as, it is read as in every place.
-/
import MatcherGen.Proofs.Progress

namespace MatcherGen

/-! ## Boundaries -/

/-- what may follow a part of a pattern: nothing, an arm boundary or a parenthesis -/
def Boundary (post : List Char) : Prop := ∀ c t, post = c :: t → c = '|' ∨ c = ')' ∨ c = '('

theorem Boundary.nil : Boundary [] := by simp [Boundary]

theorem Boundary.cons {c : Char} (h : c = '|' ∨ c = ')' ∨ c = '(') (t : List Char) : Boundary (c :: t) := by
  intro c' t' heq
  obtain ⟨rfl, -⟩ := List.cons.inj heq
  exact h

theorem Boundary.isMeta {post : List Char} (hp : Boundary post) {c : Char} {t : List Char} (h : post = c :: t) :
    MatcherGen.isMeta c = true := by
  rcases hp c t h with rfl | rfl | rfl <;> decide

theorem Boundary.not_quantifier {post : List Char} (hp : Boundary post) {c : Char} {t : List Char} (h : post = c :: t) :
    isQuantifierStart c = false := by
  rcases hp c t h with rfl | rfl | rfl <;> decide

theorem Boundary.ne_quest {post : List Char} (hp : Boundary post) {r : List Char} (hr : ∀ t, r ≠ '?' :: t) :
    ∀ t, r ++ post ≠ '?' :: t := by
  intro t h
  cases r with
  | nil => exact absurd (hp '?' t h) (by decide)
  | cons c r =>
    obtain ⟨rfl, -⟩ := List.cons.inj h
    exact hr r rfl

theorem Boundary.not_digit {post : List Char} (hp : Boundary post) {c : Char} {t : List Char} (h : post = c :: t) :
    isAsciiDigit c = false := by
  rcases hp c t h with rfl | rfl | rfl <;> decide

/-- a closing brace comes next before a boundary only if it comes next at the end -/
theorem Boundary.closing_iff {post : List Char} (hp : Boundary post) (r : List Char) :
    (∃ t, r ++ post = '}' :: t) ↔ ∃ t, r = '}' :: t := by
  cases r with
  | nil =>
    constructor
    · rintro ⟨t, ht⟩
      exact absurd (hp '}' t ht) (by decide)
    · rintro ⟨t, ht⟩
      exact absurd ht (by simp)
  | cons c r => simp

theorem takeWhile_append_boundary {p : Char → Bool} {post : List Char} (hp : ∀ c t, post = c :: t → p c = false)
    (s : List Char) : (s ++ post).takeWhile p = s.takeWhile p := by
  induction s with
  | nil =>
    cases post with
    | nil => rfl
    | cons c t => simp [hp c t rfl]
  | cons c r ih =>
    rw [List.cons_append, List.takeWhile_cons, List.takeWhile_cons, ih]

/-! ## Pieces -/

theorem runSize_at_end {run : List Char} (hrun : ∀ c ∈ run, isMeta c = false) : runSize run = run.length := by
  have htake : run.takeWhile (fun c => !isMeta c) = run := by simpa using hrun
  unfold runSize
  simp [htake]

theorem runSize_at_meta {run : List Char} (hrun : ∀ c ∈ run, isMeta c = false) {c : Char} (hc : isMeta c = true)
    (t : List Char) :
    runSize (run ++ c :: t) = if 1 < run.length && isQuantifierStart c then run.length - 1 else run.length := by
  have htake : (run ++ c :: t).takeWhile (fun c => !isMeta c) = run :=
    takeWhile_append_of_all (fun c hc => by simp [hrun c hc]) (by simp [hc])
  unfold runSize
  simp only [htake, List.drop_left]

/-- all characters at the front that pass a test, and what comes after them -/
theorem exists_span (p : Char → Bool) (s : List Char) :
    ∃ front rest, s = front ++ rest ∧ (∀ c ∈ front, p c = true) ∧ ∀ c t, rest = c :: t → p c = false := by
  refine ⟨s.takeWhile p, s.dropWhile p, List.takeWhile_append_dropWhile.symm, fun c hc => List.mem_takeWhile_imp hc, ?_⟩
  intro c t hrest
  have := List.head?_dropWhile_not p s
  simpa [hrest] using this

/-- a literal run, and what comes after it -/
theorem exists_run (s : List Char) :
    ∃ run rest, s = run ++ rest ∧ (∀ c ∈ run, isMeta c = false) ∧ ∀ c t, rest = c :: t → isMeta c = true := by
  obtain ⟨run, rest, hs, hrun, hrest⟩ := exists_span (fun c => !isMeta c) s
  exact ⟨run, rest, hs, by simpa using hrun, by simpa using hrest⟩

/-- a literal run does not see past a boundary -/
theorem runSize_append (s : List Char) {post : List Char} (hp : Boundary post) : runSize (s ++ post) = runSize s := by
  obtain ⟨run, rest, rfl, hrun, hrest⟩ := exists_run s
  cases rest with
  | nil =>
    rw [List.append_nil]
    cases post with
    | nil => rw [List.append_nil]
    | cons c t =>
      rw [runSize_at_meta hrun (hp.isMeta rfl), runSize_at_end hrun]
      simp [hp.not_quantifier rfl]
  | cons c t =>
    have hc := hrest c t rfl
    rw [List.append_assoc, List.cons_append, runSize_at_meta hrun hc, runSize_at_meta hrun hc]

/-- braces that are not closed end at a boundary as they end at the end -/
theorem sizeToBrace_append (s : List Char) {post : List Char} (hp : Boundary post) :
    sizeToBrace (s ++ post) = sizeToBrace s := by
  induction s with
  | nil =>
    cases post with
    | nil => rfl
    | cons c t => rcases hp c t rfl with rfl | rfl | rfl <;> rfl
  | cons c r ih => simp only [List.cons_append, sizeToBrace, ih]

/-- what braces say once their lower bound `n` and the comma are read, in `size` characters -/
def bracesUpper (n size : Nat) (r : List Char) : Option (RepeatOp × Nat × Option Nat) × Nat :=
  let hi := r.takeWhile isAsciiDigit
  let afterHi := r.drop hi.length
  match bound? hi, afterHi with
  | some m, '}' :: _ =>
    if m < n then (.none, size + hi.length + 1) else (some (.between, n, some m), size + hi.length + 1)
  | _, _ => (.none, size + hi.length + (sizeToBrace afterHi).getD 0)

/-- what braces say once their lower bound `n` is read, in `size` characters -/
def bracesLower (n size : Nat) (after : List Char) : Option (RepeatOp × Nat × Option Nat) × Nat :=
  match after with
  | '}' :: _ => (some (.exact, n, some n), size + 1)
  | ',' :: '}' :: _ => (some (.atLeast, n, .none), size + 2)
  | ',' :: r => bracesUpper n (size + 1) r
  | _ => (.none, size + (sizeToBrace after).getD 0)

theorem braces_eq (s : List Char) :
    braces s =
      match bound? (s.takeWhile isAsciiDigit) with
      | .none =>
        (.none, 1 + (s.takeWhile isAsciiDigit).length + (sizeToBrace (s.drop (s.takeWhile isAsciiDigit).length)).getD 0)
      | some n => bracesLower n (1 + (s.takeWhile isAsciiDigit).length) (s.drop (s.takeWhile isAsciiDigit).length) := rfl

theorem bracesUpper_append (n size : Nat) (r : List Char) {post : List Char} (hp : Boundary post) :
    bracesUpper n size (r ++ post) = bracesUpper n size r := by
  have htake : (r ++ post).takeWhile isAsciiDigit = r.takeWhile isAsciiDigit :=
    takeWhile_append_boundary (fun c t h => hp.not_digit h) r
  have hdrop : (r ++ post).drop (r.takeWhile isAsciiDigit).length = r.drop (r.takeWhile isAsciiDigit).length ++ post :=
    List.drop_append_of_le_length (List.takeWhile_prefix _).length_le
  unfold bracesUpper
  simp only [htake, hdrop, sizeToBrace_append _ hp]
  generalize r.drop (r.takeWhile isAsciiDigit).length = after
  have hclosing := hp.closing_iff after
  cases bound? (r.takeWhile isAsciiDigit) with
  | none => rfl
  | some m =>
    by_cases h : ∃ t, after = '}' :: t
    · obtain ⟨t, rfl⟩ := h
      rfl
    · have h' := mt hclosing.1 h
      split <;> split <;> simp_all

theorem bracesLower_append (n size : Nat) (after : List Char) {post : List Char} (hp : Boundary post) :
    bracesLower n size (after ++ post) = bracesLower n size after := by
  cases after with
  | nil =>
    cases post with
    | nil => rfl
    | cons c t => rcases hp c t rfl with rfl | rfl | rfl <;> rfl
  | cons c r =>
    by_cases hclose : c = '}'
    · subst hclose
      rfl
    by_cases hcomma : c = ','
    · subst hcomma
      have hclosing := hp.closing_iff r
      have hupper := bracesUpper_append n (size + 1) r hp
      by_cases h : ∃ t, r = '}' :: t
      · obtain ⟨t, rfl⟩ := h
        rfl
      · have h' := mt hclosing.1 h
        unfold bracesLower
        split <;> split <;> simp_all
    · have hbad := sizeToBrace_append (c :: r) hp
      rw [List.cons_append] at hbad ⊢
      simp [bracesLower, hclose, hcomma, hbad]

/-- **Braces do not see past a boundary.** -/
theorem braces_append (s : List Char) {post : List Char} (hp : Boundary post) : braces (s ++ post) = braces s := by
  have htake : (s ++ post).takeWhile isAsciiDigit = s.takeWhile isAsciiDigit :=
    takeWhile_append_boundary (fun c t h => hp.not_digit h) s
  have hdrop : (s ++ post).drop (s.takeWhile isAsciiDigit).length = s.drop (s.takeWhile isAsciiDigit).length ++ post :=
    List.drop_append_of_le_length (List.takeWhile_prefix _).length_le
  simp only [braces_eq, htake, hdrop, sizeToBrace_append _ hp, bracesLower_append _ _ _ hp]

/-- **A quantifier does not see past a boundary.** -/
theorem suffix_append (s : List Char) {post : List Char} (hp : Boundary post) : suffix (s ++ post) = suffix s := by
  cases h : suffix s with
  | malformed n =>
    obtain ⟨r, rfl, hb⟩ := suffix_malformed h
    exact suffix_of_malformed ((braces_append r hp).trans hb)
  | none =>
    rw [suffix_none_iff] at h ⊢
    intro c t heq
    cases s with
    | nil => exact hp.not_quantifier heq
    | cons c' s =>
      obtain ⟨rfl, -⟩ := List.cons.inj heq
      exact h c' s rfl
  | quantity q size =>
    obtain ⟨text, r, rfl, op, lo, hi, hform, hlazy⟩ := suffix_quantity_iff.1 h
    refine suffix_quantity_iff.2 ⟨text, r ++ post, List.append_assoc _ _ _, op, lo, hi, hform, ?_⟩
    rcases hlazy with ⟨⟨t, rfl⟩, hq⟩ | ⟨hr, hq⟩
    · exact Or.inl ⟨⟨t ++ post, rfl⟩, hq⟩
    · exact Or.inr ⟨hp.ne_quest hr, hq⟩

theorem escapePiece_append {flags : Flags} {pos : Nat} {s : List Char} (h : (escapePiece flags pos s).remarks = [])
    (pos' : Nat) (post : List Char) : escapePiece flags pos' (s ++ post) = escapePiece flags pos s := by
  cases s with
  | nil => exact absurd h (by simp [escapePiece, Piece.stub])
  | cons c r =>
    unfold escapePiece at h ⊢
    rw [List.cons_append]
    dsimp only at h ⊢
    split_ifs at h ⊢
    all_goals
      first
      | rfl
      | exact absurd h (by simp [Piece.stub])

theorem classPiece_append {flags : Flags} {pos : Nat} {s : List Char} (h : (classPiece flags pos s).remarks = [])
    (pos' : Nat) (post : List Char) : classPiece flags pos' (s ++ post) = classPiece flags pos s := by
  have hlocal : ∀ (acc : ClassBody) (p p' : Nat) (r : List Char), acc.closed = false →
      ((classBody acc p r).piece flags pos).remarks = [] →
      (classBody acc p' (r ++ post)).piece flags pos' = (classBody acc p r).piece flags pos := by
    intro acc p p' r hopen hremarks
    unfold ClassBody.piece at hremarks ⊢
    cases hclosed : (classBody acc p r).closed with
    | false => simp [hclosed] at hremarks
    | true =>
      dsimp only at hremarks
      rw [if_pos hclosed] at hremarks
      have happend := classBody_append acc p r post hopen hclosed
      rw [← happend] at hremarks
      rw [classBody_shift acc p p' (r ++ post) hremarks, happend, hclosed]
      rfl
  by_cases hneg : ∃ r, s = '^' :: r
  · obtain ⟨r, rfl⟩ := hneg
    exact hlocal _ _ (pos' + 2) r rfl h
  · have hplain : ∀ r, s ≠ '^' :: r := fun r hr => hneg ⟨r, hr⟩
    have hplain' : ∀ r, s ++ post ≠ '^' :: r := by
      intro r hr
      cases s with
      | nil => exact absurd h (by simp [classPiece, classBody])
      | cons c t =>
        obtain ⟨rfl, -⟩ := List.cons.inj hr
        exact hplain t rfl
    rw [classPiece_plain flags pos hplain] at h ⊢
    rw [classPiece_plain flags pos' hplain']
    exact hlocal _ _ (pos' + 1) s rfl h

theorem atomPiece_append {flags : Flags} {pos : Nat} {c : Char} {s : List Char}
    (h : (atomPiece flags pos c s).remarks = []) (pos' : Nat) {post : List Char} (hp : Boundary post) :
    atomPiece flags pos' c (s ++ post) = atomPiece flags pos c s := by
  have hrun : runSize (c :: (s ++ post)) = runSize (c :: s) := by
    rw [← List.cons_append]
    exact runSize_append (c :: s) hp
  have htake : (c :: (s ++ post)).take (runSize (c :: s)) = (c :: s).take (runSize (c :: s)) := by
    rw [← List.cons_append]
    exact List.take_append_of_le_length (runSize_le (c :: s))
  unfold atomPiece at h ⊢
  dsimp only at h ⊢
  split_ifs at h ⊢ with h1 h2 h3 h4 h5 h6 h7
  · rfl
  · rfl
  · rfl
  · exact classPiece_append h pos' post
  · exact escapePiece_append h pos' post
  · exact absurd h (by simp [Piece.stub])
  · rfl
  · rw [hrun, htake]

/-- a group front does not see past a boundary -/
theorem groupStart_append {flags : Flags} {pos : Nat} {s : List Char} (pos' : Nat) {post : List Char}
    (hp : Boundary post) (h : ∀ p, groupStart flags pos ('(' :: s) = .whole p → p.remarks = []) :
    groupStart flags pos' ('(' :: (s ++ post)) = groupStart flags pos ('(' :: s) := by
  cases hg : groupStart flags pos ('(' :: s) with
  | opens capturing name size =>
    obtain ⟨front, r, hs, hfront, hsize, hplain⟩ := groupStart_opens_iff.1 hg
    refine groupStart_opens_iff.2 ⟨front, r ++ post, ?_, hfront, hsize, fun hf => hp.ne_quest (hplain hf)⟩
    rw [← List.cons_append, hs, List.append_assoc]
  | whole p =>
    have hp' := h p hg
    rcases groupStart_whole hg with ⟨problem, -, rfl⟩ | ⟨letters, r, rfl, hne, hall, rfl⟩
    · exact absurd hp' (by simp [skippedGroup])
    · rw [List.cons_append, List.append_assoc, List.cons_append]
      exact groupStart_flags flags pos' hne hall (r ++ post)

/-! ## Atoms with their quantifiers -/

/-- an atom with its quantifier -/
def Suffix.wrap (x : Node) : Suffix → Node
  | .quantity q _ => .rep x q
  | _ => x

namespace Reader

/-- adding an atom that no malformed quantifier follows -/
theorem addAtom_eq {r : Reader} {x : Node} (h : ∀ n, suffix r.rest ≠ .malformed n) :
    r.addAtom x = { r with here := r.here.push [(suffix r.rest).wrap x] }.advance (suffix r.rest).size := by
  unfold addAtom
  cases hs : suffix r.rest with
  | none => rfl
  | quantity q size => rfl
  | malformed n => exact absurd hs (h n)

/-- an atom without remarks is followed by no malformed quantifier -/
theorem addAtom_remarks {r : Reader} {x : Node} (h : (r.addAtom x).remarks = []) :
    r.remarks = [] ∧ ∀ n, suffix r.rest ≠ .malformed n := by
  unfold addAtom at h
  split at h
  · rename_i hs
    exact ⟨h, by simp [hs]⟩
  · rename_i hs
    exact ⟨h, by simp [hs]⟩
  · exact absurd h (by simp [advance])

theorem addPiece_remarks {r : Reader} {p : Piece} (h : (r.addPiece p).remarks = []) :
    r.remarks = [] ∧ p.remarks = [] ∧ ∀ n, suffix (r.rest.drop p.size) ≠ .malformed n := by
  obtain ⟨hremarks, hsuffix⟩ := addAtom_remarks h
  obtain ⟨hr, hp⟩ := List.append_eq_nil_iff.1 hremarks
  exact ⟨hr, hp, hsuffix⟩

/-- remarks stay -/
theorem Step.remarks_eq_nil {r r' : Reader} (h : Step r r') (hr' : r'.remarks = []) : r.remarks = [] := by
  cases h with
  | arm s hr => exact hr'
  | close s g outer hr ho => exact (addAtom_remarks hr').1
  | opens s capturing name size hr hg => exact hr'
  | whole s p hr hg => exact (addPiece_remarks hr').1
  | atom c s hr hbar hclose hopen => exact (addPiece_remarks hr').1

/-! ## Mirrors -/

/-- the same open groups and the same expression at hand, on top of `base` and after the arms `arms` -/
inductive Stacked (arms : List Node) (base : List OpenGroup) :
    List OpenGroup → Branches → List OpenGroup → Branches → Prop where
  | bottom (b : Branches) : Stacked arms base [] b base ⟨arms ++ b.arms, b.term⟩
  | group (g g' : OpenGroup) (b : Branches) {opened opened' : List OpenGroup}
    (h : Stacked arms base opened g.outer opened' g'.outer) (hcapturing : g'.capturing = g.capturing)
    (hname : g'.name = g.name) : Stacked arms base (g :: opened) b (g' :: opened') b

theorem Stacked.start (arms : List Node) (base : List OpenGroup) : Stacked arms base [] ⟨[], []⟩ base ⟨arms, []⟩ := by
  simpa using Stacked.bottom (⟨[], []⟩ : Branches)

theorem Stacked.push {arms : List Node} {base o o' : List OpenGroup} {b b' : Branches} (h : Stacked arms base o b o' b')
    (l : List Node) : Stacked arms base o (b.push l) o' (b'.push l) := by
  cases h with
  | bottom b => exact .bottom (b.push l)
  | group g g' b h hcapturing hname => exact .group g g' (b.push l) h hcapturing hname

theorem Stacked.nextArm {arms : List Node} {base o o' : List OpenGroup} {b b' : Branches}
    (h : Stacked arms base o b o' b') : Stacked arms base o b.nextArm o' b'.nextArm := by
  cases h with
  | bottom b =>
    have hb : (⟨arms ++ b.arms, b.term⟩ : Branches).nextArm = ⟨arms ++ b.nextArm.arms, b.nextArm.term⟩ := by
      simp [Branches.nextArm]
    rw [hb]
    exact .bottom b.nextArm
  | group g g' b h hcapturing hname => exact .group g g' b.nextArm h hcapturing hname

/-- `r'` reads inside a larger pattern what `r` reads alone, without remarks so far; `post` follows -/
structure Mirrors (arms : List Node) (base : List OpenGroup) (post : List Char) (r r' : Reader) : Prop where
  rest : r'.rest = r.rest ++ post
  flags : r'.flags = r.flags
  clean : r.remarks = []
  clean' : r'.remarks = []
  stack : Stacked arms base r.opened r.here r'.opened r'.here

section Mirror

variable {arms : List Node} {base : List OpenGroup} {post : List Char} {r r' : Reader}

theorem Mirrors.addAtom (hp : Boundary post) (h : Mirrors arms base post r r') {x : Node}
    (hx : (r.addAtom x).remarks = []) :
    Mirrors arms base post (r.addAtom x) (r'.addAtom x) := by
  obtain ⟨hrest, hflags, hclean, hclean', hstack⟩ := h
  have hsuffix : suffix r'.rest = suffix r.rest := by
    rw [hrest]
    exact suffix_append r.rest hp
  rw [addAtom_eq (addAtom_remarks hx).2, addAtom_eq (by rw [hsuffix]; exact (addAtom_remarks hx).2), hsuffix]
  refine ⟨?_, hflags, hclean, hclean', hstack.push _⟩
  show r'.rest.drop _ = r.rest.drop _ ++ post
  rw [hrest, List.drop_append_of_le_length (suffix_size_le r.rest)]

theorem Mirrors.addPiece (hp : Boundary post) (h : Mirrors arms base post r r') {p : Piece}
    (hsize : p.size ≤ r.rest.length) (hx : (r.addPiece p).remarks = []) :
    Mirrors arms base post (r.addPiece p) (r'.addPiece p) := by
  obtain ⟨hrest, hflags, hclean, hclean', hstack⟩ := h
  have hremarks := (addPiece_remarks hx).2.1
  have hdrop : r'.rest.drop p.size = r.rest.drop p.size ++ post := by
    rw [hrest, List.drop_append_of_le_length hsize]
  have hpiece : Mirrors arms base post ({ r with flags := p.flags, remarks := r.remarks ++ p.remarks }.advance p.size)
      ({ r' with flags := p.flags, remarks := r'.remarks ++ p.remarks }.advance p.size) :=
    ⟨hdrop, rfl, by simp [advance, hclean, hremarks], by simp [advance, hclean', hremarks], hstack⟩
  exact hpiece.addAtom hp hx

/-- **A mirror makes the steps of the reader it mirrors**, as long as there are no remarks. -/
theorem Mirrors.step (hp : Boundary post) (h : Mirrors arms base post r r') {r₁ : Reader} (hs : Step r r₁)
    (hr₁ : r₁.remarks = []) : ∃ r₁', Step r' r₁' ∧ Mirrors arms base post r₁ r₁' := by
  have h' := h
  obtain ⟨hrest, hflags, hclean, hclean', hstack⟩ := h'
  cases hs with
  | arm s hr =>
    rw [hr] at hrest
    refine ⟨_, .arm (s ++ post) hrest, ?_⟩
    refine ⟨?_, hflags, hclean, hclean', hstack.nextArm⟩
    show r'.rest.drop 1 = r.rest.drop 1 ++ post
    rw [hrest, hr]
    rfl
  | close s g outer hr ho =>
    rw [hr] at hrest
    rw [ho] at hstack
    generalize hhere : r.here = b at hstack
    generalize hopened' : r'.opened = o' at hstack
    generalize hhere' : r'.here = b' at hstack
    cases hstack with
    | group g g' b hstack hcapturing hname =>
      refine ⟨_, .close (s ++ post) g' _ hrest hopened', ?_⟩
      have hdrop : r'.rest.drop 1 = r.rest.drop 1 ++ post := by
        rw [hrest, hr]
        rfl
      have hbefore : Mirrors arms base post ({ r with opened := outer, here := g.outer }.advance 1)
          ({ r' with opened := _, here := g'.outer }.advance 1) := ⟨hdrop, hflags, hclean, hclean', hstack⟩
      rw [hcapturing, hname, hhere', ← hhere]
      exact hbefore.addAtom hp hr₁
  | opens s capturing name size hr hg =>
    have hsize := groupStart_within r.flags r.pos s
    rw [← hr, hg, ← List.length_cons, ← hr] at hsize
    have hg' : groupStart r'.flags r'.pos r'.rest = .opens capturing name size := by
      rw [hrest, hflags, hr, List.cons_append, ← hg, hr]
      exact groupStart_append r'.pos hp (by rw [← hr, hg]; simp)
    rw [hr] at hrest
    refine ⟨_, .opens (s ++ post) capturing name size hrest hg', ?_⟩
    refine ⟨?_, hflags, hclean, hclean', .group _ _ _ hstack rfl rfl⟩
    show r'.rest.drop size = r.rest.drop size ++ post
    rw [h.rest, List.drop_append_of_le_length hsize.2]
  | whole s p hr hg =>
    have hsize := groupStart_within r.flags r.pos s
    rw [← hr, hg, ← List.length_cons, ← hr] at hsize
    have hremarks := (addPiece_remarks hr₁).2.1
    have hg' : groupStart r'.flags r'.pos r'.rest = .whole p := by
      rw [hrest, hflags, hr, List.cons_append, ← hg, hr]
      refine groupStart_append r'.pos hp fun p' hp' => ?_
      rw [← hr, hg] at hp'
      exact GroupStart.whole.inj hp' ▸ hremarks
    rw [hr] at hrest
    exact ⟨_, .whole (s ++ post) p hrest hg', h.addPiece hp hsize.size_le hr₁⟩
  | atom c s hr hbar hclose hopen =>
    have hsize := (atomPiece_within r.flags r.pos c s hbar hclose hopen).size_le
    rw [← List.length_cons, ← hr] at hsize
    have hpiece : atomPiece r'.flags r'.pos c (s ++ post) = atomPiece r.flags r.pos c s := by
      rw [hflags]
      exact atomPiece_append (addPiece_remarks hr₁).2.1 r'.pos hp
    rw [hr] at hrest
    refine ⟨_, .atom c (s ++ post) hrest hbar hclose hopen, ?_⟩
    rw [hpiece]
    exact h.addPiece hp hsize hr₁

theorem Mirrors.steps (hp : Boundary post) (h : Mirrors arms base post r r') {r₁ : Reader}
    (hs : Relation.ReflTransGen Step r r₁) (hr₁ : r₁.remarks = []) :
    ∃ r₁', Relation.ReflTransGen Step r' r₁' ∧ Mirrors arms base post r₁ r₁' := by
  induction hs with
  | refl => exact ⟨r', .refl, h⟩
  | tail _ hstep ih =>
    obtain ⟨r₂', hs', h₂⟩ := ih (hstep.remarks_eq_nil hr₁)
    obtain ⟨r₁', hstep', h₁⟩ := h₂.step hp hstep hr₁
    exact ⟨r₁', hs'.tail hstep', h₁⟩

end Mirror

/-! ## Parts -/

/-- reading `s` comes to its end without remarks, in `r` -/
structure Finishes (s : List Char) (r : Reader) : Prop where
  reached : Reachable s r
  rest : r.rest = []
  opened : r.opened = []
  clean : r.remarks = []

/-- **A part is read in every place as it is read alone**, if reading starts there without switches and factors. -/
theorem Finishes.embed {s : List Char} {r : Reader} (h : Finishes s r) {post : List Char} (hp : Boundary post)
    (r' : Reader) (hrest : r'.rest = s ++ post) (hflags : r'.flags = ⟨false, false⟩) (hclean : r'.remarks = [])
    (hterm : r'.here.term = []) :
    ∃ r₁, Relation.ReflTransGen Step r' r₁ ∧ r₁.rest = post ∧ r₁.flags = r.flags ∧ r₁.remarks = [] ∧
      r₁.opened = r'.opened ∧ r₁.here = ⟨r'.here.arms ++ r.here.arms, r.here.term⟩ := by
  have hstart : Mirrors r'.here.arms r'.opened post (start s) r' := by
    have hhere : r'.here = ⟨r'.here.arms, []⟩ := by rw [← hterm]
    have hstack := Stacked.start r'.here.arms r'.opened
    rw [← hhere] at hstack
    exact ⟨hrest, hflags, rfl, hclean, hstack⟩
  obtain ⟨r₁, hs, hmirror⟩ := hstart.steps hp h.reached h.clean
  obtain ⟨hrest₁, hflags₁, -, hclean₁, hstack⟩ := hmirror
  refine ⟨r₁, hs, by rw [hrest₁, h.rest, List.nil_append], hflags₁, hclean₁, ?_⟩
  rw [h.opened] at hstack
  generalize r₁.opened = opened₁ at hstack ⊢
  generalize r₁.here = here₁ at hstack ⊢
  cases hstack with
  | bottom b => exact ⟨rfl, rfl⟩

end Reader

end MatcherGen
