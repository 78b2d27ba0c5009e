/-
What is left over is inert. Reading stops before the end only at a closing parenthesis that nothing opened. No look
ahead goes past that parenthesis without taking it, so the reader of the part before it makes the same steps and ends
in the same state.

Main statements:
- `atomPiece_of_append`, `groupStart_of_append`: a piece that ends before a boundary is read from what stands before it;
- `Reader.Step.of_append`: a step that leaves the boundary alone is a step of the reader without it;
- `leftover_is_inert`: the consumed part is read alone as it was read, and what is left over starts with a parenthesis.
-/
import MatcherGen.Proofs.Composition

namespace MatcherGen

/-! ## Texts -/

/-- a front that is not longer than the first part is a front of it -/
theorem front_of_append {s post front r : List Char} (h : s ++ post = front ++ r) (hle : front.length ≤ s.length) :
    ∃ t, s = front ++ t ∧ r = t ++ post := by
  rcases List.append_eq_append_iff.1 h with ⟨x, hfront, hpost⟩ | ⟨t, hs, hr⟩
  · have hx : x = [] := by
      rw [hfront, List.length_append] at hle
      exact List.eq_nil_of_length_eq_zero (by omega)
    subst hx
    exact ⟨[], by simpa using hfront.symm, by simpa using hpost.symm⟩
  · exact ⟨t, hs, hr⟩

/-- the characters up to the first that fails the test -/
theorem exists_split {p : Char → Bool} {l : List Char} {c : Char} (hc : c ∈ l) (hpc : p c = false) :
    ∃ run x y, l = run ++ x :: y ∧ (∀ d ∈ run, p d = true) ∧ p x = false := by
  induction l with
  | nil => exact absurd hc List.not_mem_nil
  | cons d r ih =>
    cases hd : p d with
    | false => exact ⟨[], d, r, rfl, by simp, hd⟩
    | true =>
      have hmem : c ∈ r := by
        rcases List.mem_cons.1 hc with rfl | hmem
        · rw [hd] at hpc
          exact absurd hpc (by simp)
        · exact hmem
      obtain ⟨run, x, y, rfl, hrun, hx⟩ := ih hmem
      refine ⟨d :: run, x, y, rfl, fun e he => ?_, hx⟩
      rcases List.mem_cons.1 he with rfl | he
      · exact hd
      · exact hrun e he

/-- the same behind a front, with a rest that changes nothing -/
theorem exists_split_drop {p : Char → Bool} {s : List Char} {skip : Nat} {c : Char} (hc : c ∈ s.drop skip)
    (hpc : p c = false) (post : List Char) :
    ∃ run x y, s.drop skip = run ++ x :: y ∧ (s ++ post).drop skip = run ++ x :: (y ++ post) ∧
      (∀ d ∈ run, p d = true) ∧ p x = false := by
  have hle : skip ≤ s.length := by
    by_contra hlt
    rw [List.drop_eq_nil_of_le (by omega)] at hc
    exact absurd hc List.not_mem_nil
  obtain ⟨run, x, y, hsplit, hrun, hx⟩ := exists_split hc hpc
  refine ⟨run, x, y, hsplit, ?_, hrun, hx⟩
  rw [List.drop_append_of_le_length hle, hsplit, List.append_assoc, List.cons_append]

/-! ## Pieces -/

section Pieces

variable {post : List Char}

theorem sizeThrough_pos (close : Char) {s : List Char} (hs : s ≠ []) : 0 < sizeThrough close s := by
  cases s with
  | nil => exact absurd rfl hs
  | cons c r =>
    simp only [sizeThrough]
    split_ifs <;> omega

theorem sizeThrough_of_append (close : Char) (hne : post ≠ []) (s : List Char)
    (h : sizeThrough close (s ++ post) ≤ s.length) : sizeThrough close s = sizeThrough close (s ++ post) := by
  induction s with
  | nil =>
    have hpos := sizeThrough_pos close hne
    exact absurd h (by simpa using Nat.pos_iff_ne_zero.1 hpos)
  | cons c r ih =>
    simp only [List.cons_append, sizeThrough, List.length_cons] at h ⊢
    split_ifs at h ⊢ with hc
    · rfl
    · rw [ih (by omega)]

theorem argumentSize_of_append (opener close : Char) (hne : post ≠ []) (s : List Char)
    (h : argumentSize opener close (s ++ post) ≤ s.length) :
    argumentSize opener close s = argumentSize opener close (s ++ post) := by
  cases s with
  | nil =>
    obtain ⟨c, t, rfl⟩ := List.exists_cons_of_ne_nil hne
    have hpos := sizeThrough_pos close hne
    simp only [List.nil_append, argumentSize, List.length_nil] at h
    split_ifs at h <;> omega
  | cons c r =>
    simp only [List.cons_append, argumentSize] at h ⊢
    split_ifs at h ⊢ with hc
    · exact sizeThrough_of_append close hne (c :: r) h
    · rfl

variable (hp : Boundary post) (hne : post ≠ [])
include hp hne

theorem escapePiece_of_append (flags : Flags) (pos : Nat) (s : List Char)
    (h : (escapePiece flags pos (s ++ post)).size ≤ s.length + 1) :
    escapePiece flags pos s = escapePiece flags pos (s ++ post) := by
  cases s with
  | nil =>
    -- a backslash before the boundary would take its first character
    obtain ⟨c, t, rfl⟩ := List.exists_cons_of_ne_nil hne
    have hsize : (escapePiece flags pos (c :: t)).size = 2 := by
      rcases hp c t rfl with rfl | rfl | rfl <;> rfl
    rw [List.nil_append, hsize] at h
    exact absurd h (by simp)
  | cons c r =>
    have htext : ∀ n, n ≤ (c :: r).length + 1 → ('\\' :: (c :: r ++ post)).take n = ('\\' :: c :: r).take n := by
      intro n hn
      rw [← List.cons_append]
      exact List.take_append_of_le_length hn
    have hdigits : (r ++ post).takeWhile isAsciiDigit = r.takeWhile isAsciiDigit :=
      takeWhile_append_boundary (fun c t h => hp.not_digit h) r
    have harg : ∀ opener close, 2 + argumentSize opener close (r ++ post) ≤ (c :: r).length + 1 →
        argumentSize opener close r = argumentSize opener close (r ++ post) := by
      intro opener close hle
      refine argumentSize_of_append opener close hne r ?_
      rw [List.length_cons] at hle
      omega
    unfold escapePiece at h ⊢
    rw [List.cons_append] at h htext ⊢
    dsimp only at h ⊢
    split_ifs at h ⊢
    · rfl
    · rfl
    · rfl
    · rw [htext 2 h]
    · rw [harg _ _ h, htext (2 + _) h]
    · rw [harg _ _ h, htext (2 + _) h]
    · rw [hdigits] at h ⊢
      rw [htext (2 + _) h]
    · rfl

theorem classPiece_of_append (flags : Flags) (pos : Nat) (s : List Char)
    (h : (classPiece flags pos (s ++ post)).size ≤ s.length + 1) :
    classPiece flags pos s = classPiece flags pos (s ++ post) := by
  by_cases hneg : ∃ r, s = '^' :: r
  · obtain ⟨r, rfl⟩ := hneg
    rw [List.cons_append, classPiece_negated] at h ⊢
    rw [classPiece_negated, classBody_of_append _ _ r rfl hne]
    rw [List.length_cons] at h
    exact h.trans (by dsimp only; omega)
  · have hplain : ∀ r, s ≠ '^' :: r := fun r hr => hneg ⟨r, hr⟩
    have hplain' : ∀ r, s ++ post ≠ '^' :: r := by
      intro r hr
      cases s with
      | nil => exact absurd (hp '^' r hr) (by decide)
      | cons c t =>
        obtain ⟨rfl, -⟩ := List.cons.inj hr
        exact hplain t rfl
    rw [classPiece_plain flags pos hplain'] at h ⊢
    rw [classPiece_plain flags pos hplain, classBody_of_append _ _ s rfl hne]
    exact h.trans (by dsimp only; omega)

/-- **An atom that ends before a boundary is read from what stands before it.** -/
theorem atomPiece_of_append (flags : Flags) (pos : Nat) (c : Char) (s : List Char)
    (h : (atomPiece flags pos c (s ++ post)).size ≤ s.length + 1) :
    atomPiece flags pos c s = atomPiece flags pos c (s ++ post) := by
  have hrun : runSize (c :: (s ++ post)) = runSize (c :: s) := by
    rw [← List.cons_append]
    exact runSize_append (c :: s) hp
  have htake : (c :: (s ++ post)).take (runSize (c :: s)) = (c :: s).take (runSize (c :: s)) := by
    rw [← List.cons_append]
    exact List.take_append_of_le_length (runSize_le (c :: s))
  unfold atomPiece at h ⊢
  dsimp only at h ⊢
  split_ifs at h ⊢
  · rfl
  · rfl
  · rfl
  · exact classPiece_of_append hp hne flags pos s h
  · exact escapePiece_of_append hp hne flags pos s h
  · rfl
  · rfl
  · rw [hrun, htake]

end Pieces

/-! ## Groups -/

section Groups

variable {post : List Char} (hne : post ≠ [])

include hne in
/-- a group that ends before the rest is skipped alike without it, and it has a closing parenthesis -/
theorem balanced_of_append (depth : Nat) (s : List Char) (h : (balanced depth (s ++ post)).1 ≤ s.length) :
    balanced depth s = balanced depth (s ++ post) ∧ ')' ∈ s := by
  fun_induction balanced depth s with
  | case1 depth =>
    have hpos := (balanced_within depth post).2 hne
    exact absurd h (by simpa using Nat.pos_iff_ne_zero.1 hpos)
  | case2 depth =>
    obtain ⟨c, t, rfl⟩ := List.exists_cons_of_ne_nil hne
    exact absurd h (by simp [balanced])
  | case3 _ _ _ _ _ heq ih | case4 _ _ _ _ heq ih =>
    simp only [List.cons_append, balanced, List.length_cons] at h ⊢
    obtain ⟨hr, hmem⟩ := ih (by omega)
    exact ⟨by rw [← hr, heq], by simp [hmem]⟩
  | case5 depth r hd => exact ⟨by simp [balanced, hd], by simp⟩
  | case6 depth r hd n ok heq ih =>
    simp only [List.cons_append, balanced, List.length_cons, if_neg hd] at h ⊢
    obtain ⟨hr, -⟩ := ih (by omega)
    exact ⟨by rw [← hr, heq], by simp⟩
  | case7 depth c r hlast hmore hopen hclose n ok heq ih =>
    have hescape : c ≠ '\\' := ne_backslash hlast hmore
    have hbalanced : balanced depth (c :: (r ++ post)) =
        ((balanced depth (r ++ post)).1 + 1, (balanced depth (r ++ post)).2) := by
      simp [balanced, hescape]
    rw [List.cons_append, hbalanced] at h ⊢
    simp only [List.length_cons] at h
    obtain ⟨hr, hmem⟩ := ih (by omega)
    exact ⟨by rw [← hr, heq], List.mem_cons_of_mem c hmem⟩

/-- a named group reads alike up to a parenthesis -/
theorem namedGroup_of_append (flags : Flags) (pos skip : Nat) {s : List Char} (hmem : ')' ∈ s.drop skip)
    (hskip : skippedGroup flags pos .groupName s = skippedGroup flags pos .groupName (s ++ post)) :
    namedGroup flags pos skip s = namedGroup flags pos skip (s ++ post) := by
  have hclose : isNameChar ')' = false := by decide
  obtain ⟨name, x, y, hsplit, hsplit', hname, hx⟩ := exists_split_drop hmem hclose post
  unfold namedGroup
  simp only [← List.drop_drop, hsplit, hsplit', takeWhile_append_of_all hname hx, List.drop_left, hskip]
  cases name with
  | nil => rfl
  | cons c l =>
    by_cases hbracket : x = '>'
    · subst hbracket; rfl
    · simp [hbracket]

/-- a flag group reads alike up to a parenthesis -/
theorem flagGroup_of_append (flags : Flags) (pos : Nat) {s : List Char} (hmem : ')' ∈ s.drop 2)
    (hskip : ∀ problem, skippedGroup flags pos problem s = skippedGroup flags pos problem (s ++ post)) :
    flagGroup flags pos s = flagGroup flags pos (s ++ post) := by
  have hclose : (isLetter ')' || ')' == '-') = false := by decide
  obtain ⟨letters, x, y, hsplit, hsplit', hletters, hx⟩ :=
    exists_split_drop (p := fun c => isLetter c || c == '-') hmem hclose post
  unfold flagGroup
  simp only [← List.drop_drop, hsplit, hsplit', takeWhile_append_of_all hletters hx, List.drop_left, hskip]
  cases letters with
  | nil => rfl
  | cons c l =>
    by_cases hcolon : x = ':'
    · subst hcolon; rfl
    · by_cases hparen : x = ')'
      · subst hparen; rfl
      · simp [hcolon, hparen]

/-- a group that is skipped before the rest starts alike without it -/
theorem groupStart_of_mem (flags : Flags) (pos : Nat) {s : List Char} (hmem : ')' ∈ s)
    (hskip : ∀ problem,
      skippedGroup flags pos problem ('(' :: s) = skippedGroup flags pos problem ('(' :: (s ++ post))) :
    groupStart flags pos ('(' :: s) = groupStart flags pos ('(' :: (s ++ post)) := by
  have hnamed : ∀ skip, ')' ∈ ('(' :: s).drop skip →
      namedGroup flags pos skip ('(' :: s) = namedGroup flags pos skip ('(' :: (s ++ post)) :=
    fun skip h => namedGroup_of_append flags pos skip h (hskip _)
  have hflags : ')' ∈ ('(' :: s).drop 2 → flagGroup flags pos ('(' :: s) = flagGroup flags pos ('(' :: (s ++ post)) :=
    fun h => flagGroup_of_append flags pos h hskip
  obtain ⟨c, r, rfl⟩ := List.exists_cons_of_ne_nil (List.ne_nil_of_mem hmem)
  by_cases hc : c = '?'
  case neg => simp [groupStart, hc]
  subst hc
  -- the parenthesis stands behind every mark that tells the groups apart
  have hr : ')' ∈ r := by simpa using hmem
  obtain ⟨d, t, rfl⟩ := List.exists_cons_of_ne_nil (List.ne_nil_of_mem hr)
  by_cases hnon : d = ':'
  · subst hnon; rfl
  by_cases hahead : d = '='
  · subst hahead; exact congrArg GroupStart.whole (hskip _)
  by_cases hnotAhead : d = '!'
  · subst hnotAhead; exact congrArg GroupStart.whole (hskip _)
  by_cases hangle : d = '<'
  · subst hangle
    have ht : ')' ∈ t := by simpa using hr
    obtain ⟨e, u, rfl⟩ := List.exists_cons_of_ne_nil (List.ne_nil_of_mem ht)
    by_cases hbehind : e = '='
    · subst hbehind; exact congrArg GroupStart.whole (hskip _)
    by_cases hnotBehind : e = '!'
    · subst hnotBehind; exact congrArg GroupStart.whole (hskip _)
    simpa [groupStart, hbehind, hnotBehind] using hnamed 3 ht
  by_cases hp : d = 'P'
  · subst hp
    have ht : ')' ∈ t := by simpa using hr
    obtain ⟨e, u, rfl⟩ := List.exists_cons_of_ne_nil (List.ne_nil_of_mem ht)
    by_cases hname : e = '<'
    · subst hname
      exact hnamed 4 (by simpa using ht)
    simpa [groupStart, hname] using hflags hr
  simpa [groupStart, hnon, hahead, hnotAhead, hangle, hp] using hflags hr

/-- the number of characters that the front of a group or the whole group takes -/
def GroupStart.size : GroupStart → Nat
  | .opens _ _ size => size
  | .whole p => p.size

include hne in
/-- **What a parenthesis starts before a boundary** is read from what stands before it. -/
theorem groupStart_of_append (flags : Flags) (pos : Nat) (s : List Char)
    (h : (groupStart flags pos ('(' :: (s ++ post))).size ≤ s.length + 1) :
    groupStart flags pos ('(' :: s) = groupStart flags pos ('(' :: (s ++ post)) := by
  cases hg : groupStart flags pos ('(' :: (s ++ post)) with
  | opens capturing name size =>
    rw [hg] at h
    obtain ⟨front, r, hs, hfront, hsize, hplain⟩ := groupStart_opens_iff.1 hg
    obtain ⟨t, ht, rfl⟩ := front_of_append (s := '(' :: s) hs (hsize ▸ h)
    refine groupStart_opens_iff.2 ⟨front, t, ht, hfront, hsize, fun hf u hu => ?_⟩
    rw [hu] at hplain
    exact hplain hf (u ++ post) rfl
  | whole p =>
    rw [hg] at h
    rcases groupStart_whole hg with ⟨problem, -, rfl⟩ | ⟨letters, r, hs, hletters, hall, rfl⟩
    · have hbalanced := balanced_of_append hne 0 ('(' :: s) h
      rw [← hg]
      refine groupStart_of_mem flags pos (by simpa using hbalanced.2) fun problem => ?_
      have htake : ('(' :: s ++ post).take (balanced 0 ('(' :: s ++ post)).1 =
          ('(' :: s).take (balanced 0 ('(' :: s ++ post)).1 := List.take_append_of_le_length h
      rw [← List.cons_append]
      unfold skippedGroup
      simp only [htake, hbalanced.1]
    · have hsize : 2 + letters.length + 1 ≤ s.length + 1 := h
      have hfront : s ++ post = ('?' :: letters ++ [')']) ++ r := by simpa using hs
      obtain ⟨t, rfl, -⟩ := front_of_append hfront (by simp; omega)
      simpa using groupStart_flags flags pos hletters hall t

end Groups

/-! ## Steps -/

namespace Reader

/-- the same state with more to read -/
def append (r : Reader) (post : List Char) : Reader := { r with rest := r.rest ++ post }

variable {post : List Char}

theorem advance_append (r : Reader) {n : Nat} (hn : n ≤ r.rest.length) :
    (r.append post).advance n = (r.advance n).append post := by
  simp only [append, advance, List.drop_append_of_le_length hn]

theorem addAtom_append (hp : Boundary post) (r : Reader) (x : Node) :
    (r.append post).addAtom x = (r.addAtom x).append post := by
  have hsuffix : suffix (r.append post).rest = suffix r.rest := suffix_append r.rest hp
  have hsize := suffix_size_le r.rest
  unfold addAtom
  rw [hsuffix]
  cases hs : suffix r.rest with
  | none => rfl
  | quantity q size =>
    rw [hs] at hsize
    exact advance_append { r with here := r.here.push [.rep x q] } hsize
  | malformed size =>
    rw [hs] at hsize
    have htake : (r.append post).rest.take size = r.rest.take size := List.take_append_of_le_length hsize
    simp only [htake]
    generalize Problem.malformedQuantifier (r.rest.take size) = p
    exact advance_append
      { r with here := r.here.push [x, .stub p.message], remarks := r.remarks ++ [p.at r.pos] } hsize

theorem addPiece_append (hp : Boundary post) (r : Reader) {p : Piece} (hsize : p.size ≤ r.rest.length) :
    (r.append post).addPiece p = (r.addPiece p).append post := by
  unfold addPiece
  rw [← addAtom_append hp]
  exact congrArg (addAtom · p.node)
    (advance_append { r with flags := p.flags, remarks := r.remarks ++ p.remarks } hsize)

/-- a piece that leaves the rest alone ends before it -/
theorem size_le_of_addPiece {r : Reader} {p : Piece} (hne : post ≠ [])
    (h : post.length ≤ ((r.append post).addPiece p).rest.length) : p.size ≤ r.rest.length := by
  have hrest : ((r.append post).addPiece p).rest = ((r.rest ++ post).drop p.size).drop _ :=
    (addAtom_takes _ p.node).rest
  have hpos := List.length_pos_of_ne_nil hne
  rw [hrest, List.length_drop, List.length_drop, List.length_append] at h
  omega

/-- **A step that leaves the rest alone** is a step of the reader without it. -/
theorem Step.of_append (hp : Boundary post) (hne : post ≠ []) {r r' : Reader} (h : Step (r.append post) r')
    (hleft : post.length ≤ r'.rest.length) : ∃ r₁, Step r r₁ ∧ r' = r₁.append post := by
  -- every step takes a character, so there is one before the rest
  obtain ⟨c, s, hrest⟩ : ∃ c s, r.rest = c :: s := by
    refine List.exists_cons_of_ne_nil fun hnil => ?_
    obtain ⟨n, hn, ht⟩ := h.takes
    have hle := ht.le
    rw [ht.rest, List.length_drop] at hleft
    simp only [append, hnil, List.nil_append] at hleft hle
    omega
  have hlen : r.rest.length = s.length + 1 := by rw [hrest, List.length_cons]
  have happ : (r.append post).rest = c :: (s ++ post) := by simp [append, hrest]
  cases h with
  | arm t hr =>
    obtain ⟨rfl, -⟩ := List.cons.inj (happ.symm.trans hr)
    exact ⟨_, .arm s hrest, advance_append { r with here := r.here.nextArm } (by simp [hrest])⟩
  | close t g outer hr ho =>
    obtain ⟨rfl, -⟩ := List.cons.inj (happ.symm.trans hr)
    refine ⟨_, .close s g outer hrest ho, ?_⟩
    rw [← addAtom_append hp, ← advance_append _ (by simp [hrest])]
    rfl
  | opens t capturing name size hr hg =>
    obtain ⟨rfl, -⟩ := List.cons.inj (happ.symm.trans hr)
    have hsize : size ≤ r.rest.length := by
      have hpos := List.length_pos_of_ne_nil hne
      simp only [openGroup, advance, append, List.length_drop, List.length_append] at hleft
      omega
    have hg' : groupStart r.flags r.pos ('(' :: (s ++ post)) = .opens capturing name size := happ ▸ hg
    refine ⟨_, .opens s capturing name size hrest ?_, ?_⟩
    · rw [hrest, groupStart_of_append hne _ _ s (by rw [hg']; exact hsize.trans_eq hlen), hg']
    · exact advance_append { r with opened := ⟨r.pos, capturing, name, r.here⟩ :: r.opened, here := ⟨[], []⟩ } hsize
  | whole t p hr hg =>
    obtain ⟨rfl, -⟩ := List.cons.inj (happ.symm.trans hr)
    have hsize := size_le_of_addPiece hne hleft
    have hg' : groupStart r.flags r.pos ('(' :: (s ++ post)) = .whole p := happ ▸ hg
    refine ⟨_, .whole s p hrest ?_, addPiece_append hp r hsize⟩
    rw [hrest, groupStart_of_append hne _ _ s (by rw [hg']; exact hsize.trans_eq hlen), hg']
  | atom d t hr hbar hclose hopen =>
    obtain ⟨rfl, rfl⟩ := List.cons.inj (happ.symm.trans hr)
    have hsize := size_le_of_addPiece hne hleft
    have hpiece := atomPiece_of_append hp hne r.flags r.pos c s (hsize.trans_eq hlen)
    refine ⟨_, .atom c s hrest hbar hclose hopen, ?_⟩
    rw [hpiece]
    exact addPiece_append hp r hsize

/-- **A run that leaves the rest alone** is a run of the reader without it. -/
theorem steps_of_append (hp : Boundary post) (hne : post ≠ []) {r r' : Reader}
    (h : Relation.ReflTransGen Step (r.append post) r') (hleft : post.length ≤ r'.rest.length) :
    ∃ r₁, Relation.ReflTransGen Step r r₁ ∧ r' = r₁.append post := by
  induction h with
  | refl => exact ⟨r, .refl, rfl⟩
  | tail _ hstep ih =>
    obtain ⟨n, -, ht⟩ := hstep.takes
    have hlen := congrArg List.length ht.rest
    rw [List.length_drop] at hlen
    obtain ⟨r₁, hsteps, rfl⟩ := ih (by omega)
    obtain ⟨r₂, hlast, rfl⟩ := hstep.of_append hp hne hleft
    exact ⟨r₂, hsteps.tail hlast, rfl⟩

/-- reading the part before the place where reading stops ends in the same state -/
theorem run_take_pos {s : List Char} {r : Reader} (hr : (start s).run s.length = r) :
    (start (s.take r.pos)).run (s.take r.pos).length = { r with rest := [] } := by
  have hreached : Reachable s r := hr ▸ run_reachable s s.length
  have hstop : r.step = none := hr ▸ run_stops s.length (start s) (le_refl _)
  have hinside := hreached.inside
  rcases (step_eq_none_iff r).1 hstop with hend | ⟨t, hrest, -⟩
  · have hpos : s.length ≤ r.pos := List.drop_eq_nil_iff.1 (hinside.rest.symm.trans hend)
    rw [List.take_of_length_le hpos, ← hend, hr]
  · have hp : Boundary (')' :: t) := Boundary.cons (.inr (.inl rfl)) t
    have hsplit : s.take r.pos ++ ')' :: t = s := by
      rw [← hrest, hinside.rest, List.take_append_drop]
    have hstart : (start (s.take r.pos)).append (')' :: t) = start s := by
      rw [append, start, hsplit]
      rfl
    have hsteps : Relation.ReflTransGen Step ((start (s.take r.pos)).append (')' :: t)) r := by
      rw [hstart]
      exact hreached
    obtain ⟨r₁, hsteps, happ⟩ := steps_of_append hp (by simp) hsteps (by rw [hrest])
    have hnil : r₁.rest = [] := by
      have hself : r₁.rest ++ ')' :: t = ')' :: t := (congrArg Reader.rest happ).symm.trans hrest
      exact List.append_left_eq_self.1 hself
    have hr₁ : r₁ = { r with rest := [] } := by
      rw [happ, append, ← hnil]
    rw [← hr₁]
    exact run_eq_of_steps hsteps ((step_eq_none_iff r₁).2 (.inl hnil)) (le_refl _)

end Reader

/-! ## Readings -/

namespace Reading

/-- what is left over is what the reader stops before -/
theorem leftover_eq_rest (pattern : Text) :
    (ofPattern pattern).leftover = ((Reader.start pattern.chars).run pattern.chars.length).rest :=
  (Reader.run_reachable pattern.chars pattern.chars.length).inside.rest.symm

theorem complete_iff (pattern : Text) : (ofPattern pattern).complete = true ↔ (ofPattern pattern).leftover = [] := by
  rw [leftover, List.drop_eq_nil_iff, complete, decide_eq_true_eq]
  rfl

/-- reading stops at the end or at a closing parenthesis -/
theorem leftover_cases (pattern : Text) :
    (ofPattern pattern).leftover = [] ∨ ∃ t, (ofPattern pattern).leftover = ')' :: t := by
  rw [leftover_eq_rest]
  have hstop := Reader.run_stops pattern.chars.length (Reader.start pattern.chars) (le_refl _)
  rcases (Reader.step_eq_none_iff _).1 hstop with hend | ⟨t, hrest, -⟩
  · exact .inl hend
  · exact .inr ⟨t, hrest⟩

/-- the reading of the consumed part differs only in what was there to read -/
theorem ofPattern_take (pattern : Text) :
    let r := ofPattern pattern
    ofPattern (pattern.take r.offset) =
      { r with pattern := pattern.take r.offset, length := (pattern.take r.offset).length } := by
  intro r
  have hchars : Text.chars (pattern.take r.offset) = pattern.chars.take r.offset := List.map_take
  have hlength : (pattern.take r.offset).length = (pattern.chars.take r.offset).length := by
    rw [← hchars, Text.length_chars]
  have hrun : (Reader.start (pattern.chars.take r.offset)).run (pattern.chars.take r.offset).length =
      { (Reader.start pattern.chars).run pattern.chars.length with rest := [] } := Reader.run_take_pos rfl
  rw [hlength]
  simp only [ofPattern, hchars, hrun]
  rfl

end Reading

/-- **What is left over is inert.** The part that reading consumed and what is left over make up the pattern: they are
its characters, and its text if it has no stray byte. Reading is complete exactly if nothing is left over; otherwise a
closing parenthesis stands at its front. The consumed part is read alone to its end, with the same tree, diagnostics and
switches. -/
theorem leftover_is_inert (pattern : Text) :
    let r := Reading.ofPattern pattern
    let consumed := Reading.ofPattern (pattern.take r.offset)
    pattern.chars.take r.offset ++ r.leftover = pattern.chars ∧
    (∀ s, pattern = Text.ofChars s → pattern.take r.offset ++ Text.ofChars r.leftover = pattern) ∧
    (r.complete = true ↔ r.leftover = []) ∧
    (r.complete = false → ∃ t, r.leftover = ')' :: t) ∧
    consumed.complete = true ∧ consumed.leftover = [] ∧
    consumed.root = r.root ∧ consumed.diagnostics = r.diagnostics ∧ consumed.flags = r.flags := by
  intro r consumed
  have hconsumed : consumed =
      { r with pattern := pattern.take r.offset, length := (pattern.take r.offset).length } :=
    Reading.ofPattern_take pattern
  have hcomplete : consumed.complete = true := by
    rw [hconsumed]
    exact decide_eq_true (List.length_take_le _ _)
  refine ⟨List.take_append_drop _ _, ?_, Reading.complete_iff pattern, fun h => ?_, hcomplete, ?_, ?_⟩
  · rintro s rfl
    have hleftover : r.leftover = s.drop r.offset := by
      rw [Reading.leftover]
      exact congrArg (List.drop r.offset) (Text.chars_ofChars s)
    rw [hleftover, Text.ofChars, Text.ofChars, List.map_drop, List.take_append_drop]
  · rcases Reading.leftover_cases pattern with hend | hparen
    · rw [(Reading.complete_iff pattern).2 hend] at h
      exact absurd h (by simp)
    · exact hparen
  · exact (Reading.complete_iff _).1 hcomplete
  · rw [hconsumed]
    exact ⟨rfl, rfl, rfl⟩

/-- a malformed quantifier, parentheses in a class and behind a backslash, and one that nothing opened:
`x{2(?:[)]|\)y)z)w` -/
def overclosedPattern : List Char :=
  ['x', '{', '2', '(', '?', ':', '[', ')', ']', '|', '\\', ')', 'y', ')', 'z', ')', 'w']

/-- reading the overclosed pattern stops at its last parenthesis; the fifteen characters before it are read alike -/
theorem overclosedPattern_leftover :
    let pattern := Text.ofChars overclosedPattern
    let r := Reading.ofPattern pattern
    let consumed := Reading.ofPattern (pattern.take r.offset)
    r.offset = 15 ∧ r.complete = false ∧ (∃ t, r.leftover = ')' :: t) ∧
    pattern.take r.offset ++ Text.ofChars r.leftover = pattern ∧ r.diagnostics.length = 1 ∧
    consumed.complete = true ∧ consumed.root = r.root ∧ consumed.diagnostics = r.diagnostics := by
  intro pattern r consumed
  obtain ⟨-, htext, -, hparen, hcomplete, -, hroot, hdiagnostics, -⟩ := leftover_is_inert pattern
  have hincomplete : r.complete = false := by decide
  have hparts := htext overclosedPattern rfl
  exact ⟨by decide, hincomplete, hparen hincomplete, hparts, by decide, hcomplete, hroot, hdiagnostics⟩

end MatcherGen
