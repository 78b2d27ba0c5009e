/-
Reading stays inside the pattern. Every piece takes at least one character and none that is not there, and what it
remarks on lies in what it takes; so every step of the reader moves forward inside the pattern, and reading comes to a
stop.

Main statements:
- `atomPiece_within`, `groupStart_within`, `suffix_size_le`: what is cut off the front is there;
- `Reader.Step.takes`: a step takes at least one character, and its remarks and groups start in what it takes;
- `reading_stays_inside`: reading stops, inside the pattern, with all remarks at characters of the pattern.
-/
import MatcherGen.Proofs.Classes
import MatcherGen.Proofs.ReaderSteps

namespace MatcherGen

/-! ## Pieces -/

/-- the piece takes some of the `n` characters that are there, and remarks only on what it takes -/
structure Piece.Within (p : Piece) (pos n : Nat) : Prop where
  pos_size : 0 < p.size
  size_le : p.size ≤ n
  remarks : ∀ d ∈ p.remarks, (pos : Int) ≤ d.offset ∧ d.offset < pos + p.size

theorem Piece.plain_within (flags : Flags) (node : Node) {size n : Nat} (pos : Nat) (h : 0 < size) (hn : size ≤ n) :
    (Piece.plain flags node size).Within pos n := ⟨h, hn, by simp [Piece.plain]⟩

theorem Piece.stub_within (flags : Flags) (pos : Nat) (p : Problem) {size n : Nat} (h : 0 < size) (hn : size ≤ n) :
    (Piece.stub flags pos p size).Within pos n := by
  refine ⟨h, hn, fun d hd => ?_⟩
  rw [List.mem_singleton.1 hd]
  simp only [Problem.at, Piece.stub]
  omega

theorem sizeThrough_le (close : Char) (s : List Char) : sizeThrough close s ≤ s.length := by
  induction s with
  | nil => rfl
  | cons c r ih =>
    simp only [sizeThrough, List.length_cons]
    split_ifs <;> omega

theorem argumentSize_le (opener close : Char) (s : List Char) : argumentSize opener close s ≤ s.length := by
  cases s with
  | nil => rfl
  | cons c r =>
    simp only [argumentSize]
    split_ifs
    · exact sizeThrough_le close (c :: r)
    · simp

theorem escapePiece_within (flags : Flags) (pos : Nat) (s : List Char) :
    (escapePiece flags pos s).Within pos (s.length + 1) := by
  unfold escapePiece
  cases s with
  | nil => exact Piece.stub_within flags pos _ (by omega) (by simp)
  | cons c r =>
    have hproperty := argumentSize_le '{' '}' r
    have hname := argumentSize_le '<' '>' r
    have hdigits := (List.takeWhile_prefix isAsciiDigit (l := r)).length_le
    dsimp only
    split_ifs
    all_goals
      first
      | exact Piece.plain_within flags _ pos (by omega) (by simp)
      | exact Piece.stub_within flags pos _ (by omega) (by simp only [List.length_cons]; omega)

theorem runSize_le (s : List Char) : runSize s ≤ s.length := by
  have hle := (List.takeWhile_prefix (fun c => !isMeta c) (l := s)).length_le
  unfold runSize
  dsimp only
  split
  · split_ifs <;> omega
  · exact hle

/-- a literal run is not empty if it starts with no metacharacter -/
theorem runSize_pos (c : Char) (s : List Char) (hc : isMeta c = false) : 0 < runSize (c :: s) := by
  have hpos : 0 < ((c :: s).takeWhile fun c => !isMeta c).length := by simp [hc]
  unfold runSize
  dsimp only
  split
  · split_ifs with h
    · simp only [Bool.and_eq_true, decide_eq_true_eq] at h
      omega
    · exact hpos
  · exact hpos

/-! ## Classes -/

/-- a class whose body starts after `k` characters -/
theorem ClassBody.Extends.within {b acc : ClassBody} {pos k n : Nat} (h : b.Extends acc (pos + k) n) (hk : 0 < k)
    (hsize : acc.size = k) (hremarks : acc.remarks = []) (node : Node) (flags : Flags) {m : Nat} (hm : k + n ≤ m) :
    (Piece.mk node (if b.closed then b.remarks else b.remarks ++ [Problem.unterminatedClass.at pos]) flags
      b.size).Within pos m := by
  obtain ⟨hle, hsize_le, hmore⟩ := h
  have hinside : ∀ d ∈ b.remarks, (pos : Int) ≤ d.offset ∧ d.offset < pos + b.size := by
    intro d hd
    have := (hmore d hd).resolve_left (by simp [hremarks])
    omega
  refine ⟨by show 0 < b.size; omega, by show b.size ≤ m; omega, fun d hd => ?_⟩
  dsimp only at hd ⊢
  split_ifs at hd
  · exact hinside d hd
  · rcases List.mem_append.1 hd with hd | hd
    · exact hinside d hd
    · rw [List.mem_singleton.1 hd]
      simp only [Problem.at]
      omega

theorem classPiece_within (flags : Flags) (pos : Nat) (s : List Char) :
    (classPiece flags pos s).Within pos (s.length + 1) := by
  unfold classPiece
  dsimp only
  split
  · exact (classBody_extends _ (pos + 2) _).within (by omega) rfl rfl _ flags (by simp only [List.length_cons]; omega)
  · exact (classBody_extends _ (pos + 1) _).within (by omega) rfl rfl _ flags (by omega)

/-! ## Groups -/

theorem balanced_within (depth : Nat) (s : List Char) :
    (balanced depth s).1 ≤ s.length ∧ (s ≠ [] → 0 < (balanced depth s).1) := by
  fun_induction balanced depth s with
  | case1 => simp
  | case2 => simp
  | case3 _ _ _ _ _ heq ih | case4 _ _ _ _ heq ih | case6 _ _ _ _ _ heq ih | case7 _ _ _ _ _ _ _ _ _ heq ih =>
    simp only [heq] at ih
    simp only [List.length_cons]
    exact ⟨by omega, by omega⟩
  | case5 => simp

theorem skippedGroup_within (flags : Flags) (pos : Nat) (problem : List Char → Problem) {s : List Char} (hs : s ≠ []) :
    (skippedGroup flags pos problem s).Within pos s.length := by
  obtain ⟨hle, hpos⟩ := balanced_within 0 s
  have hpos := hpos hs
  unfold skippedGroup
  refine ⟨hpos, hle, fun d hd => ?_⟩
  dsimp only at hd ⊢
  have hoffset : d.offset = pos := by
    rcases List.mem_append.1 hd with hd | hd
    · split_ifs at hd
      · exact absurd hd List.not_mem_nil
      · rw [List.mem_singleton.1 hd]; rfl
    · rw [List.mem_singleton.1 hd]; rfl
  omega

/-- what a parenthesis starts takes some of the `n` characters that are there -/
def GroupStart.Within (g : GroupStart) (pos n : Nat) : Prop :=
  match g with
  | .opens _ _ size => 0 < size ∧ size ≤ n
  | .whole p => p.Within pos n

theorem groupStart_within (flags : Flags) (pos : Nat) (s : List Char) :
    (groupStart flags pos ('(' :: s)).Within pos (s.length + 1) := by
  cases hg : groupStart flags pos ('(' :: s) with
  | opens capturing name size =>
    obtain ⟨front, r, hs, hfront, rfl, -⟩ := groupStart_opens_iff.1 hg
    have hlen : s.length + 1 = front.length + r.length := by
      rw [← List.length_append, ← hs, List.length_cons]
    have hpos : 0 < front.length := by cases hfront <;> simp
    exact ⟨hpos, by omega⟩
  | whole p =>
    rcases groupStart_whole hg with ⟨problem, -, rfl⟩ | ⟨letters, r, rfl, -, -, rfl⟩
    · exact skippedGroup_within flags pos problem (by simp)
    · exact Piece.plain_within _ _ pos (by omega) (by simp only [List.length_cons, List.length_append]; omega)

/-! ## Atoms -/

/-- the metacharacters that are not an atom of their own start a group or end a term -/
theorem isMeta_cases {c : Char} (h : isMeta c = true) :
    c ∈ ['^', '$', '.', '[', '\\', '*', '+', '?', '{', '}', ']'] ∨ c = '|' ∨ c = ')' ∨ c = '(' := by
  simp only [isMeta, decide_eq_true_eq, List.mem_cons, List.not_mem_nil, or_false] at h ⊢
  tauto

/-- what is left to the literal run is no metacharacter -/
theorem isMeta_eq_false {c : Char} (hatom : c ∉ ['^', '$', '.', '[', '\\', '*', '+', '?', '{', '}', ']']) (hbar : c ≠ '|')
    (hclose : c ≠ ')') (hopen : c ≠ '(') : isMeta c = false := by
  rw [← Bool.not_eq_true]
  intro hm
  rcases isMeta_cases hm with hm | hm | hm | hm
  · exact hatom hm
  · exact hbar hm
  · exact hclose hm
  · exact hopen hm

/-- **An atom takes at least one character**, unless the character at hand opens a group or ends a term. -/
theorem atomPiece_within (flags : Flags) (pos : Nat) (c : Char) (s : List Char) (hbar : c ≠ '|') (hclose : c ≠ ')')
    (hopen : c ≠ '(') : (atomPiece flags pos c s).Within pos (s.length + 1) := by
  unfold atomPiece
  split_ifs with h1 h2 h3 h4 h5 h6 h7
  · exact Piece.plain_within flags _ pos (by omega) (by omega)
  · exact Piece.plain_within flags _ pos (by omega) (by omega)
  · exact Piece.plain_within flags _ pos (by omega) (by omega)
  · exact classPiece_within flags pos s
  · exact escapePiece_within flags pos s
  · exact Piece.stub_within flags pos _ (by omega) (by omega)
  · exact Piece.plain_within flags _ pos (by omega) (by omega)
  · have hmeta : isMeta c = false := isMeta_eq_false (by simp_all) hbar hclose hopen
    exact Piece.plain_within flags _ pos (runSize_pos c s hmeta) (runSize_le (c :: s))

/-! ## Quantifiers -/

/-- the number of characters of a suffix -/
def Suffix.size : Suffix → Nat
  | .none => 0
  | .quantity _ n => n
  | .malformed n => n

/-- a suffix takes only characters that are there -/
theorem suffix_size_le (s : List Char) : (suffix s).size ≤ s.length := by
  cases h : suffix s with
  | none => exact Nat.zero_le _
  | quantity q size =>
    obtain ⟨text, r, rfl, _, _, _, -, ⟨⟨t, rfl⟩, -, rfl⟩ | ⟨-, -, rfl⟩⟩ := suffix_quantity_iff.1 h
    · simp only [Suffix.size, List.length_append, List.length_cons]
      omega
    · simp only [Suffix.size, List.length_append]
      omega
  | malformed size =>
    obtain ⟨r, rfl, hb⟩ := suffix_malformed h
    have hle := (braces_size r).2
    rw [hb] at hle
    exact hle

theorem suffix_malformed_pos {s : List Char} {size : Nat} (h : suffix s = .malformed size) : 0 < size := by
  obtain ⟨r, rfl, hb⟩ := suffix_malformed h
  have hpos := (braces_size r).1
  rwa [hb] at hpos

/-! ## Steps -/

namespace Reader

/-- the reader took `n` characters that were there; what is new in its remarks and open groups starts in them -/
structure Takes (r r' : Reader) (n : Nat) : Prop where
  le : n ≤ r.rest.length
  pos : r'.pos = r.pos + n
  rest : r'.rest = r.rest.drop n
  remarks : ∀ d ∈ r'.remarks, d ∈ r.remarks ∨ (r.pos : Int) ≤ d.offset ∧ d.offset < r'.pos
  opened : ∀ g ∈ r'.opened, g ∈ r.opened ∨ r.pos ≤ g.start ∧ g.start < r'.pos

theorem Takes.trans {r r₁ r₂ : Reader} {n m : Nat} (h : Takes r r₁ n) (h' : Takes r₁ r₂ m) : Takes r r₂ (n + m) := by
  obtain ⟨hle, hpos, hrest, hremarks, hopened⟩ := h
  obtain ⟨hle', hpos', hrest', hremarks', hopened'⟩ := h'
  rw [hrest, List.length_drop] at hle'
  refine ⟨by omega, by omega, by rw [hrest', hrest, List.drop_drop], fun d hd => ?_, fun g hg => ?_⟩
  · rcases hremarks' d hd with hd | hd
    · rcases hremarks d hd with hd | hd
      · exact Or.inl hd
      · right; omega
    · right; omega
  · rcases hopened' g hg with hg | hg
    · rcases hopened g hg with hg | hg
      · exact Or.inl hg
      · right; omega
    · right; omega

/-- the quantifier after an atom -/
theorem addAtom_takes (r : Reader) (x : Node) : Takes r (r.addAtom x) (suffix r.rest).size := by
  have hle := suffix_size_le r.rest
  unfold addAtom
  split
  · rename_i hs
    rw [hs]
    exact ⟨Nat.zero_le _, rfl, rfl, fun _ hd => .inl hd, fun _ hg => .inl hg⟩
  · rename_i q size hs
    rw [hs] at hle ⊢
    exact ⟨hle, rfl, rfl, fun _ hd => .inl hd, fun _ hg => .inl hg⟩
  · rename_i size hs
    have hpos := suffix_malformed_pos hs
    rw [hs] at hle ⊢
    refine ⟨hle, rfl, rfl, fun d hd => ?_, fun _ hg => .inl hg⟩
    rcases List.mem_append.1 hd with hd | hd
    · exact Or.inl hd
    · right
      rw [List.mem_singleton.1 hd]
      simp only [Problem.at, advance]
      omega

theorem addPiece_takes (r : Reader) {p : Piece} (hp : p.Within r.pos r.rest.length) :
    ∃ n, 0 < n ∧ Takes r (r.addPiece p) n := by
  have hpiece : Takes r ({ r with flags := p.flags, remarks := r.remarks ++ p.remarks }.advance p.size) p.size := by
    refine ⟨hp.size_le, rfl, rfl, fun d hd => ?_, fun _ hg => .inl hg⟩
    rcases List.mem_append.1 hd with hd | hd
    · exact Or.inl hd
    · have := hp.remarks d hd
      right
      simp only [advance]
      omega
  exact ⟨_, Nat.add_pos_left hp.pos_size _, hpiece.trans (addAtom_takes _ p.node)⟩

/-- **Every step takes at least one character**, and none that is not there. -/
theorem Step.takes {r r' : Reader} (h : Step r r') : ∃ n, 0 < n ∧ Takes r r' n := by
  cases h with
  | arm s hr =>
    refine ⟨1, Nat.one_pos, ⟨by simp [hr], rfl, rfl, fun _ hd => .inl hd, fun _ hg => .inl hg⟩⟩
  | close s g outer hr ho =>
    have hclose : Takes r ({ r with opened := outer, here := g.outer }.advance 1) 1 := by
      refine ⟨by simp [hr], rfl, rfl, fun _ hd => .inl hd, fun g' hg' => .inl ?_⟩
      rw [ho]
      exact List.mem_cons_of_mem g hg'
    exact ⟨_, Nat.add_pos_left Nat.one_pos _, hclose.trans (addAtom_takes _ _)⟩
  | opens s capturing name size hr hg =>
    have hwithin := groupStart_within r.flags r.pos s
    rw [← hr, hg] at hwithin
    obtain ⟨hpos, hle⟩ := hwithin
    refine ⟨size, hpos, ⟨by simpa [hr] using hle, rfl, rfl, fun _ hd => .inl hd, fun g hg' => ?_⟩⟩
    rcases List.mem_cons.1 hg' with rfl | hg'
    · right
      simp only [openGroup, advance]
      omega
    · exact Or.inl hg'
  | whole s p hr hg =>
    have hwithin := groupStart_within r.flags r.pos s
    rw [← hr, hg] at hwithin
    exact addPiece_takes r (by simpa [hr, GroupStart.Within] using hwithin)
  | atom c s hr hbar hclose hopen =>
    exact addPiece_takes r (by simpa [hr] using atomPiece_within r.flags r.pos c s hbar hclose hopen)

/-! ## Runs -/

/-- the states that reading `s` goes through -/
def Reachable (s : List Char) (r : Reader) : Prop := Relation.ReflTransGen Step (start s) r

/-- the cursor is inside `s`, and so is everything that was remarked on or is still open -/
structure Inside (s : List Char) (r : Reader) : Prop where
  pos_le : r.pos ≤ s.length
  rest : r.rest = s.drop r.pos
  remarks : ∀ d ∈ r.remarks, 0 ≤ d.offset ∧ d.offset < s.length
  opened : ∀ g ∈ r.opened, g.start < s.length

theorem start_inside (s : List Char) : Inside s (start s) := ⟨Nat.zero_le _, rfl, by simp [start], by simp [start]⟩

theorem Inside.takes {s : List Char} {r r' : Reader} {n : Nat} (h : Inside s r) (ht : Takes r r' n) : Inside s r' := by
  obtain ⟨hpos, hrest, hremarks, hopened⟩ := h
  obtain ⟨hle, hpos', hrest', hremarks', hopened'⟩ := ht
  rw [hrest, List.length_drop] at hle
  have hpos_le : r'.pos ≤ s.length := by omega
  refine ⟨hpos_le, by rw [hrest', hrest, List.drop_drop, hpos'], fun d hd => ?_, fun g hg => ?_⟩
  · rcases hremarks' d hd with hd | hd
    · exact hremarks d hd
    · omega
  · rcases hopened' g hg with hg | hg
    · exact hopened g hg
    · omega

theorem Reachable.inside {s : List Char} {r : Reader} (h : Reachable s r) : Inside s r := by
  induction h with
  | refl => exact start_inside s
  | tail _ hstep ih =>
    obtain ⟨n, -, ht⟩ := hstep.takes
    exact ih.takes ht

/-- a run is made of steps -/
theorem steps_run (r : Reader) (n : Nat) : Relation.ReflTransGen Step r (r.run n) :=
  run_keeps (fun _ _ hstep h => h.tail hstep) n r .refl

/-- a run goes through reachable states -/
theorem run_reachable (s : List Char) (n : Nat) : Reachable s ((start s).run n) := steps_run (start s) n

/-- as many steps as there are characters are enough -/
theorem run_stops (n : Nat) (r : Reader) (h : r.rest.length ≤ n) : (r.run n).step = none := by
  induction n generalizing r with
  | zero =>
    have hrest : r.rest = [] := List.eq_nil_of_length_eq_zero (by omega)
    simp [run, step, hrest]
  | succ n ih =>
    simp only [run]
    cases hs : r.step with
    | none => exact hs
    | some r' =>
      obtain ⟨k, hk, ht⟩ := ((step_eq_some_iff r r').1 hs).takes
      refine ih r' ?_
      rw [ht.rest, List.length_drop]
      have := ht.le
      omega

theorem closeAll_remarks (opened : List OpenGroup) (here : Branches) (remarks : List Diagnostic) :
    ∀ d ∈ (closeAll opened here remarks).2, d ∈ remarks ∨ ∃ g ∈ opened, d.offset = g.start := by
  induction opened generalizing here remarks with
  | nil => exact fun d hd => Or.inl hd
  | cons g outer ih =>
    intro d hd
    rcases ih _ _ d hd with hd | ⟨g', hg', hd⟩
    · rcases List.mem_append.1 hd with hd | hd
      · exact Or.inl hd
      · rw [List.mem_singleton.1 hd]
        exact Or.inr ⟨g, List.mem_cons_self, rfl⟩
    · exact Or.inr ⟨g', List.mem_cons_of_mem g hg', hd⟩

end Reader

/-- **Reading is total and stays inside the pattern.** It stops; in every state on the way the cursor is inside and
what remains is what follows it; every step moves the cursor forward inside the pattern. What is cut off the front (an
atom, the front of a group, a quantifier) is there, on any input. All remarks are at characters of the pattern. -/
theorem reading_stays_inside (pattern : Text) :
    let s := pattern.chars
    ((Reader.start s).run s.length).step = none ∧
    (∀ r, Reader.Reachable s r → r.pos ≤ s.length ∧ r.rest = s.drop r.pos ∧
      ∀ r', r.step = some r' → r.pos < r'.pos ∧ r'.pos ≤ s.length) ∧
    (∀ flags pos c t, c ≠ '|' → c ≠ ')' → c ≠ '(' → (atomPiece flags pos c t).Within pos (c :: t).length) ∧
    (∀ flags pos t, (groupStart flags pos ('(' :: t)).Within pos ('(' :: t).length) ∧
    (∀ t, (suffix t).size ≤ t.length) ∧
    ∀ d ∈ (Reading.ofPattern pattern).diagnostics, 0 ≤ d.offset ∧ d.offset < s.length := by
  intro s
  have hend : Reader.Inside s ((Reader.start s).run s.length) := (Reader.run_reachable s s.length).inside
  refine ⟨Reader.run_stops _ _ (le_refl _), fun r hr => ?_, atomPiece_within, groupStart_within, suffix_size_le, ?_⟩
  · refine ⟨hr.inside.pos_le, hr.inside.rest, fun r' hs => ?_⟩
    obtain ⟨n, hn, ht⟩ := ((Reader.step_eq_some_iff r r').1 hs).takes
    have hpos := ht.pos
    exact ⟨by omega, (hr.inside.takes ht).pos_le⟩
  · intro d hd
    rcases Reader.closeAll_remarks _ _ _ d hd with hd | ⟨g, hg, hd⟩
    · exact hend.remarks d hd
    · have := hend.opened g hg
      omega

/-- a pattern with four faults, the last two at its end: `x{2(?:[a-\d` -/
def unfinishedPattern : List Char := ['x', '{', '2', '(', '?', ':', '[', 'a', '-', '\\', 'd']

/-- reading the unfinished pattern starts with a step, takes its first atom, and remarks on four characters of it -/
theorem unfinishedPattern_stays_inside :
    Reader.Reachable unfinishedPattern (Reader.start unfinishedPattern) ∧
    (∃ r', (Reader.start unfinishedPattern).step = some r' ∧ 0 < r'.pos ∧ r'.pos ≤ 11) ∧
    (atomPiece ⟨false, false⟩ 0 'x' unfinishedPattern.tail).Within 0 11 ∧
    (Reading.ofPattern (Text.ofChars unfinishedPattern)).diagnostics.map (·.offset) = [1, 9, 6, 3] ∧
    ∀ d ∈ (Reading.ofPattern (Text.ofChars unfinishedPattern)).diagnostics, 0 ≤ d.offset ∧ d.offset < 11 := by
  have hchars : (Text.ofChars unfinishedPattern).chars = unfinishedPattern := rfl
  obtain ⟨-, hstep, hatom, -, -, hremarks⟩ := reading_stays_inside (Text.ofChars unfinishedPattern)
  rw [hchars] at hstep hremarks
  have hstart : Reader.Reachable unfinishedPattern (Reader.start unfinishedPattern) := .refl
  refine ⟨hstart, ⟨_, rfl, (hstep _ hstart).2.2 _ rfl⟩, hatom _ _ _ _ (by decide) (by decide) (by decide), ?_, hremarks⟩
  decide

end MatcherGen
