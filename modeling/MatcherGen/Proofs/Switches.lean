/-
Inline switches. A group of flag letters turns switches on for the rest of the pattern; nothing turns one off, and
nothing else touches them. Literals and dots are stamped with the switch as it stands where they are read, so the
stamps of a tree, in the order of a walk, are first off and then on.

Main statements:
- `atomPiece_stamped`, `groupStart_stub_flags`: an atom carries the switches as they stand and leaves them alone, and so
  does a group that is skipped;
- `Reader.Step.flags_of_group`, `Reader.Step.flags_of_no_group`: what a step does to the switches;
- `Reader.Stamped.step`: a step keeps the stamps in the making sorted;
- `switches_follow_flag_groups`: the stamps and the switches of every reading.
-/
import MatcherGen.Proofs.Composition
import MatcherGen.Proofs.Walks

namespace MatcherGen

/-! ## Switches and stamps -/

/-- the switches of a pattern -/
inductive Switch where
  /-- letters match in either case -/
  | fold
  /-- a dot matches a line break -/
  | dotAll
deriving DecidableEq, Repr

namespace Switch

/-- is the switch on? -/
def on : Switch → Flags → Bool
  | .fold, flags => flags.fold
  | .dotAll, flags => flags.dotAll

/-- the flag letter that turns the switch on -/
def letter : Switch → Char
  | .fold => 'i'
  | .dotAll => 's'

/-- the stamp that the switch leaves on a node -/
def stamp? : Switch → Node → Option Bool
  | .fold, .lit _ b => some b
  | .dotAll, .dot b => some b
  | _, _ => none

theorem stamp_onLeaves (w : Switch) : Node.OnLeaves w.stamp? := by
  cases w <;> exact ⟨fun _ => rfl, fun _ => rfl, fun _ _ _ => rfl, fun _ _ => rfl⟩

/-- letters turn a switch on, and never off -/
theorem on_set (w : Switch) (flags : Flags) (letters : List Char) :
    w.on (flags.set letters) = (w.on flags || letters.contains w.letter) := by
  cases w <;> rfl

end Switch

/-- the stamps of a switch on the tree, in the order of a walk -/
def Node.stamps (w : Switch) (x : Node) : List Bool := x.collect w.stamp?

/-- a group of flag letters stands at the front of `s` -/
structure FlagGroup (letters s : List Char) : Prop where
  ne_nil : letters ≠ []
  known : ∀ c ∈ letters, c = 'i' ∨ c = 'm' ∨ c = 's'
  front : ∃ t, s = '(' :: '?' :: (letters ++ ')' :: t)

theorem FlagGroup.isFlagLetter {letters s : List Char} (h : FlagGroup letters s) :
    ∀ c ∈ letters, MatcherGen.isFlagLetter c = true := by
  intro c hc
  rcases h.known c hc with rfl | rfl | rfl <;> rfl

/-! ## Pieces -/

/-- the piece leaves the switches alone and carries no other stamps than theirs -/
structure Piece.Stamped (p : Piece) (flags : Flags) : Prop where
  flags_eq : p.flags = flags
  stamps : ∀ w : Switch, ∀ b ∈ p.node.stamps w, b = w.on flags

theorem Piece.stub_stamped (flags : Flags) (pos : Nat) (problem : Problem) (size : Nat) :
    (Piece.stub flags pos problem size).Stamped flags := by
  refine ⟨rfl, fun w b hb => ?_⟩
  cases w <;> exact absurd hb List.not_mem_nil

/-- a piece that is no literal and no dot carries no stamp -/
theorem Piece.plain_stamped (flags : Flags) {node : Node} (size : Nat) (h : ∀ w : Switch, node.stamps w = []) :
    (Piece.plain flags node size).Stamped flags := by
  refine ⟨rfl, fun w b hb => ?_⟩
  rw [Piece.plain, h w] at hb
  exact absurd hb List.not_mem_nil

theorem Piece.lit_stamped (flags : Flags) (text : List Char) (size : Nat) :
    (Piece.plain flags (.lit text flags.fold) size).Stamped flags := by
  refine ⟨rfl, fun w b hb => ?_⟩
  cases w with
  | fold => exact List.mem_singleton.1 hb
  | dotAll => exact absurd hb List.not_mem_nil

theorem Piece.dot_stamped (flags : Flags) (size : Nat) :
    (Piece.plain flags (.dot flags.dotAll) size).Stamped flags := by
  refine ⟨rfl, fun w b hb => ?_⟩
  cases w with
  | fold => exact absurd hb List.not_mem_nil
  | dotAll => exact List.mem_singleton.1 hb

theorem escapePiece_stamped (flags : Flags) (pos : Nat) (s : List Char) : (escapePiece flags pos s).Stamped flags := by
  unfold escapePiece
  cases s with
  | nil => exact Piece.stub_stamped flags pos _ 1
  | cons c r =>
    dsimp only
    split_ifs
    · exact Piece.plain_stamped flags 2 fun w => by cases w <;> rfl
    · exact Piece.plain_stamped flags 2 fun w => by cases w <;> rfl
    · exact Piece.plain_stamped flags 2 fun w => by cases w <;> rfl
    · exact Piece.stub_stamped flags pos _ 2
    · exact Piece.stub_stamped flags pos _ _
    · exact Piece.stub_stamped flags pos _ _
    · exact Piece.stub_stamped flags pos _ _
    · exact Piece.lit_stamped flags _ 2

/-- **An atom carries the switches as they stand** and leaves them alone. -/
theorem atomPiece_stamped (flags : Flags) (pos : Nat) (c : Char) (s : List Char) :
    (atomPiece flags pos c s).Stamped flags := by
  unfold atomPiece
  split_ifs
  · exact Piece.plain_stamped flags 1 fun w => by cases w <;> rfl
  · exact Piece.plain_stamped flags 1 fun w => by cases w <;> rfl
  · exact Piece.dot_stamped flags 1
  · refine ⟨rfl, fun w b hb => ?_⟩
    cases w <;> exact absurd hb List.not_mem_nil
  · exact escapePiece_stamped flags pos s
  · exact Piece.stub_stamped flags pos _ 1
  · exact Piece.lit_stamped flags [c] 1
  · exact Piece.lit_stamped flags _ _

/-- a group that is one piece carries no stamp: it is a stub or an empty sequence -/
theorem groupStart_stamps {flags : Flags} {pos : Nat} {s : List Char} {p : Piece}
    (h : groupStart flags pos ('(' :: s) = .whole p) (w : Switch) : p.node.stamps w = [] := by
  rcases groupStart_whole h with ⟨problem, -, rfl⟩ | ⟨letters, r, -, -, -, rfl⟩
  · cases w <;> rfl
  · cases w <;> rfl

/-- **A group that is replaced by a stub** leaves the switches alone, whatever stands in it. -/
theorem groupStart_stub_flags {flags : Flags} {pos : Nat} {s : List Char} {p : Piece} {message : List Char}
    (h : groupStart flags pos ('(' :: s) = .whole p) (hstub : p.node = .stub message) : p.flags = flags := by
  rcases groupStart_whole h with ⟨problem, -, rfl⟩ | ⟨letters, r, -, -, -, rfl⟩
  · rfl
  · exact absurd hstub (by simp [Piece.plain])

namespace Reader

/-! ## Steps -/

/-- a quantifier, malformed or not, leaves the switches alone -/
theorem addAtom_flags (r : Reader) (x : Node) : (r.addAtom x).flags = r.flags := by
  unfold addAtom
  split <;> rfl

theorem addPiece_flags (r : Reader) (p : Piece) : (r.addPiece p).flags = p.flags := addAtom_flags _ _

/-- a group of flag letters is one empty piece that carries the switches on -/
theorem Step.eq_of_group {r r' : Reader} (h : Step r r') {letters : List Char} (hg : FlagGroup letters r.rest) :
    r' = r.addPiece (.plain (r.flags.set letters) (.seq []) (2 + letters.length + 1)) := by
  obtain ⟨t, ht⟩ := hg.front
  have hstart : groupStart r.flags r.pos r.rest =
      .whole (.plain (r.flags.set letters) (.seq []) (2 + letters.length + 1)) := by
    rw [ht]
    exact groupStart_flags r.flags r.pos hg.ne_nil hg.isFlagLetter t
  cases h with
  | arm s hr => exact absurd (hr.symm.trans ht) (by simp)
  | close s g outer hr ho => exact absurd (hr.symm.trans ht) (by simp)
  | opens s capturing name size hr hopen => exact absurd (hopen.symm.trans hstart) (by simp)
  | whole s p hr hwhole => rw [GroupStart.whole.inj (hwhole.symm.trans hstart)]
  | atom c s hr hbar hclose hopen => exact absurd (List.cons.inj (hr.symm.trans ht)).1 hopen

/-- **A group of flag letters** turns its switches on. -/
theorem Step.flags_of_group {r r' : Reader} (h : Step r r') {letters : List Char} (hg : FlagGroup letters r.rest) :
    r'.flags = r.flags.set letters := by
  rw [h.eq_of_group hg]
  exact addPiece_flags r _

/-- **Every other step** leaves the switches alone. -/
theorem Step.flags_of_no_group {r r' : Reader} (h : Step r r') (hg : ∀ letters, ¬ FlagGroup letters r.rest) :
    r'.flags = r.flags := by
  cases h with
  | arm s hr => rfl
  | close s g outer hr ho => exact addAtom_flags _ _
  | opens s capturing name size hr hopen => rfl
  | whole s p hr hwhole =>
    rw [addPiece_flags]
    rw [hr] at hwhole
    rcases groupStart_whole hwhole with ⟨problem, -, rfl⟩ | ⟨letters, t, rfl, hne, hall, rfl⟩
    · rfl
    · exact absurd ⟨hne, fun c hc => isFlagLetter_cases (hall c hc), t, hr⟩ (hg letters)
  | atom c s hr hbar hclose hopen => rw [addPiece_flags, (atomPiece_stamped r.flags r.pos c s).flags_eq]

/-- a switch is on after a step if it was on before, or if the step takes a group with its letter -/
theorem Step.on_iff {r r' : Reader} (h : Step r r') (w : Switch) :
    w.on r'.flags = true ↔ w.on r.flags = true ∨ ∃ letters, FlagGroup letters r.rest ∧ w.letter ∈ letters := by
  by_cases hg : ∃ letters, FlagGroup letters r.rest
  · obtain ⟨letters, hletters⟩ := hg
    rw [h.flags_of_group hletters, Switch.on_set, Bool.or_eq_true, List.contains_iff_mem]
    constructor
    · rintro (hon | hmem)
      · exact Or.inl hon
      · exact Or.inr ⟨letters, hletters, hmem⟩
    · rintro (hon | ⟨letters', hletters', hmem⟩)
      · exact Or.inl hon
      · -- both lists of letters end at the same parenthesis
        have hset := (h.flags_of_group hletters).symm.trans (h.flags_of_group hletters')
        have hon := congrArg w.on hset
        rw [Switch.on_set, Switch.on_set, List.contains_iff_mem.2 hmem, Bool.or_true, Bool.or_eq_true,
          List.contains_iff_mem] at hon
        exact hon
  · have hnone : ∀ letters, ¬ FlagGroup letters r.rest := fun letters hl => hg ⟨letters, hl⟩
    rw [h.flags_of_no_group hnone]
    constructor
    · exact Or.inl
    · rintro (hon | ⟨letters, hl, -⟩)
      · exact hon
      · exact absurd hl (hnone letters)

/-! ## Stamps in the making -/

/-- the stamps of a switch in the making, in the order of the pattern -/
def stamps (w : Switch) (r : Reader) : List Bool := r.collect w.stamp?

theorem addAtom_stamps (w : Switch) (r : Reader) (x : Node) : (r.addAtom x).stamps w = r.stamps w ++ x.stamps w := by
  have hrep : ∀ q, (Node.rep x q).stamps w = x.stamps w := Node.collect_rep w.stamp_onLeaves x
  have hstub : ∀ message, (Node.stub message).stamps w = [] := by
    intro message
    cases w <;> rfl
  have hpush : ∀ l : List Node, stamps w { r with here := r.here.push l } = r.stamps w ++ l.flatMap (Node.stamps w) :=
    r.collect_push
  unfold addAtom
  split
  · refine (hpush [x]).trans ?_
    rw [List.flatMap_singleton]
  · refine (hpush _).trans ?_
    rw [List.flatMap_singleton, hrep]
  · refine (hpush _).trans ?_
    rw [List.flatMap_cons, List.flatMap_singleton, hstub, List.append_nil]

theorem addPiece_stamps (w : Switch) (r : Reader) (p : Piece) : (r.addPiece p).stamps w = r.stamps w ++ p.node.stamps w :=
  addAtom_stamps w _ p.node

/-- a group of flag letters leaves no stamp -/
theorem Step.stamps_of_group {r r' : Reader} (h : Step r r') {letters : List Char} (hg : FlagGroup letters r.rest)
    (w : Switch) : r'.stamps w = r.stamps w := by
  have hnone : (Node.seq []).stamps w = [] := by cases w <;> rfl
  rw [h.eq_of_group hg, addPiece_stamps]
  exact (congrArg (r.stamps w ++ ·) hnone).trans (List.append_nil _)

/-- what a step adds to the stamps is the switch as it stands before the step -/
theorem Step.stamps {r r' : Reader} (h : Step r r') (w : Switch) :
    ∃ new, r'.stamps w = r.stamps w ++ new ∧ ∀ b ∈ new, b = w.on r.flags := by
  cases h with
  | arm s hr =>
    refine ⟨[], ?_, by simp⟩
    rw [List.append_nil]
    exact r.collect_nextArm w.stamp_onLeaves
  | close s g outer hr ho =>
    refine ⟨[], ?_, by simp⟩
    rw [List.append_nil, addAtom_stamps]
    exact collect_close w.stamp_onLeaves ho
  | opens s capturing name size hr hopen =>
    refine ⟨[], ?_, by simp⟩
    rw [List.append_nil]
    exact r.collect_openGroup capturing name size
  | whole s p hr hwhole =>
    rw [hr] at hwhole
    refine ⟨[], ?_, by simp⟩
    rw [addPiece_stamps, groupStart_stamps hwhole]
  | atom c s hr hbar hclose hopen =>
    exact ⟨_, addPiece_stamps w r _, (atomPiece_stamped r.flags r.pos c s).stamps w⟩

/-- the stamps are first off and then on, and none is on while the switch is off -/
def Stamped (w : Switch) (r : Reader) : Prop :=
  ∃ m n, r.stamps w = List.replicate m false ++ List.replicate n true ∧ (0 < n → w.on r.flags = true)

/-- **A step keeps the stamps sorted.** While the switch is off there are none that are on, so new ones may be off; once
it is on it stays on, and new ones are on. -/
theorem Stamped.step {w : Switch} {r r' : Reader} (hs : Step r r') (h : r.Stamped w) : r'.Stamped w := by
  obtain ⟨m, n, hstamps, hon⟩ := h
  obtain ⟨new, hnew, hall⟩ := hs.stamps w
  have hrun : new = List.replicate new.length (w.on r.flags) := List.eq_replicate_iff.2 ⟨rfl, hall⟩
  cases hw : w.on r.flags with
  | false =>
    obtain rfl : n = 0 := by
      by_contra hne
      rw [hon (Nat.pos_of_ne_zero hne)] at hw
      exact absurd hw (by simp)
    refine ⟨m + new.length, 0, ?_, by simp⟩
    rw [hw] at hrun
    calc r'.stamps w = List.replicate m false ++ [] ++ new := by rw [hnew, hstamps]; rfl
      _ = List.replicate m false ++ List.replicate new.length false := by rw [List.append_nil, ← hrun]
      _ = List.replicate (m + new.length) false ++ [] := by rw [List.replicate_append_replicate, List.append_nil]
  | true =>
    refine ⟨m, n + new.length, ?_, fun _ => (hs.on_iff w).2 (Or.inl hw)⟩
    rw [hw] at hrun
    calc r'.stamps w = List.replicate m false ++ (List.replicate n true ++ new) := by
          rw [hnew, hstamps, List.append_assoc]
      _ = List.replicate m false ++ (List.replicate n true ++ List.replicate new.length true) := by rw [← hrun]
      _ = List.replicate m false ++ List.replicate (n + new.length) true := by rw [List.replicate_append_replicate]

theorem start_stamped (w : Switch) (s : List Char) : (start s).Stamped w := ⟨0, 0, rfl, by simp⟩

/-! ## Runs -/

/-- a switch that is on has been turned on by a group with its letter -/
theorem Reachable.group_of_on {s : List Char} {r : Reader} (h : Reachable s r) (w : Switch) (hon : w.on r.flags = true) :
    ∃ r₀ letters, Reachable s r₀ ∧ FlagGroup letters r₀.rest ∧ w.letter ∈ letters := by
  induction h with
  | refl =>
    cases w <;> exact absurd hon (by simp [Switch.on, start])
  | tail hreach hstep ih =>
    rcases (hstep.on_iff w).1 hon with hbefore | ⟨letters, hgroup, hmem⟩
    · exact ih hbefore
    · exact ⟨_, letters, hreach, hgroup, hmem⟩

/-- a group with its letter turns a switch on for good -/
theorem Reachable.on_of_group {s : List Char} {r : Reader} (h : Reachable s r) (w : Switch) {letters : List Char}
    (hgroup : FlagGroup letters r.rest) (hmem : w.letter ∈ letters) :
    w.on ((start s).run s.length).flags = true := by
  obtain ⟨t, ht⟩ := hgroup.front
  obtain ⟨r', hstep⟩ : ∃ r', r.step = some r' := by
    cases hs : r.step with
    | some r' => exact ⟨r', rfl⟩
    | none => rcases (step_eq_none_iff r).1 hs with hr | ⟨u, hr, -⟩ <;> exact absurd (hr.symm.trans ht) (by simp)
  have hstep := (step_eq_some_iff r r').1 hstep
  have hon : w.on r'.flags = true := (hstep.on_iff w).2 (Or.inr ⟨letters, hgroup, hmem⟩)
  rw [Reachable.run_eq (h.tail hstep)]
  exact run_keeps (P := fun r => w.on r.flags = true) (fun _ _ hs hr => (hs.on_iff w).2 (Or.inl hr)) _ r' hon

end Reader

/-! ## Readings -/

theorem Reading.root_stamps (pattern : Text) (w : Switch) :
    (Reading.ofPattern pattern).root.stamps w = ((Reader.start pattern.chars).run pattern.chars.length).stamps w :=
  Reading.root_collect w.stamp_onLeaves pattern

/-- **Switches follow the flag groups.** For every pattern and both switches: the stamps on the tree, in the order of a
walk, are first off and then on; one that is on says that the switch is on at the end; and it is on at the end exactly if
the reader came to a group of flag letters with its letter. In every state on the way such a group turns on the switches
of its letters and no others, and every other step leaves the switches alone. So does whatever becomes a stub: a group
that is skipped, an atom, and a quantifier. -/
theorem switches_follow_flag_groups (pattern : Text) :
    let reading := Reading.ofPattern pattern
    (∀ w : Switch,
      (∃ m n, reading.root.stamps w = List.replicate m false ++ List.replicate n true) ∧
      (true ∈ reading.root.stamps w → w.on reading.flags = true) ∧
      (w.on reading.flags = true ↔
        ∃ r letters, Reader.Reachable pattern.chars r ∧ FlagGroup letters r.rest ∧ w.letter ∈ letters)) ∧
    (∀ r r', Reader.Reachable pattern.chars r → r.step = some r' →
      (∀ letters, FlagGroup letters r.rest →
        r'.flags = ⟨r.flags.fold || letters.contains 'i', r.flags.dotAll || letters.contains 's'⟩) ∧
      ((∀ letters, ¬ FlagGroup letters r.rest) → r'.flags = r.flags)) ∧
    (∀ flags pos s p message, groupStart flags pos ('(' :: s) = .whole p → p.node = .stub message → p.flags = flags) ∧
    (∀ flags pos c s, (atomPiece flags pos c s).flags = flags) ∧
    (∀ (r : Reader) (x : Node), (r.addAtom x).flags = r.flags) := by
  intro reading
  have hreach := Reader.run_reachable pattern.chars pattern.chars.length
  refine ⟨fun w => ?_, fun r r' _ hs => ?_, fun _ _ _ _ _ => groupStart_stub_flags,
    fun flags pos c s => (atomPiece_stamped flags pos c s).flags_eq, Reader.addAtom_flags⟩
  · have hstamped : ((Reader.start pattern.chars).run pattern.chars.length).Stamped w :=
      Reader.run_keeps (P := Reader.Stamped w) (fun _ _ hs h => h.step hs) _ _ (Reader.start_stamped w pattern.chars)
    obtain ⟨m, n, hstamps, hon⟩ := hstamped
    have hroot : reading.root.stamps w = List.replicate m false ++ List.replicate n true :=
      (Reading.root_stamps pattern w).trans hstamps
    refine ⟨⟨m, n, hroot⟩, fun htrue => ?_, fun h => hreach.group_of_on w h, ?_⟩
    · rw [hroot] at htrue
      rcases List.mem_append.1 htrue with hfalse | htrue
      · exact absurd (List.eq_of_mem_replicate hfalse) (by simp)
      · exact hon (Nat.pos_of_ne_zero (List.mem_replicate.1 htrue).1)
    · rintro ⟨r, letters, hr, hgroup, hmem⟩
      exact hr.on_of_group w hgroup hmem
  · have hstep := (Reader.step_eq_some_iff r r').1 hs
    exact ⟨fun letters hgroup => hstep.flags_of_group hgroup, hstep.flags_of_no_group⟩

/-- In `a(?i)b.(?=(?s)).` the reader comes to a group with `i`, and the group with `s` is skipped inside another. -/
theorem switches_follow_flag_groups_skipped :
    let pattern := Text.ofString "a(?i)b.(?=(?s))."
    (Reading.ofPattern pattern).root.stamps .fold = [false, true] ∧
    (∃ r letters, Reader.Reachable pattern.chars r ∧ FlagGroup letters r.rest ∧ 'i' ∈ letters) ∧
    ¬ ∃ r letters, Reader.Reachable pattern.chars r ∧ FlagGroup letters r.rest ∧ 's' ∈ letters := by
  intro pattern
  obtain ⟨hswitch, -⟩ := switches_follow_flag_groups pattern
  obtain ⟨-, htrue, hfold⟩ := hswitch .fold
  obtain ⟨-, -, hdotAll⟩ := hswitch .dotAll
  have hstamps : (Reading.ofPattern pattern).root.stamps .fold = [false, true] := by decide +kernel
  have hoff : Switch.on .dotAll (Reading.ofPattern pattern).flags = false := by decide +kernel
  refine ⟨hstamps, hfold.1 (htrue ?_), fun h => ?_⟩
  · rw [hstamps]
    simp
  · rw [hdotAll.2 h] at hoff
    exact absurd hoff (by simp)

end MatcherGen
