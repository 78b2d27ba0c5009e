/-
What one step of the reader does, and what follows for the trees it builds. `Reader.Step` lists the five kinds of step
once; everything about runs is proved case by case over it.

Main statements:
- `Reader.step_eq_some_iff`, `Reader.step_eq_none_iff`: the reader makes exactly these steps, and stops exactly at the
  end and at a closing parenthesis that nothing opened;
- `Reader.run_keeps`: what every step keeps, a run keeps;
- `Reading.root_keeps`: a property of nodes that atoms have and the reader's constructions keep holds of the root.
-/
import MatcherGen.Pattern.Reader
import MatcherGen.Proofs.Fronts

namespace MatcherGen

namespace Reader

/-- the steps of the reader -/
inductive Step (r : Reader) : Reader → Prop where
  /-- an arm boundary -/
  | arm (s : List Char) (hr : r.rest = '|' :: s) : Step r ({ r with here := r.here.nextArm }.advance 1)
  /-- the end of the innermost group, with the quantifier that follows -/
  | close (s : List Char) (g : OpenGroup) (outer : List OpenGroup) (hr : r.rest = ')' :: s)
      (ho : r.opened = g :: outer) :
    Step r (addAtom ({ r with opened := outer, here := g.outer }.advance 1) (.group r.here.node g.capturing g.name))
  /-- the front of a group -/
  | opens (s : List Char) (capturing : Bool) (name : List Char) (size : Nat) (hr : r.rest = '(' :: s)
    (hg : groupStart r.flags r.pos r.rest = .opens capturing name size) : Step r (r.openGroup capturing name size)
  /-- a group that is one piece -/
  | whole (s : List Char) (p : Piece) (hr : r.rest = '(' :: s) (hg : groupStart r.flags r.pos r.rest = .whole p) :
    Step r (r.addPiece p)
  /-- any other atom -/
  | atom (c : Char) (s : List Char) (hr : r.rest = c :: s) (hbar : c ≠ '|') (hclose : c ≠ ')') (hopen : c ≠ '(') :
    Step r (r.addPiece (atomPiece r.flags r.pos c s))

/-- **The reader makes exactly these steps.** -/
theorem step_eq_some_iff (r r' : Reader) : r.step = some r' ↔ Step r r' := by
  constructor
  · intro h
    unfold step at h
    split at h
    · exact absurd h (by simp)
    · rename_i s hr
      simp only [Option.some.injEq] at h
      exact h ▸ Step.arm s hr
    · rename_i s hr
      split at h
      · exact absurd h (by simp)
      · rename_i g outer ho
        simp only [Option.some.injEq] at h
        exact h ▸ Step.close s g outer hr ho
    · rename_i s hr
      split at h
      · rename_i capturing name size hg
        simp only [Option.some.injEq] at h
        exact h ▸ Step.opens s capturing name size hr hg
      · rename_i p hg
        simp only [Option.some.injEq] at h
        exact h ▸ Step.whole s p hr hg
    · rename_i c s hbar hclose hopen hr
      simp only [Option.some.injEq] at h
      refine h ▸ Step.atom c s hr ?_ ?_ ?_
      · rintro rfl; exact hbar rfl
      · rintro rfl; exact hclose rfl
      · rintro rfl; exact hopen rfl
  · obtain ⟨pos, rest, flags, remarks, opened, here⟩ := r
    rintro (⟨s, rfl⟩ | ⟨s, g, outer, rfl, rfl⟩ | ⟨s, capturing, name, size, rfl, hg⟩ | ⟨s, p, rfl, hg⟩ |
      ⟨c, s, rfl, hbar, hclose, hopen⟩)
    · rfl
    · rfl
    · simp only [step, hg]
    · simp only [step, hg]
    · unfold step
      split
      · exact absurd ‹_› (by simp)
      · exact absurd (List.cons.inj ‹_›).1 hbar
      · exact absurd (List.cons.inj ‹_›).1 hclose
      · exact absurd (List.cons.inj ‹_›).1 hopen
      · obtain ⟨rfl, rfl⟩ := List.cons.inj ‹c :: s = _›
        rfl

/-- **The reader stops** exactly at the end and at a closing parenthesis that nothing opened. -/
theorem step_eq_none_iff (r : Reader) :
    r.step = none ↔ r.rest = [] ∨ ∃ s, r.rest = ')' :: s ∧ r.opened = [] := by
  constructor
  · intro h
    unfold step at h
    split at h
    · exact Or.inl ‹_›
    · exact absurd h (by simp)
    · rename_i s hr
      split at h
      · exact Or.inr ⟨s, hr, ‹_›⟩
      · exact absurd h (by simp)
    · split at h <;> exact absurd h (by simp)
    · exact absurd h (by simp)
  · rintro (h | ⟨s, h, ho⟩)
    · simp [step, h]
    · simp [step, h, ho]

/-! ## Runs -/

/-- **What every step keeps, a run keeps.** -/
theorem run_keeps {P : Reader → Prop} (hstep : ∀ r r', Step r r' → P r → P r') (n : Nat) (r : Reader) (h : P r) :
    P (r.run n) := by
  induction n generalizing r with
  | zero => exact h
  | succ n ih =>
    simp only [run]
    cases hs : r.step with
    | none => exact h
    | some r' => exact ih r' (hstep r r' ((step_eq_some_iff r r').1 hs) h)

end Reader

/-! ## Trees -/

/-- a property of nodes that the reader's constructions keep -/
structure Node.Kept (P : Node → Prop) : Prop where
  atom : ∀ flags pos c s, P (atomPiece flags pos c s).node
  stub : ∀ message, P (.stub message)
  rep : ∀ atom q, P atom → P (.rep atom q)
  group : ∀ inner capturing name, P inner → P (.group inner capturing name)
  seq : ∀ l, (∀ x ∈ l, P x) → P (.seq l)
  alt : ∀ l, 2 ≤ l.length → (∀ x ∈ l, P x) → P (.alt l)

/-- every node of the expression has the property -/
def Branches.All (P : Node → Prop) (b : Branches) : Prop := (∀ x ∈ b.arms, P x) ∧ ∀ x ∈ b.term, P x

theorem Branches.All.node {P : Node → Prop} (hP : Node.Kept P) {b : Branches} (h : b.All P) : P b.node := by
  unfold Branches.node
  split
  · exact hP.seq _ h.2
  · refine hP.alt _ ?_ ?_
    · have : b.arms ≠ [] := ‹_›
      have := List.length_pos_of_ne_nil this
      simp only [List.length_append, List.length_singleton]
      omega
    · intro x hx
      rcases List.mem_append.1 hx with hx | hx
      · exact h.1 x hx
      · rw [List.mem_singleton.1 hx]
        exact hP.seq _ h.2

theorem Branches.All.push {P : Node → Prop} {b : Branches} (h : b.All P) {l : List Node} (hl : ∀ x ∈ l, P x) :
    (b.push l).All P := by
  refine ⟨h.1, fun x hx => ?_⟩
  rcases List.mem_append.1 hx with hx | hx
  · exact h.2 x hx
  · exact hl x hx

theorem Branches.All.nextArm {P : Node → Prop} (hP : Node.Kept P) {b : Branches} (h : b.All P) : b.nextArm.All P := by
  refine ⟨fun x hx => ?_, by simp [Branches.nextArm]⟩
  rcases List.mem_append.1 hx with hx | hx
  · exact h.1 x hx
  · rw [List.mem_singleton.1 hx]
    exact hP.seq _ h.2

theorem Branches.All.empty (P : Node → Prop) : (⟨[], []⟩ : Branches).All P := by simp [Branches.All]

/-- every node in the making has the property -/
def Reader.All (P : Node → Prop) (r : Reader) : Prop := r.here.All P ∧ ∀ g ∈ r.opened, g.outer.All P

theorem Reader.All.addAtom {P : Node → Prop} (hP : Node.Kept P) {r : Reader} (h : r.All P) {x : Node} (hx : P x) :
    (r.addAtom x).All P := by
  unfold Reader.addAtom
  split
  · exact ⟨h.1.push (by simpa using hx), h.2⟩
  · exact ⟨h.1.push (by simpa using hP.rep x _ hx), h.2⟩
  · exact ⟨h.1.push (by simpa using ⟨hx, hP.stub _⟩), h.2⟩

theorem Reader.All.addPiece {P : Node → Prop} (hP : Node.Kept P) {r : Reader} (h : r.All P) {p : Piece}
    (hp : P p.node) :
    (r.addPiece p).All P := by
  have hbefore : ({ r with flags := p.flags, remarks := r.remarks ++ p.remarks }.advance p.size).All P := h
  exact hbefore.addAtom hP hp

theorem Reader.All.step {P : Node → Prop} (hP : Node.Kept P) {r r' : Reader} (hs : Reader.Step r r') (h : r.All P) :
    r'.All P := by
  obtain ⟨hhere, hopened⟩ := h
  cases hs with
  | arm s hr => exact ⟨hhere.nextArm hP, hopened⟩
  | close s g outer hr ho =>
    rw [ho] at hopened
    refine Reader.All.addAtom hP ⟨hopened g List.mem_cons_self, ?_⟩ (hP.group _ _ _ (hhere.node hP))
    exact fun g' hg' => hopened g' (List.mem_cons_of_mem g hg')
  | opens s capturing name size hr hg =>
    refine ⟨Branches.All.empty P, fun g hg' => ?_⟩
    rcases List.mem_cons.1 hg' with rfl | hg'
    · exact hhere
    · exact hopened g hg'
  | whole s p hr hg =>
    refine Reader.All.addPiece hP ⟨hhere, hopened⟩ ?_
    rw [hr] at hg
    rcases groupStart_whole hg with ⟨problem, -, rfl⟩ | ⟨letters, _, _, _, _, rfl⟩
    · exact hP.stub _
    · exact hP.seq [] (by simp)
  | atom c s hr hbar hclose hopen => exact Reader.All.addPiece hP ⟨hhere, hopened⟩ (hP.atom _ _ _ _)

/-- closing the groups that are still open keeps the property -/
theorem Reader.closeAll_keeps {P : Node → Prop} (hP : Node.Kept P) (opened : List OpenGroup) {here : Branches}
    (remarks : List Diagnostic) (hhere : here.All P) (hopened : ∀ g ∈ opened, g.outer.All P) :
    (Reader.closeAll opened here remarks).1.All P := by
  induction opened generalizing here remarks with
  | nil => exact hhere
  | cons g outer ih =>
    refine ih _ ?_ fun g' hg' => hopened g' (List.mem_cons_of_mem g hg')
    exact (hopened g List.mem_cons_self).push (by simpa using hP.group _ _ _ (hhere.node hP))

/-- **What atoms have and the reader's constructions keep holds of every root.** -/
theorem Reading.root_keeps {P : Node → Prop} (hP : Node.Kept P) (pattern : Text) :
    P (Reading.ofPattern pattern).root := by
  have hrun : (((Reader.start pattern.chars).run pattern.chars.length).All P) :=
    Reader.run_keeps (fun _ _ hs h => Reader.All.step hP hs h) _ _ ⟨Branches.All.empty P, by simp [Reader.start]⟩
  exact (Reader.closeAll_keeps hP _ _ hrun.1 hrun.2).node hP

end MatcherGen
