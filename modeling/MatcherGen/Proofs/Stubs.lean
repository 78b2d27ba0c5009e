/-
Stubs and the remarks on them. A stub is put into the tree when its remark is made, but not at the same moment: a
piece is remarked on before it is added, and a group is added after all that stands in it. Read off in the order of the
pattern, from the outermost open group to the expression at hand, the stubs in the making are always those remarked on.

Main statements:
- `atomPiece_reported`, `groupStart_reported`: a piece is a stub exactly if its remarks have one, at its own place;
- `Reader.Reports.step`: a step keeps the stubs in the making and the remarks on stubs together;
- `Reading.stubMessages_eq`: so they agree one by one in every reading;
- `stubs_are_reported`: from left to right.
-/
import MatcherGen.Pattern.Analysis
import MatcherGen.Proofs.Progress
import MatcherGen.Proofs.Walks

namespace MatcherGen

/-! ## The stubs of a tree -/

/-- the message of a stub -/
def Node.stubMessage? : Node → Option (List Char)
  | .stub message => some message
  | _ => none

/-- the messages of the stubs, in the order of a walk from the top -/
def Node.stubMessages (x : Node) : List (List Char) := x.collect Node.stubMessage?

namespace Node

theorem stubMessage_onLeaves : OnLeaves stubMessage? :=
  ⟨fun _ => rfl, fun _ => rfl, fun _ _ _ => rfl, fun _ _ => rfl⟩

/-- the analysis counts the stubs -/
theorem analysis_stubs (x : Node) : x.analysis.stubs = x.stubMessages.length := by
  have hstub : isStub = fun y => (stubMessage? y).isSome := by
    funext y
    cases y <;> rfl
  rw [stubMessages, collect, List.length_filterMap_eq_countP, ← hstub]
  rfl

end Node

/-! ## Pieces -/

@[simp] theorem Problem.at_stub (p : Problem) (pos : Nat) : (p.at pos).stub = p.isStub := rfl

/-- the piece is no stub and no stub is remarked on, or it is a stub with one remark on it, where it starts -/
def Piece.Reported (p : Piece) (pos : Nat) : Prop :=
  p.node.stubMessages = [] ∧ p.remarks.filter (·.stub) = [] ∨
    ∃ problem : Problem, p.node = .stub problem.message ∧ p.remarks.filter (·.stub) = [problem.at pos]

theorem Piece.plain_reported (flags : Flags) {node : Node} (size pos : Nat) (h : node.stubMessages = []) :
    (Piece.plain flags node size).Reported pos := .inl ⟨h, rfl⟩

theorem Piece.stub_reported (flags : Flags) (pos : Nat) {p : Problem} (size : Nat) (h : p.isStub = true) :
    (Piece.stub flags pos p size).Reported pos := .inr ⟨p, rfl, by simp [Piece.stub, h]⟩

/-- nothing in a class is a stub -/
theorem classBody_stubs (acc : ClassBody) (pos : Nat) (s : List Char) (h : ∀ d ∈ acc.remarks, d.stub = false) :
    ∀ d ∈ (classBody acc pos s).remarks, d.stub = false :=
  classBody_remarks_keep (fun _ _ _ => rfl) (fun _ _ _ => rfl) acc pos s (List.Subset.refl s) h

theorem classPiece_reported (flags : Flags) (pos : Nat) (s : List Char) : (classPiece flags pos s).Reported pos := by
  have hclass : ∀ (acc : ClassBody) (p : Nat) (r : List Char), acc.remarks = [] →
      (if (classBody acc p r).closed then (classBody acc p r).remarks
        else (classBody acc p r).remarks ++ [Problem.unterminatedClass.at pos]).filter (·.stub) = [] := by
    intro acc p r hacc
    have hstubs := classBody_stubs acc p r (by simp [hacc])
    have hbody : (classBody acc p r).remarks.filter (·.stub) = [] := by
      refine List.filter_eq_nil_iff.2 fun d hd => ?_
      simp [hstubs d hd]
    split_ifs
    · exact hbody
    · rw [List.filter_append, hbody]
      rfl
  unfold classPiece
  dsimp only
  split
  · exact .inl ⟨rfl, hclass _ _ _ rfl⟩
  · exact .inl ⟨rfl, hclass _ _ _ rfl⟩

theorem escapePiece_reported (flags : Flags) (pos : Nat) (s : List Char) : (escapePiece flags pos s).Reported pos := by
  unfold escapePiece
  cases s with
  | nil => exact Piece.stub_reported flags pos 1 rfl
  | cons c r =>
    dsimp only
    split_ifs
    · exact Piece.plain_reported flags 2 pos rfl
    · exact Piece.plain_reported flags 2 pos rfl
    · exact Piece.plain_reported flags 2 pos rfl
    · exact Piece.stub_reported flags pos 2 rfl
    · exact Piece.stub_reported flags pos _ rfl
    · exact Piece.stub_reported flags pos _ rfl
    · exact Piece.stub_reported flags pos _ rfl
    · exact Piece.plain_reported flags 2 pos rfl

/-- **An atom is a stub exactly if its remarks have one.** -/
theorem atomPiece_reported (flags : Flags) (pos : Nat) (c : Char) (s : List Char) :
    (atomPiece flags pos c s).Reported pos := by
  unfold atomPiece
  split_ifs
  · exact Piece.plain_reported flags 1 pos rfl
  · exact Piece.plain_reported flags 1 pos rfl
  · exact Piece.plain_reported flags 1 pos rfl
  · exact classPiece_reported flags pos s
  · exact escapePiece_reported flags pos s
  · exact Piece.stub_reported flags pos 1 rfl
  · exact Piece.plain_reported flags 1 pos rfl
  · exact Piece.plain_reported flags _ pos rfl

theorem skippedGroup_reported (flags : Flags) (pos : Nat) {problem : List Char → Problem} (s : List Char)
    (h : ∀ text, (problem text).isStub = true) : (skippedGroup flags pos problem s).Reported pos := by
  refine .inr ⟨problem (s.take (balanced 0 s).1), rfl, ?_⟩
  have hnote : Problem.unterminatedGroup.isStub = false := rfl
  unfold skippedGroup
  dsimp only
  split_ifs
  · simp [h]
  · simp [h, hnote]

/-- **A group that is one piece is a stub exactly if its remarks have one.** -/
theorem groupStart_reported {flags : Flags} {pos : Nat} {s : List Char} {p : Piece}
    (h : groupStart flags pos ('(' :: s) = .whole p) : p.Reported pos := by
  rcases groupStart_whole h with ⟨problem, hstub, rfl⟩ | ⟨letters, r, -, -, -, rfl⟩
  · exact skippedGroup_reported flags pos _ hstub
  · exact Piece.plain_reported _ _ pos rfl

/-! ## Stubs in the making -/

namespace Reader

/-- the messages of the stubs in the making, in the order of the pattern -/
def stubMessages (r : Reader) : List (List Char) := r.collect Node.stubMessage?

/-- the stubs in the making and then those of an atom that is still to be added are the stubs remarked on; the remarks
on them are in order and behind the cursor -/
structure Reports (r : Reader) (pending : List (List Char)) : Prop where
  messages : r.stubMessages ++ pending = (r.remarks.filter (·.stub)).map (·.message)
  sorted : (r.remarks.filter (·.stub)).Pairwise fun d e => d.offset < e.offset
  before : ∀ d ∈ r.remarks.filter (·.stub), d.offset < r.pos

/-- one more stub, remarked on at the cursor -/
theorem Reports.remark {r r' : Reader} {pending pending' : List (List Char)} (h : r.Reports pending) (problem : Problem)
    (hremarks : r'.remarks.filter (·.stub) = r.remarks.filter (·.stub) ++ [problem.at r.pos]) (hpos : r.pos < r'.pos)
    (hmessages : r'.stubMessages ++ pending' = r.stubMessages ++ pending ++ [problem.message]) :
    r'.Reports pending' := by
  obtain ⟨hm, hsorted, hbefore⟩ := h
  constructor
  · rw [hmessages, hm, hremarks, List.map_append]
    rfl
  · rw [hremarks, List.pairwise_append]
    refine ⟨hsorted, List.pairwise_singleton _ _, fun d hd e he => ?_⟩
    rw [List.mem_singleton.1 he]
    exact hbefore d hd
  · intro d hd
    rw [hremarks] at hd
    rcases List.mem_append.1 hd with hd | hd
    · have := hbefore d hd
      omega
    · rw [List.mem_singleton.1 hd]
      exact Int.ofNat_lt.2 hpos

/-- no more stubs -/
theorem Reports.keep {r r' : Reader} {pending pending' : List (List Char)} (h : r.Reports pending)
    (hremarks : r'.remarks.filter (·.stub) = r.remarks.filter (·.stub)) (hpos : r.pos ≤ r'.pos)
    (hmessages : r'.stubMessages ++ pending' = r.stubMessages ++ pending) : r'.Reports pending' := by
  obtain ⟨hm, hsorted, hbefore⟩ := h
  refine ⟨by rw [hmessages, hm, hremarks], by rwa [hremarks], fun d hd => ?_⟩
  rw [hremarks] at hd
  have := hbefore d hd
  omega

/-- adding the atom -/
theorem Reports.addAtom {r : Reader} {x : Node} (h : r.Reports x.stubMessages) : (r.addAtom x).Reports [] := by
  have hpush : ∀ l : List Node,
      stubMessages { r with here := r.here.push l } = r.stubMessages ++ l.flatMap Node.stubMessages := r.collect_push
  have hrep : ∀ q, (Node.rep x q).stubMessages = x.stubMessages := Node.collect_rep Node.stubMessage_onLeaves x
  unfold Reader.addAtom
  split
  · refine h.keep rfl (le_refl _) ?_
    rw [List.append_nil, hpush, List.flatMap_singleton]
  · rename_i q size _
    refine h.keep rfl (Nat.le_add_right _ _) ?_
    rw [List.append_nil, ← hrep q]
    exact (hpush [.rep x q]).trans (by rw [List.flatMap_singleton])
  · rename_i size hs
    have hpos := suffix_malformed_pos hs
    refine h.remark (.malformedQuantifier (r.rest.take size)) ?_ ?_ ?_
    · simp [advance, Problem.isStub]
    · simp only [advance]
      omega
    · rw [List.append_nil, List.append_assoc]
      exact hpush _

/-- remarking on a piece, before it is added -/
theorem Reports.piece {r : Reader} (h : r.Reports []) {p : Piece} (hp : p.Reported r.pos) (hsize : 0 < p.size) :
    ({ r with flags := p.flags, remarks := r.remarks ++ p.remarks }.advance p.size).Reports p.node.stubMessages := by
  rcases hp with ⟨hnode, hremarks⟩ | ⟨problem, hnode, hremarks⟩
  · refine h.keep ?_ (Nat.le_add_right _ _) ?_
    · simp [advance, hremarks]
    · rw [hnode]
      rfl
  · refine h.remark problem ?_ (Nat.lt_add_of_pos_right hsize) ?_
    · simp [advance, hremarks]
    · rw [hnode, List.append_nil]
      rfl

theorem Reports.addPiece {r : Reader} (h : r.Reports []) {p : Piece} (hp : p.Reported r.pos) (hsize : 0 < p.size) :
    (r.addPiece p).Reports [] :=
  (h.piece hp hsize).addAtom

/-- **A step keeps the stubs in the making and the remarks on stubs together.** -/
theorem Reports.step {r r' : Reader} (hs : Step r r') (h : r.Reports []) : r'.Reports [] := by
  cases hs with
  | arm s hr =>
    exact h.keep rfl (Nat.le_add_right _ _) (congrArg (· ++ []) (r.collect_nextArm Node.stubMessage_onLeaves))
  | close s g outer hr ho =>
    refine Reports.addAtom (h.keep rfl (Nat.le_add_right _ _) ?_)
    rw [List.append_nil]
    exact collect_close Node.stubMessage_onLeaves ho
  | opens s capturing name size hr hg =>
    exact h.keep rfl (Nat.le_add_right _ _) (congrArg (· ++ []) (r.collect_openGroup capturing name size))
  | whole s p hr hg =>
    have hwithin := groupStart_within r.flags r.pos s
    rw [hr] at hg
    rw [hg] at hwithin
    exact h.addPiece (groupStart_reported hg) hwithin.pos_size
  | atom c s hr hbar hclose hopen =>
    exact h.addPiece (atomPiece_reported r.flags r.pos c s) (atomPiece_within r.flags r.pos c s hbar hclose hopen).pos_size

theorem start_reports (s : List Char) : (start s).Reports [] := by
  refine ⟨rfl, ?_, ?_⟩ <;> simp [start]

theorem run_reports (s : List Char) : ((start s).run s.length).Reports [] :=
  run_keeps (P := fun r => r.Reports []) (fun _ _ hs h => h.step hs) _ _ (start_reports s)

/-- closing the groups that are still open remarks on no stub -/
theorem closeAll_stubs (opened : List OpenGroup) (here : Branches) (remarks : List Diagnostic) :
    (closeAll opened here remarks).2.filter (·.stub) = remarks.filter (·.stub) := by
  induction opened generalizing here remarks with
  | nil => rfl
  | cons g outer ih =>
    rw [closeAll, ih, List.filter_append]
    simp [Problem.isStub]

end Reader

theorem Reading.stubs_eq (pattern : Text) :
    (Reading.ofPattern pattern).stubs =
      ((Reader.start pattern.chars).run pattern.chars.length).remarks.filter (·.stub) :=
  Reader.closeAll_stubs _ _ _

/-- **The stubs of a tree are those remarked on**, in their order. -/
theorem Reading.stubMessages_eq (pattern : Text) :
    (Reading.ofPattern pattern).root.stubMessages = (Reading.ofPattern pattern).stubs.map (·.message) := by
  rw [Reading.stubs_eq, ← (Reader.run_reports pattern.chars).messages, List.append_nil]
  exact Reading.root_collect Node.stubMessage_onLeaves pattern

/-- **Every stub is reported, and every stub reported is there.** The stubs of the tree, in the order of a walk, have
the messages of the remarks on stubs, in their order; these are at offsets that increase; and the analysis counts as
many. -/
theorem stubs_are_reported (pattern : Text) :
    let r := Reading.ofPattern pattern
    r.root.stubMessages = r.stubs.map (·.message) ∧ r.stubs.Pairwise (fun d e => d.offset < e.offset) ∧
      r.root.analysis.stubs = r.stubs.length := by
  intro r
  have hmessages : r.root.stubMessages = r.stubs.map (·.message) := Reading.stubMessages_eq pattern
  refine ⟨hmessages, ?_, ?_⟩
  · have hsorted := (Reader.run_reports pattern.chars).sorted
    rwa [← Reading.stubs_eq] at hsorted
  · rw [Node.analysis_stubs, hmessages, List.length_map]

end MatcherGen
