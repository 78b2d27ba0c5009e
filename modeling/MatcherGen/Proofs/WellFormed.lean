/-
The shape of the trees that are read. The type of nodes is wide: a node may be absent, a literal empty, a choice without
arms, an operator unknown. The reader makes none of these, and its quantifiers, names and classes are as they should be.

Main statements:
- `suffix_wellFormed`, `atomPiece_wellFormed`: what is cut off the front has the shape, and what a quantifier follows
  may be repeated;
- `Reader.WellFormed.step`: a step keeps the shape of everything in the making;
- `Reading.root_wellFormed`: so the tree that is read has it;
- `Node.emitOr_eq_emit`: emission never comes to the ways out that it has for other trees.
-/
import MatcherGen.Emission.Emit
import MatcherGen.Proofs.Locality

namespace MatcherGen

/-! ## Well-formed trees -/

/-- the bounds that go with the operator; without an upper one it is -1 -/
def Quantity.WellFormed (q : Quantity) : Prop :=
  match q.op with
  | .star | .plus | .quest => q.min = 0 ∧ q.max = 0
  | .exact => 0 ≤ q.min ∧ q.min = q.max
  | .atLeast => 0 ≤ q.min ∧ q.max = -1
  | .between => 0 ≤ q.min ∧ q.min ≤ q.max
  | .unknown => False

namespace Node

/-- what an arm is -/
def IsSequence : Node → Prop
  | .seq _ => True
  | _ => False

/-- what the whole pattern and the inside of a group are -/
def IsExpression : Node → Prop
  | .seq _ | .alt _ => True
  | _ => False

/-- what a quantifier may follow: no repetition, and of the literals those of one character -/
def Repeatable : Node → Prop
  | .rep _ _ => False
  | .lit text _ => text.length = 1
  | _ => True

/-- trees as they should be; an absent node has no place in them -/
inductive WellFormed : Node → Prop where
  | seq (children : List Node) (h : ∀ x ∈ children, WellFormed x) : WellFormed (.seq children)
  | alt (arms : List Node) (htwo : 2 ≤ arms.length) (hseq : ∀ x ∈ arms, x.IsSequence) (h : ∀ x ∈ arms, WellFormed x) :
    WellFormed (.alt arms)
  | group (inner : Node) (capturing : Bool) (name : List Char) (hinner : inner.IsExpression) (h : WellFormed inner)
    (hnamed : name ≠ [] → capturing = true) (hname : ∀ c ∈ name, isLetter c = true ∨ isDigit c = true ∨ c = '_') :
    WellFormed (.group inner capturing name)
  | lit (text : List Char) (fold : Bool) (hne : text ≠ []) : WellFormed (.lit text fold)
  | dot (dotAll : Bool) : WellFormed (.dot dotAll)
  | anchor (kind : AnchorKind) (h : kind ∈ [.lineStart, .lineEnd, .textStart, .textEnd]) : WellFormed (.anchor kind)
  | cls (c : CharClass) (h : c.singles.Nodup) : WellFormed (.cls c)
  | esc (letter : Char) (h : letter ∈ ['d', 'D', 'w', 'W', 's', 'S']) : WellFormed (.esc letter)
  | rep (atom : Node) (q : Quantity) (hatom : atom.Repeatable) (h : WellFormed atom) (hq : q.WellFormed) :
    WellFormed (.rep atom q)
  | stub (message : List Char) : WellFormed (.stub message)

end Node

/-! ## Quantifiers -/

theorem BraceForm.wellFormed {text : List Char} {op : RepeatOp} {n : Nat} {hi : Option Nat} (h : BraceForm text op n hi)
    {min max : Int64} (hmin : min.toInt = n) (hmax : max.toInt = upperBound hi) (greedy : Bool) :
    (⟨op, min, max, greedy⟩ : Quantity).WellFormed := by
  have hpos : 0 ≤ min := Int64.le_iff_toInt_le.2 (by rw [hmin]; exact Int.natCast_nonneg n)
  cases h with
  | exact lo n hlo => exact ⟨hpos, Int64.toInt_inj.1 (hmin.trans hmax.symm)⟩
  | atLeast lo n hlo => exact ⟨hpos, Int64.toInt_inj.1 hmax⟩
  | between lo up n m hlo hup hle =>
    refine ⟨hpos, Int64.le_iff_toInt_le.2 ?_⟩
    rw [hmin, hmax]
    exact Int.ofNat_le.2 hle

/-- **A quantifier that is read has the bounds that go with its operator.** -/
theorem suffix_wellFormed {s : List Char} {q : Quantity} {size : Nat} (h : suffix s = .quantity q size) :
    q.WellFormed := by
  obtain ⟨text, r, -, op, lo, hi, hform, hq⟩ := suffix_quantity_iff.1 h
  have hany : ∀ greedy, (⟨op, lo, hi, greedy⟩ : Quantity).WellFormed := by
    intro greedy
    cases hform with
    | star | plus | quest => exact ⟨rfl, rfl⟩
    | braces text op n up min max hbraces hmin hmax => exact hbraces.wellFormed hmin hmax greedy
  rcases hq with ⟨-, rfl, -⟩ | ⟨-, rfl, -⟩
  · exact hany false
  · exact hany true

/-! ## Atoms -/

theorem isQuantifierStart_isMeta {c : Char} (h : isQuantifierStart c = true) : isMeta c = true := by
  simp only [isQuantifierStart, Bool.or_eq_true, beq_iff_eq] at h
  rcases h with ((rfl | rfl) | rfl) | rfl <;> decide

/-- a quantifier starts with one of its characters -/
theorem isQuantifierStart_of_suffix {c : Char} {t : List Char} {q : Quantity} {size : Nat}
    (h : suffix (c :: t) = .quantity q size) : isQuantifierStart c = true := by
  by_contra hc
  have hnone : suffix (c :: t) = .none := by
    rw [suffix_none_iff]
    intro c' t' heq
    obtain ⟨rfl, rfl⟩ := List.cons.inj heq
    simpa using hc
  exact absurd (hnone.symm.trans h) (by simp)

/-- **A literal run is followed by no quantifier**, unless it is a single character. -/
theorem runSize_quantified {c : Char} {s : List Char} (hc : isMeta c = false) {q : Quantity} {size : Nat}
    (h : suffix ((c :: s).drop (runSize (c :: s))) = .quantity q size) : runSize (c :: s) = 1 := by
  obtain ⟨run, rest, hsplit, hrun, hrest⟩ := exists_run (c :: s)
  rw [hsplit] at h ⊢
  cases rest with
  | nil =>
    rw [List.append_nil, runSize_at_end hrun, List.drop_length] at h
    exact absurd h (by simp [suffix])
  | cons m t =>
    rw [runSize_at_meta hrun (hrest m t rfl)] at h ⊢
    split_ifs at h ⊢ with hlong
    · -- the run leaves its last character to the quantifier, and no quantifier starts with that
      obtain rfl | ⟨init, last, rfl⟩ := List.eq_nil_or_concat run
      · exact absurd hlong (by simp)
      · have hlast : suffix (last :: m :: t) = .quantity q size := by simpa using h
        have hmeta := hrun last (by simp)
        rw [isQuantifierStart_isMeta (isQuantifierStart_of_suffix hlast)] at hmeta
        exact absurd hmeta (by simp)
    · have hne : run ≠ [] := by
        rintro rfl
        obtain ⟨rfl, -⟩ := List.cons.inj hsplit
        exact absurd (hrest c t rfl) (by simp [hc])
      have hm : suffix (m :: t) = .quantity q size := by simpa using h
      have hpos := List.length_pos_of_ne_nil hne
      simp only [isQuantifierStart_of_suffix hm, Bool.and_true, decide_eq_true_eq, not_lt] at hlong
      omega

theorem classPiece_wellFormed (flags : Flags) (pos : Nat) (s : List Char) :
    (classPiece flags pos s).node.WellFormed := by
  unfold classPiece
  dsimp only
  split <;> exact .cls _ (classBody_nodup _ _ _ List.nodup_nil)

theorem escapePiece_wellFormed (flags : Flags) (pos : Nat) (s : List Char) :
    (escapePiece flags pos s).node.WellFormed ∧ (escapePiece flags pos s).node.Repeatable := by
  unfold escapePiece
  cases s with
  | nil => exact ⟨.stub _, trivial⟩
  | cons c r =>
    dsimp only
    split_ifs with hshorthand
    · exact ⟨.esc c (by simpa [isShorthand, or_assoc] using hshorthand), trivial⟩
    · exact ⟨.anchor _ (by simp), trivial⟩
    · exact ⟨.anchor _ (by simp), trivial⟩
    · exact ⟨.stub _, trivial⟩
    · exact ⟨.stub _, trivial⟩
    · exact ⟨.stub _, trivial⟩
    · exact ⟨.stub _, trivial⟩
    · exact ⟨.lit _ _ (by simp), rfl⟩

/-- **An atom is well formed, and a quantifier follows it only if it may be repeated.** -/
theorem atomPiece_wellFormed (flags : Flags) (pos : Nat) (c : Char) (s : List Char) (hbar : c ≠ '|') (hclose : c ≠ ')')
    (hopen : c ≠ '(') :
    (atomPiece flags pos c s).node.WellFormed ∧
      ∀ q size, suffix ((c :: s).drop (atomPiece flags pos c s).size) = .quantity q size →
        (atomPiece flags pos c s).node.Repeatable := by
  unfold atomPiece
  split_ifs with h1 h2 h3 h4 h5 h6 h7
  · exact ⟨.anchor _ (by simp), fun _ _ _ => trivial⟩
  · exact ⟨.anchor _ (by simp), fun _ _ _ => trivial⟩
  · exact ⟨.dot _, fun _ _ _ => trivial⟩
  · exact ⟨classPiece_wellFormed flags pos s, fun _ _ _ => trivial⟩
  · exact ⟨(escapePiece_wellFormed flags pos s).1, fun _ _ _ => (escapePiece_wellFormed flags pos s).2⟩
  · exact ⟨.stub _, fun _ _ _ => trivial⟩
  · exact ⟨.lit _ _ (by simp), fun _ _ _ => rfl⟩
  · have hmeta : isMeta c = false := isMeta_eq_false (by simp_all) hbar hclose hopen
    have hlen : ((c :: s).take (runSize (c :: s))).length = runSize (c :: s) := by
      rw [List.length_take]
      exact Nat.min_eq_left (runSize_le (c :: s))
    refine ⟨.lit _ _ ?_, fun q size hq => ?_⟩
    · have hpos := runSize_pos c s hmeta
      exact List.ne_nil_of_length_pos (by omega)
    · exact hlen.trans (runSize_quantified hmeta hq)

/-! ## Expressions in the making -/

/-- the parts of an expression in the making are well formed -/
structure Branches.WellFormed (b : Branches) : Prop where
  sequences : ∀ x ∈ b.arms, x.IsSequence
  arms : ∀ x ∈ b.arms, x.WellFormed
  term : ∀ x ∈ b.term, x.WellFormed

theorem Branches.WellFormed.empty : (⟨[], []⟩ : Branches).WellFormed := ⟨by simp, by simp, by simp⟩

theorem Branches.WellFormed.push {b : Branches} (h : b.WellFormed) {l : List Node} (hl : ∀ x ∈ l, x.WellFormed) :
    (b.push l).WellFormed := by
  refine ⟨h.sequences, h.arms, fun x hx => ?_⟩
  rcases List.mem_append.1 hx with hx | hx
  · exact h.term x hx
  · exact hl x hx

/-- the arm at hand is one more arm -/
theorem Branches.WellFormed.all_arms {b : Branches} (h : b.WellFormed) :
    ∀ x ∈ b.arms ++ [.seq b.term], x.IsSequence ∧ x.WellFormed := by
  intro x hx
  rcases List.mem_append.1 hx with hx | hx
  · exact ⟨h.sequences x hx, h.arms x hx⟩
  · rw [List.mem_singleton.1 hx]
    exact ⟨trivial, .seq _ h.term⟩

theorem Branches.WellFormed.nextArm {b : Branches} (h : b.WellFormed) : b.nextArm.WellFormed :=
  ⟨fun x hx => (h.all_arms x hx).1, fun x hx => (h.all_arms x hx).2, by simp [Branches.nextArm]⟩

/-- the expression so far is well formed -/
theorem Branches.WellFormed.node {b : Branches} (h : b.WellFormed) : b.node.IsExpression ∧ b.node.WellFormed := by
  unfold Branches.node
  split
  · exact ⟨trivial, .seq _ h.term⟩
  · rename_i hne
    refine ⟨trivial, .alt _ ?_ (fun x hx => (h.all_arms x hx).1) fun x hx => (h.all_arms x hx).2⟩
    have hpos := List.length_pos_of_ne_nil hne
    rw [List.length_append, List.length_singleton]
    omega

/-- the front of a group and the expression around it are well formed -/
structure OpenGroup.WellFormed (g : OpenGroup) : Prop where
  outer : g.outer.WellFormed
  named : g.name ≠ [] → g.capturing = true
  name : ∀ c ∈ g.name, isLetter c = true ∨ isDigit c = true ∨ c = '_'

theorem isNameChar_cases {c : Char} (h : isNameChar c = true) : isLetter c = true ∨ isDigit c = true ∨ c = '_' := by
  simp only [isNameChar, Bool.or_eq_true, beq_iff_eq] at h
  tauto

/-- a front with a name captures, and the name is made of letters, digits and underscores -/
theorem GroupFront.wellNamed {front : List Char} {capturing : Bool} {name : List Char}
    (h : GroupFront front capturing name) :
    (name ≠ [] → capturing = true) ∧ ∀ c ∈ name, isLetter c = true ∨ isDigit c = true ∨ c = '_' := by
  cases h with
  | capturing => exact ⟨fun _ => rfl, by simp⟩
  | nonCapturing => exact ⟨fun hne => absurd rfl hne, by simp⟩
  | named name hne hall => exact ⟨fun _ => rfl, fun c hc => isNameChar_cases (hall c hc)⟩
  | namedShort name hne hall => exact ⟨fun _ => rfl, fun c hc => isNameChar_cases (hall c hc)⟩

/-- a group is well formed once its inside is -/
theorem OpenGroup.WellFormed.close {g : OpenGroup} (hg : g.WellFormed) {b : Branches} (hb : b.WellFormed) :
    (Node.group b.node g.capturing g.name).WellFormed :=
  .group _ _ _ hb.node.1 hb.node.2 hg.named hg.name

/-! ## The reader -/

namespace Reader

/-- everything in the making is well formed -/
structure WellFormed (r : Reader) : Prop where
  here : r.here.WellFormed
  opened : ∀ g ∈ r.opened, g.WellFormed

theorem WellFormed.addAtom {r : Reader} (h : r.WellFormed) {x : Node} (hx : x.WellFormed)
    (hrep : ∀ q size, suffix r.rest = .quantity q size → x.Repeatable) : (r.addAtom x).WellFormed := by
  unfold Reader.addAtom
  split
  · refine ⟨h.here.push ?_, h.opened⟩
    simpa using hx
  · rename_i q size hs
    refine ⟨h.here.push ?_, h.opened⟩
    simpa using Node.WellFormed.rep x q (hrep q size hs) hx (suffix_wellFormed hs)
  · refine ⟨h.here.push ?_, h.opened⟩
    simpa using ⟨hx, Node.WellFormed.stub _⟩

theorem WellFormed.addPiece {r : Reader} (h : r.WellFormed) {p : Piece} (hx : p.node.WellFormed)
    (hrep : ∀ q size, suffix (r.rest.drop p.size) = .quantity q size → p.node.Repeatable) :
    (r.addPiece p).WellFormed := by
  have hbefore : ({ r with flags := p.flags, remarks := r.remarks ++ p.remarks }.advance p.size).WellFormed :=
    ⟨h.here, h.opened⟩
  exact hbefore.addAtom hx hrep

/-- **A step keeps everything in the making well formed.** -/
theorem WellFormed.step {r r' : Reader} (hs : Step r r') (h : r.WellFormed) : r'.WellFormed := by
  obtain ⟨hhere, hopened⟩ := h
  cases hs with
  | arm s hr => exact ⟨hhere.nextArm, hopened⟩
  | close s g outer hr ho =>
    rw [ho] at hopened
    have hg := hopened g List.mem_cons_self
    have hbefore : ({ r with opened := outer, here := g.outer }.advance 1).WellFormed :=
      ⟨hg.outer, fun g' hg' => hopened g' (List.mem_cons_of_mem g hg')⟩
    exact hbefore.addAtom (hg.close hhere) fun _ _ _ => trivial
  | opens s capturing name size hr hg =>
    rw [hr] at hg
    obtain ⟨front, t, -, hfront, -, -⟩ := groupStart_opens_iff.1 hg
    refine ⟨.empty, fun g hg' => ?_⟩
    rcases List.mem_cons.1 hg' with rfl | hg'
    · exact ⟨hhere, hfront.wellNamed.1, hfront.wellNamed.2⟩
    · exact hopened g hg'
  | whole s p hr hg =>
    rw [hr] at hg
    have hbefore : r.WellFormed := ⟨hhere, hopened⟩
    rcases groupStart_whole hg with ⟨problem, -, rfl⟩ | ⟨letters, _, _, _, _, rfl⟩
    · exact hbefore.addPiece (.stub _) fun _ _ _ => trivial
    · exact hbefore.addPiece (.seq [] (by simp)) fun _ _ _ => trivial
  | atom c s hr hbar hclose hopen =>
    have hpiece := atomPiece_wellFormed r.flags r.pos c s hbar hclose hopen
    have hbefore : r.WellFormed := ⟨hhere, hopened⟩
    refine hbefore.addPiece hpiece.1 ?_
    rw [hr]
    exact hpiece.2

theorem start_wellFormed (s : List Char) : (start s).WellFormed := ⟨.empty, by simp [start]⟩

/-- closing the groups that are still open -/
theorem closeAll_wellFormed (opened : List OpenGroup) {here : Branches} (remarks : List Diagnostic)
    (hhere : here.WellFormed) (hopened : ∀ g ∈ opened, g.WellFormed) :
    (closeAll opened here remarks).1.WellFormed := by
  induction opened generalizing here remarks with
  | nil => exact hhere
  | cons g outer ih =>
    have hg := hopened g List.mem_cons_self
    refine ih _ (hg.outer.push ?_) fun g' hg' => hopened g' (List.mem_cons_of_mem g hg')
    simpa using hg.close hhere

end Reader

/-- **Every tree that is read is a well-formed expression.** -/
theorem Reading.root_wellFormed (pattern : Text) :
    (Reading.ofPattern pattern).root.IsExpression ∧ (Reading.ofPattern pattern).root.WellFormed := by
  have hrun : ((Reader.start pattern.chars).run pattern.chars.length).WellFormed :=
    Reader.run_keeps (fun _ _ hs h => h.step hs) _ _ (Reader.start_wellFormed pattern.chars)
  exact (Reader.closeAll_wellFormed _ _ hrun.here hrun.opened).node

/-! ## Emission -/

/-- the code of a choice, given that of its arms -/
def emitChoice (c : Style) (arms : Cont → Making (List Expr)) (k : Cont) : Making Block := fun n =>
  if c.legacy then
    let (tries, n') := arms .accept n
    ([retArms tries], n')
  else
    match k with
    | .named x =>
      let (tries, n') := arms (.named x) n
      ([retArms tries], n')
    | .delayed make =>
      let (tries, n₁) := arms (.named (.cont n)) (n + 1)
      if Expr.anyMentions (.cont n) tries then
        let (tail, n₂) := make n₁
        ([.define [.cont n] (.thunk tail), retArms tries], n₂)
      else ([retArms tries], n₁)

mutual
/-- emission with `out` in place of its ways out: the code for an absent node, for a choice without arms, for an empty
literal and for a repetition by an operator that nobody knows -/
def Node.emitOr (out : Nat → Node → Cont → Making Block) (c : Style) (depth : Nat) : Node → Cont → Making Block
  | .absent, k => out depth .absent k
  | .seq children, k => Node.emitSeqOr out c depth children k
  | .alt [], k => out depth (.alt []) k
  | .alt (x :: r), k => emitChoice c (Node.emitArmsOr out c depth (x :: r)) k
  | .group inner _ _, k => inner.emitOr out c depth k
  | .lit [] fold, k => out depth (.lit [] fold) k
  | .lit (x :: r) fold, k => emitLiteral c (x :: r) fold k
  | .dot dotAll, k => emitDot c dotAll k
  | .anchor kind, k => retCall kind.method [] k
  | .cls members, k => emitClass members k
  | .esc letter, k => emitShorthand letter k
  | .rep atom q, k =>
    match q.driver with
    | some (m, bounds) => fun n =>
      let (body, n') := atom.emitOr out c (depth + 1) (.named (.next (depth + 1))) n
      retCall m (bounds ++ [.func (some (depth + 1)) body]) k n'
    | none => out depth (.rep atom q) k
  | .stub message, k => emitStub c message k

/-- `emitOr` of the nodes one after the other -/
def Node.emitSeqOr (out : Nat → Node → Cont → Making Block) (c : Style) (depth : Nat) : List Node → Cont → Making Block
  | [], k => k.stmts
  | [x], k => x.emitOr out c depth k
  | x :: y :: r, k => x.emitOr out c depth (.delayed (Node.emitSeqOr out c depth (y :: r) k))

/-- `emitOr` of the arms of a choice -/
def Node.emitArmsOr (out : Nat → Node → Cont → Making Block) (c : Style) (depth : Nat) :
    List Node → Cont → Making (List Expr)
  | [], _ => fun n => ([], n)
  | x :: r, k => fun n =>
    let (body, n₁) := x.emitOr out c depth k n
    let (tries, n₂) := Node.emitArmsOr out c depth r k n₁
    (.invoke (.thunk body) :: tries, n₂)
end

theorem Node.emit_alt (c : Style) (d : Nat) (arms : List Node) (k : Cont) :
    (Node.alt arms).emit c d k = emitChoice c (Node.emitArms c d arms) k := by
  simp only [Node.emit]
  rfl

/-- a well-formed repetition has a driver -/
theorem Quantity.WellFormed.driver {q : Quantity} (h : q.WellFormed) : ∃ m bounds, q.driver = some (m, bounds) := by
  obtain ⟨op, lo, hi, greedy⟩ := q
  cases op with
  | unknown => exact absurd h (by simp [Quantity.WellFormed])
  | star | plus | quest | exact | atLeast | between => exact ⟨_, _, rfl⟩

/-- what stands at the ways out does not matter for the tree, or it is what emission makes there -/
def Node.OutMeets (out : Nat → Node → Cont → Making Block) (c : Style) (x : Node) : Prop :=
  x.WellFormed ∨ ∀ d y k, out d y k = y.emit c d k

/-- a child of a well-formed node is well formed -/
theorem Node.OutMeets.child {out : Nat → Node → Cont → Making Block} {c : Style} {x y : Node} (h : x.OutMeets out c)
    (hchild : x.WellFormed → y.WellFormed) : y.OutMeets out c := h.imp_left hchild

/-- at a way out stands what emission makes there, since no well-formed tree comes to it -/
theorem Node.OutMeets.way_out {out : Nat → Node → Cont → Making Block} {c : Style} {x : Node} (h : x.OutMeets out c)
    (hx : ¬ x.WellFormed) (d : Nat) (k : Cont) : out d x k = x.emit c d k := by
  rcases h with h | h
  · exact absurd h hx
  · exact h d x k

mutual
/-- **Emission of a well-formed tree never comes to a way out**: it makes the same code whatever stands there. On any
tree it makes the same code with its own ways out. -/
theorem Node.emitOr_eq_emit (out : Nat → Node → Cont → Making Block) (c : Style) (x : Node) (hx : x.OutMeets out c)
    (d : Nat) (k : Cont) : x.emitOr out c d k = x.emit c d k := by
  match x with
  | .absent =>
    rw [Node.emitOr]
    exact hx.way_out (fun h => by cases h) d k
  | .seq children =>
    simp only [Node.emitOr, Node.emit]
    refine Node.emitSeqOr_eq_emitSeq out c children (fun y hy => hx.child fun h => ?_) d k
    cases h with
    | seq _ h => exact h y hy
  | .alt [] =>
    rw [Node.emitOr]
    refine hx.way_out (fun h => ?_) d k
    cases h with
    | alt _ htwo _ _ => exact absurd htwo (by simp)
  | .alt (y :: r) =>
    have hall : ∀ z ∈ y :: r, z.OutMeets out c := by
      refine fun z hz => hx.child fun h => ?_
      cases h with
      | alt _ _ _ h => exact h z hz
    have harms : Node.emitArmsOr out c d (y :: r) = Node.emitArms c d (y :: r) :=
      funext fun k' => Node.emitArmsOr_eq_emitArms out c (y :: r) hall d k'
    rw [Node.emit_alt, Node.emitOr, harms]
  | .group inner capturing name =>
    simp only [Node.emitOr, Node.emit]
    refine Node.emitOr_eq_emit out c inner (hx.child fun h => ?_) d k
    cases h with
    | group _ _ _ _ h _ _ => exact h
  | .lit [] fold =>
    rw [Node.emitOr]
    refine hx.way_out (fun h => ?_) d k
    cases h with
    | lit _ _ hne => exact absurd rfl hne
  | .lit (y :: r) fold => simp only [Node.emitOr, Node.emit]
  | .dot dotAll => simp only [Node.emitOr, Node.emit]
  | .anchor kind => simp only [Node.emitOr, Node.emit]
  | .cls members => simp only [Node.emitOr, Node.emit]
  | .esc letter => simp only [Node.emitOr, Node.emit]
  | .rep atom q =>
    have hatom : atom.OutMeets out c := by
      refine hx.child fun h => ?_
      cases h with
      | rep _ _ _ h _ => exact h
    have hbody := Node.emitOr_eq_emit out c atom hatom (d + 1) (.named (.next (d + 1)))
    rcases hdriver : q.driver with _ | ⟨m, bounds⟩
    · have hunknown : ¬ (Node.rep atom q).WellFormed := by
        intro h
        cases h with
        | rep _ _ _ _ hq =>
          obtain ⟨m, bounds, hsome⟩ := hq.driver
          exact absurd (hdriver.symm.trans hsome) (by simp)
      simp only [Node.emitOr, hdriver]
      exact hx.way_out hunknown d k
    · simp only [Node.emitOr, Node.emit, hdriver, hbody]
  | .stub message => simp only [Node.emitOr, Node.emit]

theorem Node.emitSeqOr_eq_emitSeq (out : Nat → Node → Cont → Making Block) (c : Style) (l : List Node)
    (hl : ∀ x ∈ l, x.OutMeets out c) (d : Nat) (k : Cont) : Node.emitSeqOr out c d l k = Node.emitSeq c d l k := by
  match l with
  | [] => simp only [Node.emitSeqOr, Node.emitSeq]
  | [x] =>
    simp only [Node.emitSeqOr, Node.emitSeq]
    exact Node.emitOr_eq_emit out c x (hl x List.mem_cons_self) d k
  | x :: y :: r =>
    have htail := Node.emitSeqOr_eq_emitSeq out c (y :: r) (fun z hz => hl z (List.mem_cons_of_mem x hz)) d k
    simp only [Node.emitSeqOr, Node.emitSeq, htail]
    exact Node.emitOr_eq_emit out c x (hl x List.mem_cons_self) d _

theorem Node.emitArmsOr_eq_emitArms (out : Nat → Node → Cont → Making Block) (c : Style) (l : List Node)
    (hl : ∀ x ∈ l, x.OutMeets out c) (d : Nat) (k : Cont) : Node.emitArmsOr out c d l k = Node.emitArms c d l k := by
  match l with
  | [] => simp only [Node.emitArmsOr, Node.emitArms]
  | x :: r =>
    have hbody := Node.emitOr_eq_emit out c x (hl x List.mem_cons_self) d k
    have htries := Node.emitArmsOr_eq_emitArms out c r (fun z hz => hl z (List.mem_cons_of_mem x hz)) d k
    simp only [Node.emitArmsOr, Node.emitArms, hbody, htries]
end

/-- **Every tree that is read is well formed.** The root and the inside of every group is a sequence or a choice; nothing
is absent; choices have two arms or more, literals a character or more, and exactly one where they are repeated; no
repetition is repeated directly; bounds go with their operators, members of classes differ, names capture. So
emission, which is `emitOr` with its own ways out, never comes to a way out on the tree: it makes the same code whatever
stands there. -/
theorem reading_wellFormed (pattern : Text) :
    let root := (Reading.ofPattern pattern).root
    root.IsExpression ∧ root.WellFormed ∧ ∀ style,
      (∀ x : Node, ∀ depth k, x.emitOr (fun d y k' => y.emit style d k') style depth k = x.emit style depth k) ∧
      ∀ out depth k, root.emitOr out style depth k = root.emit style depth k := by
  obtain ⟨hexpression, hroot⟩ := Reading.root_wellFormed pattern
  refine ⟨hexpression, hroot, fun style => ⟨fun x depth k => ?_, fun out depth k => ?_⟩⟩
  · exact Node.emitOr_eq_emit _ style x (.inr fun _ _ _ => rfl) depth k
  · exact Node.emitOr_eq_emit out style _ (.inl hroot) depth k

end MatcherGen
