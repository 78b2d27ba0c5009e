/-
Reading is compositional: a pattern that is built from parts reads as the tree that is built from their trees. The
parts are patterns that are read to their end without remarks.

Main statements:
- `Text.readsAs_iff`: such a reading is a run of the reader that finishes;
- `Reader.Finishes.enclosed`, `Reader.Finishes.arms`, `Reader.Finishes.followed`: a part between parentheses, two
  parts with a bar between them, a part before a group;
- `reading_composes`: the trees of groups, quantified groups, choices and sequences of parts.
-/
import Mathlib.Data.List.ModifyLast
import MatcherGen.Proofs.Locality

namespace MatcherGen

/-! ## Readings and runs -/

/-- the pattern is read to its end without remarks, and this is what is read -/
structure Text.ReadsAs (t : Text) (flags : Flags) (root : Node) : Prop where
  complete : (Reading.ofPattern t).complete = true
  diagnostics : (Reading.ofPattern t).diagnostics = []
  flags : (Reading.ofPattern t).flags = flags
  root : (Reading.ofPattern t).root = root

namespace Reader

/-- the end of a run does not depend on how it is reached -/
theorem run_eq_of_steps {r r' : Reader} (h : Relation.ReflTransGen Step r r') (hstop : r'.step = none) {n : Nat}
    (hn : r.rest.length ≤ n) : r.run n = r' := by
  induction h using Relation.ReflTransGen.head_induction_on generalizing n with
  | refl =>
    cases n with
    | zero => rfl
    | succ n => simp [run, hstop]
  | head hstep _ ih =>
    rename_i r r₁ _
    obtain ⟨k, hk, ht⟩ := hstep.takes
    have hle := ht.le
    have hlen : r₁.rest.length = r.rest.length - k := by rw [ht.rest, List.length_drop]
    cases n with
    | zero => omega
    | succ n =>
      simp only [run, (step_eq_some_iff _ _).2 hstep]
      exact ih (by omega)

/-- every state on the way runs on to the same end -/
theorem Reachable.run_eq {s : List Char} {r : Reader} (h : Reachable s r) :
    (start s).run s.length = r.run r.rest.length :=
  run_eq_of_steps (h.trans (steps_run r _)) (run_stops _ r (le_refl _)) (le_refl _)

theorem closeAll_remarks_prefix (opened : List OpenGroup) (here : Branches) (remarks : List Diagnostic) :
    remarks <+: (closeAll opened here remarks).2 := by
  induction opened generalizing here remarks with
  | nil => exact List.prefix_refl _
  | cons g outer ih => exact (List.prefix_append _ _).trans (ih _ _)

theorem closeAll_eq_nil {opened : List OpenGroup} {here : Branches} {remarks : List Diagnostic}
    (h : (closeAll opened here remarks).2 = []) : opened = [] ∧ remarks = [] := by
  cases opened with
  | nil => exact ⟨rfl, h⟩
  | cons g outer =>
    have hprefix := closeAll_remarks_prefix outer (g.outer.push [.group here.node g.capturing g.name])
      (remarks ++ [Problem.unterminatedGroup.at g.start])
    rw [closeAll] at h
    rw [h] at hprefix
    exact absurd (List.prefix_nil.1 hprefix) (by simp)

end Reader

/-- a run that finishes tells what is read -/
theorem Reader.Finishes.readsAs {t : Text} {r : Reader} (h : Finishes t.chars r) : t.ReadsAs r.flags r.here.node := by
  have hstop : r.step = none := (step_eq_none_iff r).2 (.inl h.rest)
  have hrun : (start t.chars).run t.chars.length = r := run_eq_of_steps h.reached hstop (le_refl _)
  have hclose : closeAll r.opened r.here r.remarks = (r.here, []) := by rw [h.opened, h.clean]; rfl
  have hend : t.chars.length ≤ r.pos := by
    have hrest := h.reached.inside.rest
    rw [h.rest] at hrest
    exact List.drop_eq_nil_iff.1 hrest.symm
  constructor <;> simp only [Reading.complete, Reading.ofPattern, hrun, hclose]
  exact decide_eq_true hend

/-- **A pattern is read without remarks** exactly if a run of the reader over it finishes. -/
theorem Text.readsAs_iff {t : Text} {flags : Flags} {root : Node} :
    t.ReadsAs flags root ↔ ∃ r, Reader.Finishes t.chars r ∧ r.flags = flags ∧ r.here.node = root := by
  constructor
  · rintro ⟨hcomplete, hdiagnostics, rfl, rfl⟩
    have hreached := Reader.run_reachable t.chars t.chars.length
    obtain ⟨hopened, hclean⟩ := Reader.closeAll_eq_nil hdiagnostics
    have hrest : ((Reader.start t.chars).run t.chars.length).rest = [] := by
      rw [hreached.inside.rest, List.drop_eq_nil_iff]
      exact of_decide_eq_true hcomplete
    have hfinishes : Reader.Finishes t.chars _ := ⟨hreached, hrest, hopened, hclean⟩
    exact ⟨_, hfinishes, hfinishes.readsAs.flags.symm, hfinishes.readsAs.root.symm⟩
  · rintro ⟨r, h, rfl, rfl⟩
    exact h.readsAs

/-! ## Trees -/

/-- the arms of an expression: those of a choice, or the expression itself -/
def Node.arms : Node → List Node
  | .alt arms => arms
  | x => [x]

/-- an expression with one more factor -/
def Node.followedBy : Node → Node → Node
  | .seq factors, x => .seq (factors ++ [x])
  | y, x => .seq [y, x]

/-- an expression with one more factor in its last, or only, arm -/
def Node.extendLast : Node → Node → Node
  | .alt arms, x => .alt (arms.modifyLast (·.followedBy x))
  | y, x => y.followedBy x

theorem Branches.node_of_arms {b : Branches} (h : b.arms ≠ []) : b.node = .alt (b.arms ++ [.seq b.term]) := by
  unfold Branches.node
  split
  · rename_i hnil
    exact absurd hnil h
  · rfl

theorem Branches.arms_node (b : Branches) : b.node.arms = b.arms ++ [.seq b.term] := by
  rcases b with ⟨_ | ⟨a, arms⟩, term⟩
  · rfl
  · rfl

theorem Branches.node_push (b : Branches) (x : Node) : (b.push [x]).node = b.node.extendLast x := by
  rcases b with ⟨_ | ⟨a, arms⟩, term⟩
  · rfl
  · have hlast := List.modifyLast_concat (·.followedBy x) (.seq term) (a :: arms)
    exact congrArg Node.alt hlast.symm

/-! ## Groups -/

namespace Reader

/-- opening a group -/
theorem step_open {r : Reader} {front : List Char} {capturing : Bool} {name : List Char}
    (hf : GroupFront front capturing name) {s : List Char} (hr : r.rest = front ++ s)
    (hs : front = ['('] → ∀ t, s ≠ '?' :: t) :
    Step r (r.openGroup capturing name front.length) := by
  obtain ⟨s', hs'⟩ : ∃ s', front ++ s = '(' :: s' := by cases hf <;> exact ⟨_, rfl⟩
  rw [hs'] at hr
  refine .opens s' capturing name front.length hr ?_
  rw [hr]
  exact groupStart_opens_iff.2 ⟨front, s, hs'.symm, hf, rfl, hs⟩

/-- closing a group, with the quantifier that follows -/
theorem step_close {r : Reader} {s : List Char} {g : OpenGroup} {outer : List OpenGroup} (hr : r.rest = ')' :: s)
    (ho : r.opened = g :: outer) (hs : ∀ n, suffix s ≠ .malformed n) :
    ∃ r', Step r r' ∧ r'.rest = s.drop (suffix s).size ∧ r'.flags = r.flags ∧ r'.remarks = r.remarks ∧
      r'.opened = outer ∧ r'.here = g.outer.push [(suffix s).wrap (.group r.here.node g.capturing g.name)] := by
  have hrest : ({ r with opened := outer, here := g.outer }.advance 1).rest = s := by simp [advance, hr]
  refine ⟨_, .close s g outer hr ho, ?_⟩
  rw [addAtom_eq (by rwa [hrest]), hrest]
  exact ⟨rfl, rfl, rfl, rfl, rfl⟩

theorem steps_remarks {r r' : Reader} (h : Relation.ReflTransGen Step r r') (hr' : r'.remarks = []) :
    r.remarks = [] := by
  induction h with
  | refl => exact hr'
  | tail _ hstep ih => exact ih (hstep.remarks_eq_nil hr')

/-- a part that is read without remarks does not start with a question mark: there is nothing to repeat -/
theorem Finishes.ne_quest {s : List Char} {r : Reader} (h : Finishes s r) : ∀ t, s ≠ '?' :: t := by
  rintro t rfl
  rcases Relation.ReflTransGen.cases_head h.reached with heq | ⟨r₁, hstep, hsteps⟩
  · have := h.rest
    rw [← heq] at this
    exact absurd this (by simp [start])
  · have hclean := steps_remarks hsteps h.clean
    have hfirst : (start ('?' :: t)).step = some ((start ('?' :: t)).addPiece (atomPiece ⟨false, false⟩ 0 '?' t)) := rfl
    rw [(step_eq_some_iff _ _).2 hstep] at hfirst
    rw [Option.some.inj hfirst] at hclean
    exact absurd (addPiece_remarks hclean).2.1 (by simp [atomPiece, Piece.stub])

/-- **A part between parentheses** adds one factor: the group of its tree, with the quantifier that follows. -/
theorem Finishes.enclosed {s : List Char} {r : Reader} (h : Finishes s r) {front : List Char} {capturing : Bool}
    {name : List Char} (hf : GroupFront front capturing name) {tail : List Char}
    (htail : ∀ n, suffix tail ≠ .malformed n) (r' : Reader) (hrest : r'.rest = front ++ (s ++ ')' :: tail))
    (hflags : r'.flags = ⟨false, false⟩) (hclean : r'.remarks = []) :
    ∃ r₁, Relation.ReflTransGen Step r' r₁ ∧ r₁.rest = tail.drop (suffix tail).size ∧ r₁.flags = r.flags ∧
      r₁.remarks = [] ∧ r₁.opened = r'.opened ∧
      r₁.here = r'.here.push [(suffix tail).wrap (.group r.here.node capturing name)] := by
  have hboundary : Boundary (')' :: tail) := .cons (by simp) tail
  have hopen := step_open hf hrest fun _ => hboundary.ne_quest h.ne_quest
  have hrest' : (r'.openGroup capturing name front.length).rest = s ++ ')' :: tail := by
    simp [openGroup, advance, hrest]
  obtain ⟨r₂, hsteps, hrest₂, hflags₂, hclean₂, hopened₂, hhere₂⟩ := h.embed hboundary _ hrest' hflags hclean rfl
  obtain ⟨r₁, hclose, hrest₁, hflags₁, hclean₁, hopened₁, hhere₁⟩ := step_close hrest₂ hopened₂ htail
  refine ⟨r₁, (hsteps.head hopen).tail hclose, hrest₁, hflags₁.trans hflags₂, hclean₁.trans hclean₂, hopened₁, ?_⟩
  have hnode : r₂.here = r.here := by rw [hhere₂]; rfl
  rw [hhere₁, hnode]

/-- **Two parts with a bar between them**: the arms of the first, then those of the second. -/
theorem Finishes.arms {s t : List Char} {r u : Reader} (hs : Finishes s r) (ht : Finishes t u)
    (hflags : r.flags = ⟨false, false⟩) :
    ∃ r₁, Finishes (s ++ '|' :: t) r₁ ∧ r₁.flags = u.flags ∧
      r₁.here.node = .alt (r.here.node.arms ++ u.here.node.arms) := by
  have hboundary : Boundary ('|' :: t) := .cons (by simp) t
  obtain ⟨r₂, hsteps₂, hrest₂, hflags₂, hclean₂, hopened₂, hhere₂⟩ :=
    hs.embed hboundary (start (s ++ '|' :: t)) rfl rfl rfl rfl
  have hbar : Step r₂ ({ r₂ with here := r₂.here.nextArm }.advance 1) := .arm t hrest₂
  obtain ⟨r₁, hsteps₁, hrest₁, hflags₁, hclean₁, hopened₁, hhere₁⟩ :=
    ht.embed .nil ({ r₂ with here := r₂.here.nextArm }.advance 1) (by simp [advance, hrest₂])
      (hflags₂.trans hflags) hclean₂ rfl
  refine ⟨r₁, ⟨(hsteps₂.tail hbar).trans hsteps₁, hrest₁, hopened₁.trans hopened₂, hclean₁⟩, hflags₁, ?_⟩
  have harms : r₁.here.arms = r.here.node.arms ++ u.here.arms := by
    rw [hhere₁, Branches.arms_node]
    simp [advance, Branches.nextArm, hhere₂, start]
  have hterm : r₁.here.term = u.here.term := by rw [hhere₁]
  have hne : r₁.here.arms ≠ [] := by simp [harms, Branches.arms_node]
  rw [Branches.node_of_arms hne, harms, hterm, Branches.arms_node u.here, List.append_assoc]

/-- **A part before a group**: the group is one more factor of the last arm. -/
theorem Finishes.followed {s t : List Char} {r u : Reader} (hs : Finishes s r) (ht : Finishes t u)
    (hflags : r.flags = ⟨false, false⟩) {front : List Char} {capturing : Bool} {name : List Char}
    (hf : GroupFront front capturing name) :
    ∃ r₁, Finishes (s ++ (front ++ (t ++ [')']))) r₁ ∧ r₁.flags = u.flags ∧
      r₁.here.node = r.here.node.extendLast (.group u.here.node capturing name) := by
  have hboundary : Boundary (front ++ (t ++ [')'])) := by
    cases hf <;> exact .cons (by simp) _
  obtain ⟨r₂, hsteps₂, hrest₂, hflags₂, hclean₂, hopened₂, hhere₂⟩ :=
    hs.embed hboundary (start (s ++ (front ++ (t ++ [')'])))) rfl rfl rfl rfl
  obtain ⟨r₁, hsteps₁, hrest₁, hflags₁, hclean₁, hopened₁, hhere₁⟩ :=
    ht.enclosed hf (by simp [suffix]) r₂ hrest₂ (hflags₂.trans hflags) hclean₂
  refine ⟨r₁, ⟨hsteps₂.trans hsteps₁, hrest₁, hopened₁.trans hopened₂, hclean₁⟩, hflags₁, ?_⟩
  rw [hhere₁, hhere₂]
  exact Branches.node_push r.here _

end Reader

/-! ## Patterns from parts -/

/-- a part between parentheses, and a quantifier or nothing after it -/
theorem Text.ReadsAs.enclosed {p : Text} {flags : Flags} {x : Node} (h : p.ReadsAs flags x) {front : List Char}
    {capturing : Bool} {name : List Char} (hf : GroupFront front capturing name) (tail : List Char)
    (htail : ∀ n, suffix tail ≠ .malformed n) (hall : tail.drop (suffix tail).size = []) :
    (Text.ofChars front ++ p ++ Text.ofChars (')' :: tail)).ReadsAs flags
      (.seq [(suffix tail).wrap (.group x capturing name)]) := by
  obtain ⟨r, hr, rfl, rfl⟩ := Text.readsAs_iff.1 h
  obtain ⟨r₁, hsteps, hrest, hflags, hclean, hopened, hhere⟩ :=
    hr.enclosed hf htail (Reader.start (front ++ (p.chars ++ ')' :: tail))) rfl rfl rfl
  refine Text.readsAs_iff.2 ⟨r₁, ?_, hflags, ?_⟩
  · simp only [Text.chars_append, Text.chars_ofChars, List.append_assoc]
    exact ⟨hsteps, hrest.trans hall, hopened, hclean⟩
  · rw [hhere]
    rfl

theorem QuantifierForm.suffix_eq {text : List Char} {op : RepeatOp} {lo hi : Int64} (h : QuantifierForm text op lo hi)
    (lazy : Bool) :
    suffix (text ++ if lazy then ['?'] else []) =
      .quantity ⟨op, lo, hi, !lazy⟩ (text ++ if lazy then ['?'] else []).length := by
  refine suffix_quantity_iff.2 ⟨text, _, rfl, op, lo, hi, h, ?_⟩
  cases lazy with
  | false => exact .inr ⟨by simp, rfl, by simp⟩
  | true => exact .inl ⟨⟨[], rfl⟩, rfl, by simp⟩

/-- **Reading is compositional.** Let `p` and `q` be read without remarks. Then `p` between parentheses is read as the
group of its tree, and with a quantifier after it as that group repeated. If `p` leaves no switches on, `p|q` is the
choice between the arms of both, and `p(?:q)` has the group of `q` as one more factor of the last arm of `p`. -/
theorem reading_composes (p q : Text) (pflags qflags : Flags) (x y : Node) (hp : p.ReadsAs pflags x)
    (hq : q.ReadsAs qflags y) :
    (∀ front capturing name, GroupFront front capturing name →
      (Text.ofChars front ++ p ++ Text.ofString ")").ReadsAs pflags (.seq [.group x capturing name])) ∧
    (∀ text op lo hi, QuantifierForm text op lo hi → ∀ lazy : Bool,
      (Text.ofString "(?:" ++ p ++ Text.ofString ")" ++ Text.ofChars text ++
          Text.ofString (if lazy then "?" else "")).ReadsAs pflags
        (.seq [.rep (.group x false []) ⟨op, lo, hi, !lazy⟩])) ∧
    (pflags = ⟨false, false⟩ →
      (p ++ Text.ofString "|" ++ q).ReadsAs qflags (.alt (x.arms ++ y.arms)) ∧
      (p ++ Text.ofString "(?:" ++ q ++ Text.ofString ")").ReadsAs qflags (x.extendLast (.group y false []))) := by
  refine ⟨fun front capturing name hf => ?_, fun text op lo hi hform lazy => ?_, fun hflags => ⟨?_, ?_⟩⟩
  · exact hp.enclosed hf [] (by simp [suffix]) rfl
  · have hsuffix := hform.suffix_eq lazy
    have h := hp.enclosed .nonCapturing (text ++ if lazy then ['?'] else []) (by simp [hsuffix])
      (by simp [hsuffix, Suffix.size])
    rw [hsuffix] at h
    cases lazy <;> simpa [Text.ofString, Text.ofChars, Suffix.wrap] using h
  · obtain ⟨r, hr, rfl, rfl⟩ := Text.readsAs_iff.1 hp
    obtain ⟨u, hu, rfl, rfl⟩ := Text.readsAs_iff.1 hq
    obtain ⟨r₁, h, hflags₁, hnode⟩ := hr.arms hu hflags
    refine Text.readsAs_iff.2 ⟨r₁, ?_, hflags₁, hnode⟩
    simpa [Text.ofString] using h
  · obtain ⟨r, hr, rfl, rfl⟩ := Text.readsAs_iff.1 hp
    obtain ⟨u, hu, rfl, rfl⟩ := Text.readsAs_iff.1 hq
    obtain ⟨r₁, h, hflags₁, hnode⟩ := hr.followed hu hflags .nonCapturing
    refine Text.readsAs_iff.2 ⟨r₁, ?_, hflags₁, hnode⟩
    simpa [Text.ofString] using h

/-- a pattern with two arms: `a|[b-d]` -/
def twoArms : Text := .ofChars ['a', '|', '[', 'b', '-', 'd', ']']

/-- the tree of the two arms -/
def twoArmsTree : Node := .alt [.seq [.lit ['a'] false], .seq [.cls ⟨false, [], [⟨'b'.toNat, 'd'.toNat⟩]⟩]]

/-- a pattern that leaves a switch on: `(?i)x` -/
def folded : Text := .ofChars ['(', '?', 'i', ')', 'x']

/-- the tree of the letter; the switch is an empty sequence before it -/
def foldedTree : Node := .seq [.seq [], .lit ['x'] true]

/-- the two arms in a named group, repeated lazily, before an arm and before a group that leaves a switch on -/
theorem twoArms_compose :
    twoArms.ReadsAs ⟨false, false⟩ twoArmsTree ∧ folded.ReadsAs ⟨true, false⟩ foldedTree ∧
    (Text.ofChars "(?P<k_1>".toList ++ twoArms ++ Text.ofString ")").ReadsAs ⟨false, false⟩
      (.seq [.group twoArmsTree true "k_1".toList]) ∧
    (Text.ofString "(?:" ++ twoArms ++ Text.ofString ")" ++ Text.ofChars ['{', '2', ',', '3', '}'] ++
        Text.ofString "?").ReadsAs ⟨false, false⟩
      (.seq [.rep (.group twoArmsTree false []) ⟨.between, 2, 3, false⟩]) ∧
    (twoArms ++ Text.ofString "|" ++ folded).ReadsAs ⟨true, false⟩ (.alt (twoArmsTree.arms ++ [foldedTree])) ∧
    (twoArms ++ Text.ofString "(?:" ++ folded ++ Text.ofString ")").ReadsAs ⟨true, false⟩
      (.alt [.seq [.lit ['a'] false], .seq [.cls ⟨false, [], [⟨'b'.toNat, 'd'.toNat⟩]⟩,
        .group foldedTree false []]]) := by
  have harms : twoArms.ReadsAs ⟨false, false⟩ twoArmsTree := ⟨by decide, rfl, rfl, rfl⟩
  have hfolded : folded.ReadsAs ⟨true, false⟩ foldedTree := ⟨by decide, rfl, rfl, rfl⟩
  have hbraces : QuantifierForm ['{', '2', ',', '3', '}'] .between 2 3 :=
    .braces _ _ 2 (some 3) _ _ (.between ['2'] ['3'] 2 3 ⟨by simp, List.all_eq_true.1 rfl, rfl, by decide⟩
      ⟨by simp, List.all_eq_true.1 rfl, rfl, by decide⟩ (by decide)) rfl rfl
  obtain ⟨hgroups, hrepeats, happends⟩ := reading_composes _ _ _ _ _ _ harms hfolded
  exact ⟨harms, hfolded, hgroups _ _ _ (.named "k_1".toList (by simp) (List.all_eq_true.1 rfl)),
    hrepeats _ _ _ _ hbraces true, happends rfl⟩

end MatcherGen
