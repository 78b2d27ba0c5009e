/-
Nested repetitions are found exactly. Two walks look for them, one inside the other, and what they have found is also what
ends them: a walk goes below a node only as long as it has found nothing. That misses nothing, since a walk that ends early
ends with the answer that it would give at the end.

Main statements:
- `Node.walk_seeks`: a walk that ends with the first node it looks for answers whether there is one;
- `Node.mem_nodes_iff`: a walk comes to exactly the parts of a tree;
- `Node.hasNested_iff`, `nested_iff_repetition_inside`: what the two walks answer.
-/
import MatcherGen.Pattern.Analysis
import Mathlib.Tactic

namespace MatcherGen

/-! ## Walks that look for a node -/

section

variable {act : Bool → Node → Bool × Bool} {p : Node → Bool}

/-- a walk in search of a node with `p`: it has found one, or goes on -/
def Seeks (act : Bool → Node → Bool × Bool) (p : Node → Bool) : Prop :=
  ∀ found x, act found x = (found || p x, !(found || p x))

/-- a node with others below it, if the walk below it answers right -/
theorem Seeks.node (h : Seeks act p) (found : Bool) (x : Node) {below : List Node} {go : Bool → Bool}
    (hgo : ∀ s, go s = (s || below.any p)) :
    (if (act found x).2 then go (act found x).1 else (act found x).1) = (found || (x :: below).any p) := by
  rw [h, List.any_cons, ← Bool.or_assoc]
  cases hx : found || p x with
  | true => rfl
  | false => exact hgo false

theorem Seeks.leaf (h : Seeks act p) (found : Bool) (x : Node) : (act found x).1 = (found || [x].any p) := by
  rw [h]
  simp

mutual
/-- **A walk that ends with the first node it looks for** answers whether there is one. -/
theorem Node.walk_seeks (h : Seeks act p) (n : Node) (found : Bool) : n.walk act found = (found || n.nodes.any p) := by
  match n with
  | .absent => exact (Bool.or_false found).symm
  | .seq children =>
    rw [Node.nodes_seq, Node.walk]
    exact h.node found _ (Node.walkAll_seeks h children)
  | .alt arms =>
    rw [Node.nodes_alt, Node.walk]
    exact h.node found _ (Node.walkAll_seeks h arms)
  | .group inner capturing name =>
    rw [Node.nodes_group, Node.walk]
    exact h.node found _ (Node.walk_seeks h inner)
  | .rep atom q =>
    rw [Node.nodes_rep, Node.walk]
    exact h.node found _ (Node.walk_seeks h atom)
  | .lit text fold => exact h.leaf found _
  | .dot dotAll => exact h.leaf found _
  | .anchor kind => exact h.leaf found _
  | .cls c => exact h.leaf found _
  | .esc letter => exact h.leaf found _
  | .stub message => exact h.leaf found _

theorem Node.walkAll_seeks (h : Seeks act p) (l : List Node) (found : Bool) :
    Node.walkAll act found l = (found || (l.flatMap Node.nodes).any p) := by
  match l with
  | [] => exact (Bool.or_false found).symm
  | x :: r =>
    rw [Node.walkAll, Node.walk_seeks h x, Node.walkAll_seeks h r, List.flatMap_cons, List.any_append, Bool.or_assoc]
end

end

/-! ## Parts of a tree -/

/-- `x` is the tree itself or stands in it, at any depth -/
inductive Node.Within (x : Node) : Node → Prop where
  | refl : Within x x
  | seq {children : List Node} {y : Node} (hy : y ∈ children) (h : Within x y) : Within x (.seq children)
  | alt {arms : List Node} {y : Node} (hy : y ∈ arms) (h : Within x y) : Within x (.alt arms)
  | group {inner : Node} (capturing : Bool) (name : List Char) (h : Within x inner) :
    Within x (.group inner capturing name)
  | rep {atom : Node} (q : Quantity) (h : Within x atom) : Within x (.rep atom q)

theorem Node.Within.mem_nodes {x n : Node} (h : x.Within n) (hx : x ≠ .absent) : x ∈ n.nodes := by
  induction h with
  | refl =>
    cases x with
    | absent => exact absurd rfl hx
    | seq | alt | group | rep => simp
    | lit | dot | anchor | cls | esc | stub => exact List.mem_cons_self
  | seq hy _ ih => exact Node.nodes_subset_seq hy ih
  | alt hy _ ih => exact Node.nodes_subset_alt hy ih
  | group capturing name _ ih =>
    rw [Node.nodes_group]
    exact List.mem_cons_of_mem _ ih
  | rep q _ ih =>
    rw [Node.nodes_rep]
    exact List.mem_cons_of_mem _ ih

mutual
theorem Node.within_of_mem_nodes {x : Node} (n : Node) (h : x ∈ n.nodes) : x.Within n := by
  match n with
  | .absent => exact absurd h List.not_mem_nil
  | .seq children =>
    rw [Node.nodes_seq, List.mem_cons] at h
    rcases h with rfl | h
    · exact .refl
    · obtain ⟨y, hy, hwithin⟩ := Node.within_of_mem_flatMap children h
      exact .seq hy hwithin
  | .alt arms =>
    rw [Node.nodes_alt, List.mem_cons] at h
    rcases h with rfl | h
    · exact .refl
    · obtain ⟨y, hy, hwithin⟩ := Node.within_of_mem_flatMap arms h
      exact .alt hy hwithin
  | .group inner capturing name =>
    rw [Node.nodes_group, List.mem_cons] at h
    rcases h with rfl | h
    · exact .refl
    · exact .group capturing name (Node.within_of_mem_nodes inner h)
  | .rep atom q =>
    rw [Node.nodes_rep, List.mem_cons] at h
    rcases h with rfl | h
    · exact .refl
    · exact .rep q (Node.within_of_mem_nodes atom h)
  | .lit .. | .dot _ | .anchor _ | .cls _ | .esc _ | .stub _ =>
    obtain rfl := List.mem_singleton.1 h
    exact .refl

theorem Node.within_of_mem_flatMap {x : Node} (l : List Node) (h : x ∈ l.flatMap Node.nodes) : ∃ y ∈ l, x.Within y := by
  match l with
  | [] => exact absurd h List.not_mem_nil
  | y :: r =>
    rw [List.flatMap_cons, List.mem_append] at h
    rcases h with h | h
    · exact ⟨y, List.mem_cons_self, Node.within_of_mem_nodes y h⟩
    · obtain ⟨z, hz, hwithin⟩ := Node.within_of_mem_flatMap r h
      exact ⟨z, List.mem_cons_of_mem y hz, hwithin⟩
end

/-- **A walk comes to exactly the parts of a tree**, those that are absent apart. -/
theorem Node.mem_nodes_iff {x n : Node} (hx : x ≠ .absent) : x ∈ n.nodes ↔ x.Within n :=
  ⟨Node.within_of_mem_nodes n, fun h => h.mem_nodes hx⟩

/-! ## Nested repetitions -/

/-- is the node a repetition that can repeat and has a repetition inside? -/
def Node.nestsRepetition : Node → Bool
  | .rep atom q => q.repeats && atom.nodes.any Node.isRep
  | _ => false

theorem Node.seekRep_seeks : Seeks Node.seekRep Node.isRep := fun _ _ => rfl

theorem Node.seekNested_seeks : Seeks Node.seekNested Node.nestsRepetition := by
  intro found x
  cases found with
  | true => rfl
  | false =>
    cases x with
    | rep atom q =>
      rw [Node.seekNested, Node.walk_seeks Node.seekRep_seeks atom, Node.nestsRepetition]
      cases q.repeats <;> rfl
    | absent | seq | alt | group | lit | dot | anchor | cls | esc | stub => rfl

/-- a test that only repetitions pass, put to all nodes of a tree -/
theorem Node.any_rep_iff {p : Node → Bool} (hp : ∀ x, p x = true → ∃ atom q, x = .rep atom q) {n : Node} :
    n.nodes.any p = true ↔ ∃ atom q, (Node.rep atom q).Within n ∧ p (.rep atom q) = true := by
  rw [List.any_eq_true]
  constructor
  · rintro ⟨x, hx, hpx⟩
    obtain ⟨atom, q, rfl⟩ := hp x hpx
    exact ⟨atom, q, (Node.mem_nodes_iff (by simp)).1 hx, hpx⟩
  · rintro ⟨atom, q, hwithin, hpx⟩
    exact ⟨_, (Node.mem_nodes_iff (by simp)).2 hwithin, hpx⟩

theorem Node.isRep_only {x : Node} (h : x.isRep = true) : ∃ atom q, x = .rep atom q := by
  cases x with
  | rep atom q => exact ⟨atom, q, rfl⟩
  | absent | seq | alt | group | lit | dot | anchor | cls | esc | stub => exact absurd h (by simp [Node.isRep])

theorem Node.nestsRepetition_iff {atom : Node} {q : Quantity} :
    (Node.rep atom q).nestsRepetition = true ↔ q.repeats = true ∧ ∃ inner r, (Node.rep inner r).Within atom := by
  rw [Node.nestsRepetition, Bool.and_eq_true, Node.any_rep_iff fun _ => Node.isRep_only]
  simp [Node.isRep]

theorem Node.nestsRepetition_only {x : Node} (h : x.nestsRepetition = true) : ∃ atom q, x = .rep atom q := by
  apply Node.isRep_only
  cases x with
  | rep => rfl
  | absent | seq | alt | group | lit | dot | anchor | cls | esc | stub => exact absurd h (by simp [Node.nestsRepetition])

/-- **The two walks** answer whether a repetition that can repeat has one inside. -/
theorem Node.hasNested_iff {root : Node} :
    root.hasNested = true ↔
      ∃ atom q, (Node.rep atom q).Within root ∧ q.repeats = true ∧ ∃ inner r, (Node.rep inner r).Within atom := by
  rw [Node.hasNested, Node.walk_seeks Node.seekNested_seeks, Bool.false_or,
    Node.any_rep_iff fun _ => Node.nestsRepetition_only]
  simp only [Node.nestsRepetition_iff]

/-- the repetition can apply its atom more than once -/
def Quantity.CanRepeat (q : Quantity) : Prop :=
  q.op = .star ∨ q.op = .plus ∨ q.op = .atLeast ∨ q.op = .exact ∧ 1 < q.min.toInt ∨ q.op = .between ∧ 1 < q.max.toInt

theorem Quantity.repeats_iff {q : Quantity} (h : q.op ≠ .unknown) : q.repeats = true ↔ q.CanRepeat := by
  obtain ⟨op, lo, hi, greedy⟩ := q
  cases op with
  | unknown => exact absurd rfl h
  | star | plus | quest | atLeast => simp [Quantity.repeats, Quantity.CanRepeat]
  | exact | between => simp [Quantity.repeats, Quantity.CanRepeat, Int64.lt_iff_toInt_lt]

/-- **Nested repetitions are found exactly.** For every tree without unknown operators, of any shape and with any bounds: the
analysis reports nesting if and only if some repetition in the tree can apply its atom more than once and another repetition
stands in that atom, at any depth. -/
theorem nested_iff_repetition_inside (root : Node)
    (hknown : ∀ atom q, (Node.rep atom q).Within root → q.op ≠ .unknown) :
    root.analysis.nested = true ↔
      ∃ atom q, (Node.rep atom q).Within root ∧ q.CanRepeat ∧ ∃ inner r, (Node.rep inner r).Within atom := by
  have hnested : root.analysis.nested = root.hasNested := rfl
  rw [hnested, Node.hasNested_iff]
  constructor
  · rintro ⟨atom, q, hwithin, hrepeats, hinner⟩
    exact ⟨atom, q, hwithin, (Quantity.repeats_iff (hknown atom q hwithin)).1 hrepeats, hinner⟩
  · rintro ⟨atom, q, hwithin, hcan, hinner⟩
    exact ⟨atom, q, hwithin, (Quantity.repeats_iff (hknown atom q hwithin)).2 hcan, hinner⟩

/-- a repetition of a group -/
def repeatedGroup (op : RepeatOp) (lo hi : Int64) (body : Node) : Node := .rep (.group body false []) ⟨op, lo, hi, true⟩

/-- the tree of `(?:a*)?(?:x|(?:b?){0,1}){2}`: three repetitions have another inside, one of them can repeat it -/
def laterNesting : Node :=
  .seq [
    repeatedGroup .quest 0 0 (.seq [.rep (.lit ['a'] false) ⟨.star, 0, 0, true⟩]),
    repeatedGroup .exact 2 2
      (.alt [.seq [.lit ['x'] false],
        .seq [repeatedGroup .between 0 1 (.seq [.rep (.lit ['b'] false) ⟨.quest, 0, 0, true⟩])]])]

theorem laterNesting_nested :
    (∀ atom q, (Node.rep atom q).Within laterNesting → q.op ≠ .unknown) ∧ laterNesting.analysis.nested = true := by
  have hknown : ∀ atom q, (Node.rep atom q).Within laterNesting → q.op ≠ .unknown := by
    intro atom q h
    have hmem := h.mem_nodes (by simp)
    simp [laterNesting, repeatedGroup, Node.nodes, Node.visit, Node.visitAll] at hmem
    rcases hmem with ⟨-, rfl⟩ | ⟨-, rfl⟩ | ⟨-, rfl⟩ | ⟨-, rfl⟩ | ⟨-, rfl⟩ <;> simp
  refine ⟨hknown, (nested_iff_repetition_inside laterNesting hknown).2 ?_⟩
  refine ⟨_, ⟨.exact, 2, 2, true⟩, .seq (List.mem_cons_of_mem _ List.mem_cons_self) .refl, ?_, ?_⟩
  · exact .inr (.inr (.inr (.inl ⟨rfl, by decide⟩)))
  · exact ⟨_, _, .group false [] (.alt (List.mem_cons_of_mem _ List.mem_cons_self) (.seq List.mem_cons_self .refl))⟩

end MatcherGen
