/-
The lengths of the texts that a tree stands for, and the fewest characters that the analysis gives. The analysis
computes in words that wrap, and in a choice it takes a negative best for no best. So it is a lower bound as long as
every arm of every choice has a length that fits into a word; an arm without one can hide the arms before it.

Main statements:
- `LowerBound.add`, `LowerBound.mul`: sums and products of lower bounds, wrapped or not, are lower bounds;
- `Node.WellFormed.lowerBound`: the analysis of a tree whose arms fit is a lower bound;
- `minLength_bounds_lengths`: so it is for the trees that are read, and it is not negative if any length fits;
- `overflow_hides_arm`: a pattern with an arm that does not fit, for which it is none.
-/
import Mathlib.Algebra.Group.Pointwise.Set.Basic
import Mathlib.Algebra.Order.BigOperators.Group.List
import MatcherGen.Pattern.Analysis
import MatcherGen.Proofs.WellFormed

namespace MatcherGen

open scoped Pointwise

/-! ## Lengths -/

/-- may the atom be repeated `k` times? -/
def Quantity.Allows (q : Quantity) (k : Nat) : Prop :=
  match q.op with
  | .star => True
  | .plus => 1 ≤ k
  | .quest => k ≤ 1
  | .exact => (k : Int) = q.min.toInt
  | .atLeast => q.min.toInt ≤ k
  | .between => q.min.toInt ≤ k ∧ k ≤ q.max.toInt
  | .unknown => False

mutual
/-- the numbers of characters that a match may take; a stub takes none -/
def Node.lengths : Node → Set Nat
  | .seq children => Node.lengthsSum children
  | .alt arms => Node.lengthsAny arms
  | .group inner _ _ => inner.lengths
  | .lit text _ => {text.length}
  | .dot _ | .cls _ | .esc _ => {1}
  | .rep atom q => {n | ∃ l : List Nat, q.Allows l.length ∧ (∀ k ∈ l, k ∈ atom.lengths) ∧ l.sum = n}
  | .absent | .anchor _ | .stub _ => {0}

/-- the sums of one length of each node -/
def Node.lengthsSum : List Node → Set Nat
  | [] => {0}
  | x :: r => x.lengths + Node.lengthsSum r

/-- the lengths of any of the nodes -/
def Node.lengthsAny : List Node → Set Nat
  | [] => ∅
  | x :: r => x.lengths ∪ Node.lengthsAny r
end

theorem Node.mem_lengthsAny {l : List Node} {n : Nat} : n ∈ Node.lengthsAny l ↔ ∃ x ∈ l, n ∈ x.lengths := by
  induction l with
  | nil => simp [Node.lengthsAny]
  | cons x r ih => simp [Node.lengthsAny, ih]

/-- a length of the atom, as many times as is allowed -/
theorem Node.mul_mem_lengths {atom : Node} {q : Quantity} {k n : Nat} (hk : q.Allows k) (hn : n ∈ atom.lengths) :
    k * n ∈ (Node.rep atom q).lengths := by
  refine ⟨List.replicate k n, by rwa [List.length_replicate], fun m hm => ?_, by rw [List.sum_replicate, smul_eq_mul]⟩
  rw [List.eq_of_mem_replicate hm]
  exact hn

/-! ## Words that wrap -/

/-- the word is not above the length, and it is negative only if the length does not fit into a word -/
structure LowerBound (v : Int64) (n : Nat) : Prop where
  le : v.toInt ≤ n
  large : v.toInt < 0 → 2 ^ 63 ≤ n

namespace LowerBound

variable {v w : Int64} {n m : Nat}

/-- wrapping makes no number larger, and negative only what does not fit -/
theorem of_wrapped {x : Int} (hx : 0 ≤ x) (hle : x ≤ n) (hv : v.toInt = x.bmod (2 ^ 64)) : LowerBound v n := by
  rw [Int.bmod_eq_emod] at hv
  constructor <;> split at hv <;> omega

/-- every word is a lower bound of what does not fit -/
theorem of_large (v : Int64) (h : 2 ^ 63 ≤ n) : LowerBound v n := by
  have hlt := v.toInt_lt
  exact ⟨by omega, fun _ => h⟩

theorem of_nonneg (hv : 0 ≤ v.toInt) (h : v.toInt ≤ n) : LowerBound v n := ⟨h, fun hneg => by omega⟩

theorem zero (n : Nat) : LowerBound 0 n := of_nonneg (le_refl _) (Int.natCast_nonneg n)

theorem ofNat (n : Nat) : LowerBound (Int64.ofNat n) n :=
  of_wrapped (Int.natCast_nonneg n) (le_refl _) Int64.toInt_ofNat'

theorem mono (h : LowerBound v n) (hle : n ≤ m) : LowerBound v m :=
  ⟨h.le.trans (by exact_mod_cast hle), fun hneg => (h.large hneg).trans hle⟩

/-- a lower bound of a length that fits is not negative -/
theorem nonneg (h : LowerBound v n) (hn : n < 2 ^ 63) : 0 ≤ v.toInt := by
  by_contra hneg
  have hlarge := h.large (by omega)
  omega

theorem add (hv : LowerBound v n) (hw : LowerBound w m) : LowerBound (v + w) (n + m) := by
  obtain ⟨hle, hlarge⟩ := hv
  obtain ⟨hle', hlarge'⟩ := hw
  by_cases hneg : v.toInt < 0 ∨ w.toInt < 0
  · exact of_large _ (by omega)
  · exact of_wrapped (by omega) (by omega) (Int64.toInt_add v w)

/-- at least `count` lengths with the same lower bound -/
theorem mul {count : Int64} (hcount : 0 ≤ count.toInt) {l : List Nat} (hl : count.toInt ≤ l.length)
    (h : ∀ n ∈ l, LowerBound v n) : LowerBound (count * v) l.sum := by
  cases l with
  | nil =>
    have hzero : count = 0 := Int64.toInt_inj.1 (le_antisymm hl hcount)
    rw [hzero, Int64.zero_mul]
    exact zero _
  | cons n r =>
    by_cases hneg : v.toInt < 0
    · have hlarge := (h n List.mem_cons_self).large hneg
      exact of_large _ (hlarge.trans (List.le_sum_of_mem List.mem_cons_self))
    · obtain ⟨k, hk⟩ := Int.eq_ofNat_of_zero_le (not_lt.1 hneg)
      have hall : ∀ m ∈ n :: r, k ≤ m := by
        intro m hm
        have hle := (h m hm).le
        omega
      have hsum : count.toInt * v.toInt ≤ ((n :: r).sum : Nat) := by
        calc count.toInt * v.toInt ≤ ((n :: r).length : Int) * k := by
              rw [hk]
              exact Int.mul_le_mul_of_nonneg_right hl (Int.natCast_nonneg k)
          _ ≤ ((n :: r).sum : Nat) := by exact_mod_cast List.card_nsmul_le_sum (n :: r) k hall
      exact of_wrapped (Int.mul_nonneg hcount (not_lt.1 hneg)) hsum (Int64.toInt_mul count v)

end LowerBound

/-! ## Trees -/

/-- every arm of every choice has a length that fits into a word -/
def Node.ArmsFit (root : Node) : Prop :=
  ∀ arms, .alt arms ∈ root.nodes → ∀ a ∈ arms, ∃ n ∈ a.lengths, n < 2 ^ 63

theorem Node.ArmsFit.of_subset {x y : Node} (h : x.ArmsFit) (hsub : y.nodes ⊆ x.nodes) : y.ArmsFit :=
  fun arms hm => h arms (hsub hm)

/-- the sum of lower bounds, added from the left -/
theorem LowerBound.sum {l : List Node} (h : ∀ x ∈ l, ∀ n ∈ x.lengths, LowerBound x.minLength n) {total : Int64} {t : Nat}
    (ht : LowerBound total t) {n : Nat} (hn : n ∈ Node.lengthsSum l) :
    LowerBound (Node.minLengthSum total l) (t + n) := by
  induction l generalizing total t n with
  | nil =>
    obtain rfl : n = 0 := by simpa [Node.lengthsSum] using hn
    exact ht
  | cons x r ih =>
    obtain ⟨k, hk, m, hm, rfl⟩ := Set.mem_add.1 hn
    rw [Node.minLengthSum, ← Nat.add_assoc]
    exact ih (fun y hy => h y (List.mem_cons_of_mem x hy)) (ht.add (h x List.mem_cons_self k hk)) hm

/-- a best that is none of the negative words is kept unless the next is smaller -/
theorem shorter_toInt {best : Int64} (hbest : 0 ≤ best.toInt) (next : Int64) :
    (shorter best next).toInt = min best.toInt next.toInt := by
  have hnone : ¬ best < 0 := by rw [Int64.lt_iff_toInt_lt]; exact not_lt.2 hbest
  simp only [shorter, hnone, decide_false, Bool.false_or, decide_eq_true_eq, Int64.lt_iff_toInt_lt]
  split <;> omega

/-- the best of words that are not negative is not above any of them -/
theorem minLengthBest_le {l : List Node} (h : ∀ x ∈ l, 0 ≤ x.minLength.toInt) {best : Int64} (hbest : 0 ≤ best.toInt) :
    0 ≤ (Node.minLengthBest best l).toInt ∧ (Node.minLengthBest best l).toInt ≤ best.toInt ∧
      ∀ x ∈ l, (Node.minLengthBest best l).toInt ≤ x.minLength.toInt := by
  induction l generalizing best with
  | nil => exact ⟨hbest, le_refl _, by simp⟩
  | cons x r ih =>
    have hx := h x List.mem_cons_self
    have hshorter := shorter_toInt hbest x.minLength
    have hbest' : 0 ≤ (shorter best x.minLength).toInt := by omega
    obtain ⟨hnonneg, hle, hall⟩ := ih (fun y hy => h y (List.mem_cons_of_mem x hy)) hbest'
    rw [Node.minLengthBest]
    refine ⟨hnonneg, by omega, fun y hy => ?_⟩
    rcases List.mem_cons.1 hy with rfl | hy
    · omega
    · exact hall y hy

/-- a choice whose arms are bounded by words that are not negative -/
theorem LowerBound.choice {arms : List Node} (h : ∀ a ∈ arms, ∀ n ∈ a.lengths, LowerBound a.minLength n)
    (hnonneg : ∀ a ∈ arms, 0 ≤ a.minLength.toInt) {n : Nat} (hn : n ∈ (Node.alt arms).lengths) :
    LowerBound (Node.alt arms).minLength n := by
  obtain ⟨a, ha, hna⟩ := Node.mem_lengthsAny.1 hn
  cases arms with
  | nil => exact absurd ha List.not_mem_nil
  | cons b r =>
    -- the first arm replaces the mark for no best
    have hfirst : Node.minLengthBest (-1) (b :: r) = Node.minLengthBest b.minLength r := rfl
    obtain ⟨hbest, hle, hall⟩ := minLengthBest_le (fun x hx => hnonneg x (List.mem_cons_of_mem b hx))
      (hnonneg b List.mem_cons_self)
    have hmin : (Node.minLengthBest b.minLength r).toInt ≤ a.minLength.toInt := by
      rcases List.mem_cons.1 ha with rfl | ha
      · exact hle
      · exact hall a ha
    have hkept : (Node.alt (b :: r)).minLength = Node.minLengthBest b.minLength r := by
      have hnot : ¬ Node.minLengthBest b.minLength r < 0 := by rw [Int64.lt_iff_toInt_lt]; exact not_lt.2 hbest
      simp only [Node.minLength, hfirst, hnot, if_false]
    rw [hkept]
    exact of_nonneg hbest (hmin.trans (h a ha n hna).le)

/-- repetitions of an atom that is bounded -/
theorem LowerBound.rep {atom : Node} {q : Quantity} (hq : q.WellFormed)
    (h : ∀ n ∈ atom.lengths, LowerBound atom.minLength n) {n : Nat} (hn : n ∈ (Node.rep atom q).lengths) :
    LowerBound (Node.rep atom q).minLength n := by
  obtain ⟨l, hallows, hl, rfl⟩ := hn
  have hall : ∀ k ∈ l, LowerBound atom.minLength k := fun k hk => h k (hl k hk)
  obtain ⟨op, lo, hi, greedy⟩ := q
  cases op with
  | star | quest => exact zero _
  | plus =>
    obtain ⟨k, r, rfl⟩ := List.exists_cons_of_length_pos hallows
    exact (hall k List.mem_cons_self).mono (List.le_sum_of_mem List.mem_cons_self)
  | exact => exact mul (Int64.le_iff_toInt_le.1 hq.1) (le_of_eq hallows.symm) hall
  | atLeast => exact mul (Int64.le_iff_toInt_le.1 hq.1) hallows hall
  | between => exact mul (Int64.le_iff_toInt_le.1 hq.1) hallows.1 hall
  | unknown => exact hq.elim

/-- **The analysis gives a lower bound** of all lengths of a tree whose arms fit. -/
theorem Node.WellFormed.lowerBound {x : Node} (h : x.WellFormed) (hfit : x.ArmsFit) {n : Nat} (hn : n ∈ x.lengths) :
    LowerBound x.minLength n := by
  induction h generalizing n with
  | seq children _ ih =>
    have hall : ∀ x ∈ children, ∀ k ∈ x.lengths, LowerBound x.minLength k := by
      intro x hx k hk
      exact ih x hx (hfit.of_subset (Node.nodes_subset_seq hx)) hk
    have hsum := LowerBound.sum hall (.zero 0) hn
    rwa [Nat.zero_add] at hsum
  | alt arms _ _ _ ih =>
    have hall : ∀ a ∈ arms, ∀ k ∈ a.lengths, LowerBound a.minLength k := by
      intro a ha k hk
      exact ih a ha (hfit.of_subset (Node.nodes_subset_alt ha)) hk
    refine LowerBound.choice hall (fun a ha => ?_) hn
    obtain ⟨k, hk, hlt⟩ := hfit arms (by simp) a ha
    exact (hall a ha k hk).nonneg hlt
  | group inner capturing name _ _ _ _ ih => exact ih (hfit.of_subset (by simp)) hn
  | lit text fold _ =>
    rw [Set.mem_singleton_iff.1 hn]
    exact .ofNat text.length
  | dot | cls | esc =>
    rw [Set.mem_singleton_iff.1 hn]
    exact .ofNat 1
  | rep atom q _ _ hq ih => exact .rep hq (fun k hk => ih (hfit.of_subset (by simp)) hk) hn
  | anchor | stub => exact .zero n

/-- some number of repetitions is allowed -/
theorem Quantity.WellFormed.exists_allowed {q : Quantity} (h : q.WellFormed) : ∃ k, q.Allows k := by
  obtain ⟨op, lo, hi, greedy⟩ := q
  cases op with
  | star => exact ⟨0, trivial⟩
  | plus => exact ⟨1, le_refl 1⟩
  | quest => exact ⟨0, Nat.zero_le 1⟩
  | exact => exact ⟨lo.toInt.toNat, Int.toNat_of_nonneg (Int64.le_iff_toInt_le.1 h.1)⟩
  | atLeast => exact ⟨lo.toInt.toNat, Int.self_le_toNat _⟩
  | between =>
    have hlo := Int.toNat_of_nonneg (Int64.le_iff_toInt_le.1 h.1)
    exact ⟨lo.toInt.toNat, le_of_eq hlo.symm, hlo.trans_le (Int64.le_iff_toInt_le.1 h.2)⟩
  | unknown => exact h.elim

theorem Node.lengthsSum_nonempty {l : List Node} (h : ∀ x ∈ l, x.lengths.Nonempty) :
    (Node.lengthsSum l).Nonempty := by
  induction l with
  | nil => exact Set.singleton_nonempty 0
  | cons x r ih =>
    exact (h x List.mem_cons_self).add (ih fun y hy => h y (List.mem_cons_of_mem x hy))

/-- every tree has a length -/
theorem Node.WellFormed.lengths_nonempty {x : Node} (h : x.WellFormed) : x.lengths.Nonempty := by
  induction h with
  | seq children _ ih => exact Node.lengthsSum_nonempty ih
  | alt arms htwo _ _ ih =>
    obtain ⟨a, r, rfl⟩ := List.exists_cons_of_length_pos (Nat.zero_lt_of_lt htwo)
    obtain ⟨n, hn⟩ := ih a List.mem_cons_self
    exact ⟨n, Node.mem_lengthsAny.2 ⟨a, List.mem_cons_self, hn⟩⟩
  | group inner capturing name _ _ _ _ ih => exact ih
  | lit | dot | cls | esc | anchor | stub => exact Set.singleton_nonempty _
  | rep atom q _ _ hq ih =>
    obtain ⟨k, hk⟩ := hq.exists_allowed
    obtain ⟨n, hn⟩ := ih
    exact ⟨k * n, Node.mul_mem_lengths hk hn⟩

/-- **The analysis of a pattern bounds the lengths of its matches**, provided that every arm of every choice has a length
that fits into a word. There are lengths; the fewest characters that the analysis gives are at most each of them, and
they are negative only if no length fits into a word. -/
theorem minLength_bounds_lengths (pattern : Text) (hfit : (Reading.ofPattern pattern).root.ArmsFit) :
    let root := (Reading.ofPattern pattern).root
    root.lengths.Nonempty ∧
    (∀ n ∈ root.lengths, root.analysis.minLength.toInt ≤ n) ∧
    ((∃ n ∈ root.lengths, n < 2 ^ 63) → 0 ≤ root.analysis.minLength.toInt) := by
  intro root
  have hroot : root.WellFormed := (Reading.root_wellFormed pattern).2
  refine ⟨hroot.lengths_nonempty, fun n hn => (hroot.lowerBound hfit hn).le, ?_⟩
  rintro ⟨n, hn, hlt⟩
  exact (hroot.lowerBound hfit hn).nonneg hlt

/-- a choice with an arm of the greatest length that fits: `b{9223372036854775807}|cc` -/
def greatestArm : Text := .ofString "b{9223372036854775807}|cc"

/-- both arms of the choice fit, and its lengths are bounded by 2 -/
theorem greatestArm_bounded :
    let root := (Reading.ofPattern greatestArm).root
    root.ArmsFit ∧ root.analysis.minLength = 2 ∧ (∀ n ∈ root.lengths, 2 ≤ n) ∧
      (2 ∈ root.lengths ∧ 0 ≤ root.analysis.minLength.toInt) := by
  intro root
  let repeated : Node := .rep (.lit ['b'] false) ⟨.exact, 9223372036854775807, 9223372036854775807, true⟩
  have hroot : root = .alt [.seq [repeated], .seq [.lit ['c', 'c'] false]] := rfl
  have hlong : 9223372036854775807 ∈ (Node.seq [repeated]).lengths :=
    ⟨_, Node.mul_mem_lengths (q := ⟨.exact, 9223372036854775807, 9223372036854775807, true⟩) rfl rfl, 0, rfl, rfl⟩
  have hshort : 2 ∈ (Node.seq [.lit ['c', 'c'] false]).lengths := ⟨2, rfl, 0, rfl, rfl⟩
  have hfit : root.ArmsFit := by
    intro arms hm a ha
    rw [hroot] at hm
    obtain rfl : arms = [.seq [repeated], .seq [.lit ['c', 'c'] false]] := by
      simpa [repeated, Node.nodes, Node.visit, Node.visitAll] using hm
    rcases List.mem_pair.1 ha with rfl | rfl
    · exact ⟨_, hlong, by decide⟩
    · exact ⟨2, hshort, by decide⟩
  have hmin : root.analysis.minLength = 2 := by decide
  have hmem : 2 ∈ root.lengths := Node.mem_lengthsAny.2 ⟨_, List.mem_pair.2 (.inr rfl), hshort⟩
  obtain ⟨-, hbound, hnonneg⟩ := minLength_bounds_lengths greatestArm hfit
  refine ⟨hfit, hmin, fun n hn => ?_, hmem, hnonneg ⟨2, hmem, by decide⟩⟩
  have hle := hbound n hn
  have htwo : (2 : Int64).toInt = 2 := rfl
  rw [hmin, htwo] at hle
  exact_mod_cast hle

/-- an empty arm, one whose length does not fit, and one of two characters: `|b{9223372036854775807}c|dd` -/
def overflowingChoice : Text := .ofString "|b{9223372036854775807}c|dd"

/-- the length of the second arm wraps to a negative word, which then counts as no best: the empty arm is forgotten,
and what the analysis gives is not a lower bound -/
theorem overflow_hides_arm :
    let root := (Reading.ofPattern overflowingChoice).root
    0 ∈ root.lengths ∧ root.analysis.minLength = 2 ∧ ¬ ∀ n ∈ root.lengths, root.analysis.minLength.toInt ≤ n := by
  intro root
  have hzero : 0 ∈ root.lengths := Node.mem_lengthsAny.2 ⟨.seq [], List.mem_cons_self, rfl⟩
  have hmin : root.analysis.minLength = 2 := by decide
  refine ⟨hzero, hmin, fun h => ?_⟩
  have hle := h 0 hzero
  rw [hmin] at hle
  exact absurd hle (by decide)

end MatcherGen
