/-
The fewest characters of a match, exactly. The analysis computes in words that wrap; here the same computation is made in
integers that do not. Its result is the least of the lengths that a tree stands for, and as long as no sum and no product
on the way leaves the range of a word, the analysis gives it too. A repetition that may be left out is not looked into,
so nothing inside it can go wrong.

Main statements:
- `Node.WellFormed.exactLength_isLeast`: without wrapping, the computation gives the least length;
- `Node.WellFormed.exactLength_lt`: it fits into a word if the sums and products on the way do;
- `Node.WellFormed.minLength_toInt`: then words give the same number;
- `minLength_is_least`: so the analysis of a pattern is exact unless something overflows.
-/
import MatcherGen.Proofs.Lengths

namespace MatcherGen

open scoped Pointwise

/-! ## The computation without wrapping -/

/-- the smaller of the best length so far and the next one; a negative best is no best -/
def exactShorter (best next : Int) : Int := if best < 0 || next < best then next else best

mutual
/-- the fewest characters a match takes, computed as the analysis does in integers that do not wrap -/
def Node.exactLength : Node → Int
  | .seq children => Node.exactSum 0 children
  | .alt arms => let best := Node.exactBest (-1) arms; if best < 0 then 0 else best
  | .group inner _ _ => inner.exactLength
  | .lit text _ => text.length
  | .dot _ | .cls _ | .esc _ => 1
  | .rep atom q =>
    match q.op with
    | .star | .quest => 0
    | .plus => atom.exactLength
    | _ => q.min.toInt * atom.exactLength
  | .absent | .anchor _ | .stub _ => 0

/-- the sum of the lengths, added to `total` from the left -/
def Node.exactSum (total : Int) : List Node → Int
  | [] => total
  | x :: r => Node.exactSum (total + x.exactLength) r

/-- the best of the lengths, taken from the left -/
def Node.exactBest (best : Int) : List Node → Int
  | [] => best
  | x :: r => Node.exactBest (exactShorter best x.exactLength) r
end

mutual
/-- the sums and products that this computation comes to, in its order -/
def Node.partials : Node → List Int
  | .seq children => Node.partialSums 0 children
  | .alt arms => Node.partialsAll arms
  | .group inner _ _ => inner.partials
  | .rep atom q =>
    match q.op with
    | .star | .quest => []
    | .plus => atom.partials
    | _ => atom.partials ++ [q.min.toInt * atom.exactLength]
  | .absent | .lit _ _ | .dot _ | .anchor _ | .cls _ | .esc _ | .stub _ => []

/-- those of a sum that starts with `total` -/
def Node.partialSums (total : Int) : List Node → List Int
  | [] => []
  | x :: r => x.partials ++ (total + x.exactLength) :: Node.partialSums (total + x.exactLength) r

/-- those of nodes one after the other -/
def Node.partialsAll : List Node → List Int
  | [] => []
  | x :: r => x.partials ++ Node.partialsAll r
end

/-- no sum and no product leaves the range of a word -/
def Node.Fits (x : Node) : Prop := ∀ v ∈ x.partials, v < 2 ^ 63

theorem Node.mem_partialsAll {l : List Node} {v : Int} : v ∈ Node.partialsAll l ↔ ∃ x ∈ l, v ∈ x.partials := by
  induction l with
  | nil => simp [Node.partialsAll]
  | cons x r ih => simp [Node.partialsAll, ih]

/-! ## The least length -/

/-- the integer is the least of the lengths of the node -/
def Node.Least (x : Node) (v : Int) : Prop := ∃ n : Nat, v = n ∧ IsLeast x.lengths n

theorem Node.Least.nonneg {x : Node} {v : Int} (h : x.Least v) : 0 ≤ v := by
  obtain ⟨n, rfl, -⟩ := h
  exact Int.natCast_nonneg n

/-- the least number of repetitions -/
def Quantity.fewest (q : Quantity) : Nat :=
  match q.op with
  | .star | .quest => 0
  | .plus => 1
  | _ => q.min.toInt.toNat

theorem Quantity.WellFormed.fewest_isLeast {q : Quantity} (h : q.WellFormed) : IsLeast {k | q.Allows k} q.fewest := by
  obtain ⟨op, lo, hi, greedy⟩ := q
  cases op with
  | star => exact ⟨trivial, fun k _ => Nat.zero_le k⟩
  | plus => exact ⟨le_refl 1, fun k hk => hk⟩
  | quest => exact ⟨Nat.zero_le 1, fun k _ => Nat.zero_le k⟩
  | exact =>
    have hlo := Int.toNat_of_nonneg (Int64.le_iff_toInt_le.1 h.1)
    exact ⟨hlo, fun k hk => Int.toNat_le.2 (le_of_eq hk.symm)⟩
  | atLeast => exact ⟨Int.self_le_toNat _, fun k hk => Int.toNat_le.2 hk⟩
  | between =>
    have hlo := Int.toNat_of_nonneg (Int64.le_iff_toInt_le.1 h.1)
    exact ⟨⟨le_of_eq hlo.symm, hlo.trans_le (Int64.le_iff_toInt_le.1 h.2)⟩, fun k hk => Int.toNat_le.2 hk.1⟩
  | unknown => exact h.elim

theorem Node.exactLength_rep {atom : Node} {q : Quantity} (hq : q.WellFormed) :
    (Node.rep atom q).exactLength = q.fewest * atom.exactLength := by
  obtain ⟨op, lo, hi, greedy⟩ := q
  cases op with
  | star | quest => exact (zero_mul _).symm
  | plus => exact (one_mul _).symm
  | exact | atLeast | between =>
    have hlo := Int.toNat_of_nonneg (Int64.le_iff_toInt_le.1 hq.1)
    simp only [Node.exactLength, Quantity.fewest, hlo]
  | unknown => exact hq.elim

/-- the least length, as few times as is allowed -/
theorem Node.Least.rep {atom : Node} {q : Quantity} (hq : q.WellFormed) (h : atom.Least atom.exactLength) :
    (Node.rep atom q).Least (Node.rep atom q).exactLength := by
  obtain ⟨n, hn, hmem, hmin⟩ := h
  obtain ⟨hallowed, hfewest⟩ := hq.fewest_isLeast
  refine ⟨q.fewest * n, by rw [Node.exactLength_rep hq, hn, Nat.cast_mul], Node.mul_mem_lengths hallowed hmem, ?_⟩
  rintro m ⟨l, hallows, hl, rfl⟩
  calc q.fewest * n ≤ l.length * n := Nat.mul_le_mul_right n (hfewest hallows)
    _ ≤ l.sum := List.card_nsmul_le_sum l n fun k hk => hmin (hl k hk)

/-- the least lengths of nodes one after the other add up -/
theorem Node.exactSum_isLeast {l : List Node} (h : ∀ x ∈ l, x.Least x.exactLength) (total : Int) :
    ∃ n : Nat, Node.exactSum total l = total + n ∧ IsLeast (Node.lengthsSum l) n := by
  induction l generalizing total with
  | nil => exact ⟨0, (add_zero total).symm, isLeast_singleton⟩
  | cons x r ih =>
    obtain ⟨n, hn, hmem, hmin⟩ := h x List.mem_cons_self
    obtain ⟨m, hm, hmem', hmin'⟩ := ih (fun y hy => h y (List.mem_cons_of_mem x hy)) (total + x.exactLength)
    refine ⟨n + m, by rw [Node.exactSum, hm, hn, Nat.cast_add, add_assoc], Set.add_mem_add hmem hmem', ?_⟩
    rintro k ⟨a, ha, b, hb, rfl⟩
    exact add_le_add (hmin ha) (hmin' hb)

/-- a best that is no mark is kept unless the next is smaller -/
theorem exactShorter_of_nonneg {best : Int} (hbest : 0 ≤ best) (next : Int) :
    exactShorter best next = min best next := by
  simp only [exactShorter, not_lt.2 hbest, decide_false, Bool.false_or, decide_eq_true_eq]
  split <;> omega

/-- the best of the least lengths, from the least of a set on -/
theorem Node.exactBest_isLeast {l : List Node} (h : ∀ x ∈ l, x.Least x.exactLength) {s : Set Nat} {best : Nat}
    (hs : IsLeast s best) :
    ∃ n : Nat, Node.exactBest best l = n ∧ IsLeast (s ∪ Node.lengthsAny l) n := by
  induction l generalizing s best with
  | nil => exact ⟨best, rfl, by rwa [Node.lengthsAny, Set.union_empty]⟩
  | cons x r ih =>
    obtain ⟨n, hn, hleast⟩ := h x List.mem_cons_self
    have hshorter : exactShorter best x.exactLength = (min best n : Nat) := by
      rw [exactShorter_of_nonneg (Int.natCast_nonneg best), hn, Nat.cast_min]
    rw [Node.exactBest, hshorter, Node.lengthsAny, ← Set.union_assoc]
    exact ih (fun y hy => h y (List.mem_cons_of_mem x hy)) (hs.union hleast)

/-- the least length of a choice is that of an arm -/
theorem Node.Least.choice {arms : List Node} (hne : arms ≠ []) (h : ∀ a ∈ arms, a.Least a.exactLength) :
    (Node.alt arms).Least (Node.alt arms).exactLength := by
  obtain ⟨a, r, rfl⟩ := List.exists_cons_of_ne_nil hne
  obtain ⟨k, hk, hleast⟩ := h a List.mem_cons_self
  obtain ⟨n, hn, hall⟩ := Node.exactBest_isLeast (fun x hx => h x (List.mem_cons_of_mem a hx)) hleast
  refine ⟨n, ?_, hall⟩
  -- the first arm replaces the mark for no best
  have hfirst : Node.exactBest (-1) (a :: r) = n := by
    rw [← hn, ← hk]
    rfl
  simp only [Node.exactLength, hfirst]
  exact if_neg (not_lt.2 (Int.natCast_nonneg n))

/-- **Without wrapping, the computation gives the least length** of a tree. -/
theorem Node.WellFormed.exactLength_isLeast {x : Node} (h : x.WellFormed) : x.Least x.exactLength := by
  induction h with
  | seq children _ ih =>
    obtain ⟨n, hn, hleast⟩ := Node.exactSum_isLeast ih 0
    exact ⟨n, hn.trans (zero_add _), hleast⟩
  | alt arms htwo _ _ ih => exact .choice (List.ne_nil_of_length_pos (Nat.zero_lt_of_lt htwo)) ih
  | group inner capturing name _ _ _ _ ih => exact ih
  | lit text fold _ => exact ⟨text.length, rfl, isLeast_singleton⟩
  | dot | cls | esc => exact ⟨1, rfl, isLeast_singleton⟩
  | rep atom q _ _ hq ih => exact .rep hq ih
  | anchor | stub => exact ⟨0, rfl, isLeast_singleton⟩

/-! ## What fits -/

/-- the last sum is the result -/
theorem Node.exactSum_lt {l : List Node} {total : Int} (ht : total < 2 ^ 63)
    (hfit : ∀ v ∈ Node.partialSums total l, v < 2 ^ 63) : Node.exactSum total l < 2 ^ 63 := by
  induction l generalizing total with
  | nil => exact ht
  | cons x r ih =>
    rw [Node.partialSums] at hfit
    have hnext := hfit _ (List.mem_append_right _ List.mem_cons_self)
    exact ih hnext fun v hv => hfit v (List.mem_append_right _ (List.mem_cons_of_mem _ hv))

theorem Node.exactBest_lt {l : List Node} {best : Int} (hbest : best < 2 ^ 63)
    (h : ∀ x ∈ l, x.exactLength < 2 ^ 63) : Node.exactBest best l < 2 ^ 63 := by
  induction l generalizing best with
  | nil => exact hbest
  | cons x r ih =>
    refine ih ?_ fun y hy => h y (List.mem_cons_of_mem x hy)
    unfold exactShorter
    split
    · exact h x List.mem_cons_self
    · exact hbest

theorem Node.Fits.arm {arms : List Node} (h : (Node.alt arms).Fits) {a : Node} (ha : a ∈ arms) : a.Fits :=
  fun v hv => h v (Node.mem_partialsAll.2 ⟨a, ha, hv⟩)

/-- what is computed for a repetition that must be there: the atom's part of it and the product fit -/
theorem Node.Fits.atom {atom : Node} {q : Quantity} (h : (Node.rep atom q).Fits) (hstar : q.op ≠ .star)
    (hquest : q.op ≠ .quest) : atom.Fits ∧ (q.op ≠ .plus → q.min.toInt * atom.exactLength < 2 ^ 63) := by
  obtain ⟨op, lo, hi, greedy⟩ := q
  unfold Node.Fits at h
  cases op with
  | star => exact absurd rfl hstar
  | quest => exact absurd rfl hquest
  | plus => exact ⟨h, fun hne => absurd rfl hne⟩
  | exact | atLeast | between | unknown =>
    exact ⟨fun v hv => h v (List.mem_append_left _ hv), fun _ => h _ (List.mem_append_right _ (List.mem_singleton_self _))⟩

/-- the length of a literal is no sum and no product, so it has to fit by itself -/
def Node.LitFits (x : Node) : Prop := ∀ text fold, x = .lit text fold → text.length < 2 ^ 63

theorem Node.IsSequence.litFits {x : Node} (h : x.IsSequence) : x.LitFits := by
  rintro text fold rfl
  exact h.elim

theorem Node.IsExpression.litFits {x : Node} (h : x.IsExpression) : x.LitFits := by
  rintro text fold rfl
  exact h.elim

/-- a literal that is repeated has one character -/
theorem Node.Repeatable.litFits {x : Node} (h : x.Repeatable) : x.LitFits := by
  rintro text fold rfl
  have hone : text.length = 1 := h
  omega

/-- **The result fits if the sums and products on the way do.** A literal alone is neither, but in a tree it is an element
of a sum or the single character of a repetition. -/
theorem Node.WellFormed.exactLength_lt {x : Node} (h : x.WellFormed) (hfit : x.Fits) (hlit : x.LitFits) :
    x.exactLength < 2 ^ 63 := by
  induction h with
  | seq children _ ih => exact Node.exactSum_lt (by decide) hfit
  | alt arms _ hseq _ ih =>
    have harms : ∀ a ∈ arms, a.exactLength < 2 ^ 63 := fun a ha => ih a ha (hfit.arm ha) (hseq a ha).litFits
    have hbest : Node.exactBest (-1) arms < 2 ^ 63 := Node.exactBest_lt (by decide) harms
    simp only [Node.exactLength]
    split
    · decide
    · exact hbest
  | group inner capturing name hinner _ _ _ ih => exact ih hfit hinner.litFits
  | lit text fold _ =>
    have hlen : (text.length : Int) < 2 ^ 63 := by exact_mod_cast hlit text fold rfl
    exact hlen
  | dot | cls | esc => exact (by decide : (1 : Int) < 2 ^ 63)
  | rep atom q hatom _ hq ih =>
    obtain ⟨op, lo, hi, greedy⟩ := q
    cases op with
    | star | quest => exact (by decide : (0 : Int) < 2 ^ 63)
    | plus => exact ih (hfit.atom (by simp) (by simp)).1 hatom.litFits
    | exact | atLeast | between => exact (hfit.atom (by simp) (by simp)).2 (by simp)
    | unknown => exact hq.elim
  | anchor | stub => exact (by decide : (0 : Int) < 2 ^ 63)

/-! ## Words -/

theorem toInt_add_of_fits {v w : Int64} (h₀ : 0 ≤ v.toInt + w.toInt) (hlt : v.toInt + w.toInt < 2 ^ 63) :
    (v + w).toInt = v.toInt + w.toInt := by
  rw [Int64.toInt_add]
  exact Int.bmod_eq_of_le (by omega) (by omega)

theorem toInt_mul_of_fits {v w : Int64} (h₀ : 0 ≤ v.toInt * w.toInt) (hlt : v.toInt * w.toInt < 2 ^ 63) :
    (v * w).toInt = v.toInt * w.toInt := by
  rw [Int64.toInt_mul]
  exact Int.bmod_eq_of_le (by omega) (by omega)

theorem toInt_shorter (best next : Int64) : (shorter best next).toInt = exactShorter best.toInt next.toInt := by
  simp only [shorter, exactShorter, Int64.lt_iff_toInt_lt, Int64.toInt_zero]
  split <;> rfl

/-- words add up to what integers add up to, as long as every sum on the way fits -/
theorem Node.minLengthSum_toInt {l : List Node} (hnonneg : ∀ x ∈ l, 0 ≤ x.exactLength)
    (h : ∀ x ∈ l, x.Fits → x.exactLength < 2 ^ 63 → x.minLength.toInt = x.exactLength) {total : Int64}
    (ht : 0 ≤ total.toInt) (hfit : ∀ v ∈ Node.partialSums total.toInt l, v < 2 ^ 63) :
    (Node.minLengthSum total l).toInt = Node.exactSum total.toInt l := by
  induction l generalizing total with
  | nil => rfl
  | cons x r ih =>
    rw [Node.partialSums] at hfit
    have hnext := hfit _ (List.mem_append_right _ List.mem_cons_self)
    have hx₀ := hnonneg x List.mem_cons_self
    have hx : x.minLength.toInt = x.exactLength :=
      h x List.mem_cons_self (fun v hv => hfit v (List.mem_append_left _ hv)) (by omega)
    have hsum : (total + x.minLength).toInt = total.toInt + x.exactLength := by
      rw [toInt_add_of_fits (by omega) (by omega), hx]
    rw [Node.minLengthSum, Node.exactSum, ← hsum]
    refine ih (fun y hy => hnonneg y (List.mem_cons_of_mem x hy)) (fun y hy => h y (List.mem_cons_of_mem x hy))
      (by omega) fun v hv => ?_
    rw [hsum] at hv
    exact hfit v (List.mem_append_right _ (List.mem_cons_of_mem _ hv))

/-- the best of words is the best of the integers they stand for -/
theorem Node.minLengthBest_toInt {l : List Node} (h : ∀ x ∈ l, x.minLength.toInt = x.exactLength) (best : Int64) :
    (Node.minLengthBest best l).toInt = Node.exactBest best.toInt l := by
  induction l generalizing best with
  | nil => rfl
  | cons x r ih =>
    rw [Node.minLengthBest, Node.exactBest, ih (fun y hy => h y (List.mem_cons_of_mem x hy)), toInt_shorter,
      h x List.mem_cons_self]

/-- **Words give the same number** as integers, if the sums and products on the way and the result fit. -/
theorem Node.WellFormed.minLength_toInt {x : Node} (h : x.WellFormed) (hfit : x.Fits) (hlt : x.exactLength < 2 ^ 63) :
    x.minLength.toInt = x.exactLength := by
  induction h with
  | seq children hall ih =>
    exact Node.minLengthSum_toInt (fun x hx => (hall x hx).exactLength_isLeast.nonneg) ih (le_refl _) hfit
  | alt arms _ hseq hall ih =>
    have harms : ∀ a ∈ arms, a.minLength.toInt = a.exactLength := by
      intro a ha
      exact ih a ha (hfit.arm ha) ((hall a ha).exactLength_lt (hfit.arm ha) (hseq a ha).litFits)
    have hbest : (Node.minLengthBest (-1) arms).toInt = Node.exactBest (-1) arms := Node.minLengthBest_toInt harms (-1)
    simp only [Node.minLength, Node.exactLength, Int64.lt_iff_toInt_lt, hbest, Int64.toInt_zero]
    split
    · rfl
    · exact hbest
  | group inner capturing name _ _ _ _ ih => exact ih hfit hlt
  | lit text fold _ =>
    have hlen : (text.length : Int) < 2 ^ 63 := hlt
    exact Int64.toInt_ofNat_of_lt (by exact_mod_cast hlen)
  | dot | cls | esc => rfl
  | rep atom q hatom hwf hq ih =>
    obtain ⟨op, lo, hi, greedy⟩ := q
    cases op with
    | star | quest => rfl
    | plus => exact ih (hfit.atom (by simp) (by simp)).1 hlt
    | exact | atLeast | between =>
      obtain ⟨hatomFit, hproduct⟩ := hfit.atom (by simp) (by simp)
      have hx := ih hatomFit (hwf.exactLength_lt hatomFit hatom.litFits)
      have hlo : 0 ≤ lo.toInt := Int64.le_iff_toInt_le.1 hq.1
      have hnonneg := Int.mul_nonneg hlo hwf.exactLength_isLeast.nonneg
      simp only [Node.minLength, Node.exactLength]
      rw [toInt_mul_of_fits (by rwa [hx]) (by rw [hx]; exact hproduct (by simp)), hx]
    | unknown => exact hq.elim
  | anchor | stub => rfl

/-- **The analysis of a pattern is exact unless something overflows.** If every sum and product that the computation
comes to in integers that do not wrap is below `2 ^ 63`, the fewest characters that the analysis gives are the least of
the lengths of the tree: a length, and at most every other. -/
theorem minLength_is_least (pattern : Text) (hfit : ∀ v ∈ (Reading.ofPattern pattern).root.partials, v < 2 ^ 63) :
    let root := (Reading.ofPattern pattern).root
    ∃ n : Nat, root.analysis.minLength.toInt = n ∧ IsLeast root.lengths n := by
  intro root
  obtain ⟨hexpression, hroot⟩ := Reading.root_wellFormed pattern
  have hlt : root.exactLength < 2 ^ 63 := hroot.exactLength_lt hfit hexpression.litFits
  obtain ⟨n, hn, hleast⟩ := hroot.exactLength_isLeast
  exact ⟨n, (hroot.minLength_toInt hfit hlt).trans hn, hleast⟩

/-- a repetition that would overflow but may be left out, and a product of bounds just below the limit:
`(?:b{9223372036854775807}c)*(?:a{3037000499}){3037000499}` -/
def nestedBounds : Text := .ofString "(?:b{9223372036854775807}c)*(?:a{3037000499}){3037000499}"

/-- nothing that is computed overflows, and the least length is the product -/
theorem nestedBounds_least :
    let root := (Reading.ofPattern nestedBounds).root
    (∀ v ∈ root.partials, v < 2 ^ 63) ∧ root.analysis.minLength.toInt = 9223372030926249001 ∧
      IsLeast root.lengths 9223372030926249001 := by
  intro root
  have hfit : ∀ v ∈ root.partials, v < 2 ^ 63 := by decide +kernel
  have hmin : root.analysis.minLength.toInt = 9223372030926249001 := by decide +kernel
  obtain ⟨n, hn, hleast⟩ := minLength_is_least nestedBounds hfit
  obtain rfl : n = 9223372030926249001 := by
    rw [hmin] at hn
    exact_mod_cast hn.symm
  exact ⟨hfit, hmin, hleast⟩

end MatcherGen
