/-
When two texts have a diff. The blocks of lines that are kept stand in both texts, in order and without overlap; so stretches
that all are equal cover the same lines twice, and texts that differ have a changed stretch. Trimming and cutting into hunks
leave every changed stretch in some hunk, however many equal lines lie around it.

Main statements:
- `scanLines_fits`, `longestShared_fits`: what is found stands in both texts;
- `sharedBlocks_ladder`, `mergeBlocks_ladder`: the blocks climb through both texts;
- `exists_changed`: different lines have a changed stretch;
- `mem_diffHunks`: a changed stretch is in a hunk;
- `diff_empty_iff_same`: the diff is empty if and only if the texts are the same.
-/
import MatcherGen.Diff
import MatcherGen.Proofs.Bytes
import MatcherGen.Proofs.Lines

namespace MatcherGen

/-! ## Lines -/

theorem diffLines_injective : Function.Injective diffLines := by
  intro s t h
  have hfed : s ++ [lineFeed] = t ++ [lineFeed] := by
    rw [← Text.ofLines_lines s, ← Text.ofLines_lines t]
    exact congrArg Text.ofLines h
  exact List.append_cancel_right hfed

/-! ## Blocks -/

/-- the lines `a` are the part of `A` that starts at line `i` -/
def PartAt (A : List Line) (i : Nat) (a : List Line) : Prop := ∃ A₁ A₂, A = A₁ ++ a ++ A₂ ∧ A₁.length = i

namespace PartAt

variable {A a : List Line} {i : Nat} (h : PartAt A i a)

theorem whole (A : List Line) : PartAt A 0 A := ⟨[], [], by simp, rfl⟩

include h

theorem length_le : i + a.length ≤ A.length := by
  obtain ⟨A₁, A₂, rfl, rfl⟩ := h
  simp

theorem take (n : Nat) : PartAt A i (a.take n) := by
  obtain ⟨A₁, A₂, rfl, rfl⟩ := h
  refine ⟨A₁, a.drop n ++ A₂, ?_, rfl⟩
  rw [List.append_assoc, List.append_assoc, ← List.append_assoc (a.take n), List.take_append_drop]

theorem drop {n : Nat} (hn : n ≤ a.length) : PartAt A (i + n) (a.drop n) := by
  obtain ⟨A₁, A₂, rfl, rfl⟩ := h
  refine ⟨A₁ ++ a.take n, A₂, ?_, ?_⟩
  · rw [List.append_assoc A₁ (a.take n), List.take_append_drop]
  · rw [List.length_append, List.length_take, min_eq_left hn]

theorem take_drop {k n : Nat} (hn : k + n ≤ a.length) : (A.drop (i + k)).take n = (a.drop k).take n := by
  obtain ⟨A₁, A₂, rfl, rfl⟩ := h
  rw [List.append_assoc, List.drop_length_add_append, List.drop_append_of_le_length (by omega),
    List.take_append_of_le_length (by rw [List.length_drop]; omega)]

end PartAt

/-- the lines of the block stand in both texts -/
structure SharedBlock.Fits (a b : List Line) (m : SharedBlock) : Prop where
  left : m.left + m.size ≤ a.length
  right : m.right + m.size ≤ b.length
  same : (a.drop m.left).take m.size = (b.drop m.right).take m.size

namespace SharedBlock

theorem Fits.of_append (a₁ p a₂ b₁ b₂ : List Line) :
    Fits (a₁ ++ p ++ a₂) (b₁ ++ p ++ b₂) ⟨a₁.length, b₁.length, p.length⟩ where
  left := by simp
  right := by simp
  same := by simp

/-- a block that stands in parts of two texts stands in the texts -/
theorem Fits.of_parts {A B a b : List Line} {i j : Nat} {m : SharedBlock} (ha : PartAt A i a) (hb : PartAt B j b)
    (h : m.Fits a b) : Fits A B ⟨i + m.left, j + m.right, m.size⟩ where
  left := by
    have := h.left
    have := ha.length_le
    dsimp only
    omega
  right := by
    have := h.right
    have := hb.length_le
    dsimp only
    omega
  same := by
    dsimp only
    rw [ha.take_drop h.left, hb.take_drop h.right, h.same]

/-- blocks that touch are a block -/
theorem Fits.join {a b : List Line} {m m' : SharedBlock} (h : m.Fits a b) (h' : m'.Fits a b)
    (hleft : m.left + m.size = m'.left) (hright : m.right + m.size = m'.right) :
    Fits a b { m with size := m.size + m'.size } where
  left := by
    have := h'.left
    dsimp only
    omega
  right := by
    have := h'.right
    dsimp only
    omega
  same := by
    dsimp only
    rw [List.take_add, List.take_add, List.drop_drop, List.drop_drop, hleft, hright, h.same, h'.same]

/-- lines that end both fronts are a block -/
theorem fits_of_suffix {a b p : List Line} {i j : Nat} (hi : i ≤ a.length) (hj : j ≤ b.length) (ha : p <:+ a.take i)
    (hb : p <:+ b.take j) : Fits a b ⟨i - p.length, j - p.length, p.length⟩ := by
  obtain ⟨a₁, ha⟩ := ha
  obtain ⟨b₁, hb⟩ := hb
  have hfits := Fits.of_append a₁ p (a.drop i) b₁ (b.drop j)
  rw [ha, hb, List.take_append_drop, List.take_append_drop] at hfits
  have hlength : a₁.length + p.length = i := by
    rw [← List.length_append, ha, List.length_take, min_eq_left hi]
  have hlength' : b₁.length + p.length = j := by
    rw [← List.length_append, hb, List.length_take, min_eq_left hj]
  rwa [← Nat.eq_sub_of_add_eq hlength, ← Nat.eq_sub_of_add_eq hlength']

/-- lines that start both rests are a block -/
theorem fits_of_prefix {a b p : List Line} {i j : Nat} (hi : i ≤ a.length) (hj : j ≤ b.length) (ha : p <+: a.drop i)
    (hb : p <+: b.drop j) : Fits a b ⟨i, j, p.length⟩ where
  left := by
    have := ha.length_le
    rw [List.length_drop] at this
    dsimp only
    omega
  right := by
    have := hb.length_le
    rw [List.length_drop] at this
    dsimp only
    omega
  same := by
    dsimp only
    rw [← List.prefix_iff_eq_take.1 ha, ← List.prefix_iff_eq_take.1 hb]

end SharedBlock

/-! ## The longest block -/

theorem exists_sharedFront (a b : List Line) : ∃ p, p <+: a ∧ p <+: b ∧ p.length = sharedFront a b := by
  fun_induction sharedFront a b with
  | case1 x r y s hxy ih =>
    obtain ⟨p, hpr, hps, hp⟩ := ih
    obtain rfl := beq_iff_eq.1 hxy
    exact ⟨x :: p, List.prefix_cons_inj x |>.2 hpr, List.prefix_cons_inj x |>.2 hps, by simp [hp]⟩
  | case2 x r y s hxy => exact ⟨[], List.nil_prefix, List.nil_prefix, rfl⟩
  | case3 a b => exact ⟨[], List.nil_prefix, List.nil_prefix, rfl⟩

/-- the runs end at line `i` of the first text: each is a number `j` of a line of the second and a number of lines that come
before line `i` of the one and, up to line `j`, in the other -/
def RunsFit (a b : List Line) (i : Nat) (runs : List (Nat × Nat)) : Prop :=
  ∀ r ∈ runs, r.1 < b.length ∧ ∃ p, p <:+ a.take i ∧ p <:+ b.take (r.1 + 1) ∧ p.length = r.2

theorem extendRuns_fit {a b : List Line} {i : Nat} {l : Line} {runs : List (Nat × Nat)} (h : RunsFit a b i runs)
    (hl : a[i]? = some l) (frequent : Line → Bool) : RunsFit a b (i + 1) (extendRuns frequent b runs l) := by
  intro r hr
  obtain ⟨⟨other, j⟩, hmem, hsome⟩ := List.mem_filterMap.1 hr
  have hother : b[j]? = some other := List.mem_zipIdx_iff_getElem?.1 hmem
  dsimp only at hsome
  split_ifs at hsome with htest
  rw [Bool.and_eq_true, beq_iff_eq] at htest
  obtain rfl := htest.1
  obtain rfl := Option.some.inj hsome
  have hlength : j < b.length := (List.getElem?_eq_some_iff.1 hother).1
  refine ⟨hlength, ?_⟩
  -- what the run adds to: the run that ends one line before, or nothing
  have hbefore : ∃ p, p <:+ a.take i ∧ p <:+ b.take j ∧
      p.length = ((runs.find? fun r => r.1 + 1 == j).map Prod.snd).getD 0 := by
    cases hfind : runs.find? fun r => r.1 + 1 == j with
    | none => exact ⟨[], List.nil_suffix, List.nil_suffix, rfl⟩
    | some r =>
      obtain ⟨-, p, hpa, hpb, hp⟩ := h r (List.mem_of_find?_eq_some hfind)
      have hj : r.1 + 1 = j := by simpa using List.find?_some hfind
      exact ⟨p, hpa, hj ▸ hpb, hp⟩
  obtain ⟨p, hpa, hpb, hp⟩ := hbefore
  refine ⟨p ++ [other], ?_, ?_, by simp [hp]⟩
  · rw [List.take_add_one, hl]
    exact (List.suffix_append_inj_of_length_eq rfl).2 ⟨hpa, rfl⟩
  · rw [List.take_add_one, hother]
    exact (List.suffix_append_inj_of_length_eq rfl).2 ⟨hpb, rfl⟩

theorem improve_fits {a b : List Line} {i : Nat} {best : SharedBlock} {runs : List (Nat × Nat)} (hi : i < a.length)
    (hruns : RunsFit a b (i + 1) runs) (hbest : best.Fits a b) : (improve i best runs).Fits a b := by
  unfold improve
  induction runs generalizing best with
  | nil => exact hbest
  | cons r runs ih =>
    obtain ⟨hr, hruns⟩ := List.forall_mem_cons.1 hruns
    obtain ⟨hj, p, hpa, hpb, hp⟩ := hr
    rw [List.foldl_cons]
    apply ih hruns
    dsimp only
    split_ifs
    · rw [← hp]
      exact SharedBlock.fits_of_suffix hi hj hpa hpb
    · exact hbest

/-- **What the scan finds stands in both texts.** The induction is on the lines to come. -/
theorem scanLines_fits {a b : List Line} (frequent : Line → Bool) {i : Nat} {rest : List Line} (hrest : a.drop i = rest)
    {runs : List (Nat × Nat)} (hruns : RunsFit a b i runs) {best : SharedBlock} (hbest : best.Fits a b) :
    (scanLines frequent b i runs best rest).Fits a b := by
  induction rest generalizing i runs best with
  | nil => exact hbest
  | cons l rest ih =>
    have hl : a[i]? = some l := by rw [← List.head?_drop, hrest, List.head?_cons]
    have hi : i < a.length := (List.getElem?_eq_some_iff.1 hl).1
    have hnext := extendRuns_fit hruns hl frequent
    apply ih
    · rw [← List.tail_drop, hrest, List.tail_cons]
    · exact hnext
    · exact improve_fits hi hnext hbest

/-- **The longest block stands in both texts.** -/
theorem longestShared_fits (frequent : Line → Bool) (a b : List Line) : (longestShared frequent a b).Fits a b := by
  have hfound : (scanLines frequent b 0 [] ⟨0, 0, 0⟩ a).Fits a b :=
    scanLines_fits frequent List.drop_zero (by simp [RunsFit]) ⟨Nat.zero_le _, Nat.zero_le _, rfl⟩
  unfold longestShared
  dsimp only
  generalize scanLines frequent b 0 [] ⟨0, 0, 0⟩ a = found at hfound ⊢
  obtain ⟨p, hpa, hpb, hp⟩ := exists_sharedFront (a.take found.left).reverse (b.take found.right).reverse
  obtain ⟨q, hqa, hqb, hq⟩ :=
    exists_sharedFront (a.drop (found.left + found.size)) (b.drop (found.right + found.size))
  have hpa' : p.reverse <:+ a.take found.left := List.reverse_prefix.1 (by rwa [List.reverse_reverse])
  have hpb' : p.reverse <:+ b.take found.right := List.reverse_prefix.1 (by rwa [List.reverse_reverse])
  have hback := SharedBlock.fits_of_suffix (Nat.le_of_add_right_le hfound.left) (Nat.le_of_add_right_le hfound.right) hpa' hpb'
  have hahead := SharedBlock.fits_of_prefix hfound.left hfound.right hqa hqb
  rw [List.length_reverse, hp] at hback
  rw [hq] at hahead
  have hlength := hpa.length_le
  have hlength' := hpb.length_le
  rw [List.length_reverse, List.length_take, hp] at hlength hlength'
  refine (hback.join hfound ?_ ?_).join hahead ?_ ?_
  all_goals dsimp only; omega

/-! ## All blocks -/

/-- blocks that climb through both texts from lines `i` and `j` to lines `n` and `m`, without overlap -/
def Ladder (a b : List Line) (n m : Nat) : Nat → Nat → List SharedBlock → Prop
  | i, j, [] => i ≤ n ∧ j ≤ m
  | i, j, k :: r => i ≤ k.left ∧ j ≤ k.right ∧ k.Fits a b ∧ Ladder a b n m (k.left + k.size) (k.right + k.size) r

section

variable {a b : List Line} {n m n' m' i j i' j' : Nat} {l l' : List SharedBlock}

theorem Ladder.start_le (h : Ladder a b n m i j l) (hi : i' ≤ i) (hj : j' ≤ j) : Ladder a b n m i' j' l := by
  cases l with
  | nil => exact ⟨hi.trans h.1, hj.trans h.2⟩
  | cons k l => exact ⟨hi.trans h.1, hj.trans h.2.1, h.2.2⟩

theorem Ladder.append (h : Ladder a b n m i j l) (h' : Ladder a b n' m' n m l') : Ladder a b n' m' i j (l ++ l') := by
  induction l generalizing i j with
  | nil => exact h'.start_le h.1 h.2
  | cons k l ih =>
    obtain ⟨hi, hj, hk, hl⟩ := h
    exact ⟨hi, hj, hk, ih hl⟩

/-- **Blocks climb through both texts.** The lines `a` and `b` are parts of the texts, and blocks count from the start of
these. -/
theorem sharedBlocks_ladder (frequent : Line → Bool) (depth : Nat) {A B : List Line} (ha : PartAt A i a) (hb : PartAt B j b) :
    Ladder A B (i + a.length) (j + b.length) i j (sharedBlocks frequent depth i j a b) := by
  induction depth generalizing i j a b with
  | zero => exact ⟨Nat.le_add_right _ _, Nat.le_add_right _ _⟩
  | succ depth ih =>
    have hfits := longestShared_fits frequent a b
    rw [sharedBlocks]
    dsimp only
    generalize longestShared frequent a b = k at hfits ⊢
    have hleft := hfits.left
    have hright := hfits.right
    have hbefore := ih (ha.take k.left) (hb.take k.right)
    have hafter := ih (ha.drop hleft) (hb.drop hright)
    have hend : i + (k.left + k.size) + (a.drop (k.left + k.size)).length = i + a.length := by
      rw [List.length_drop]
      omega
    have hend' : j + (k.right + k.size) + (b.drop (k.right + k.size)).length = j + b.length := by
      rw [List.length_drop]
      omega
    rw [List.length_take, List.length_take, min_eq_left (Nat.le_of_add_right_le hleft),
      min_eq_left (Nat.le_of_add_right_le hright)] at hbefore
    rw [hend, hend', ← Nat.add_assoc, ← Nat.add_assoc] at hafter
    by_cases hnone : (k.size == 0) = true
    · rw [if_pos hnone]
      exact ⟨Nat.le_add_right _ _, Nat.le_add_right _ _⟩
    · rw [if_neg hnone]
      apply Ladder.append (n := i + k.left) (m := j + k.right)
      · split_ifs
        · exact hbefore
        · exact ⟨Nat.le_add_right _ _, Nat.le_add_right _ _⟩
      · refine ⟨le_rfl, le_rfl, hfits.of_parts ha hb, ?_⟩
        split_ifs
        · rw [← Nat.add_assoc, ← Nat.add_assoc]
          exact hafter
        · constructor <;> dsimp only <;> omega

/-- blocks that touch make one block, which changes nothing on the way -/
theorem mergeBlocks_ladder {current : SharedBlock} (h : Ladder a b n m i j (current :: l)) :
    Ladder a b n m i j (mergeBlocks current l) := by
  induction l generalizing i j current with
  | nil =>
    obtain ⟨hi, hj, hfits, hn, hm⟩ := h
    rw [mergeBlocks]
    split_ifs
    · constructor <;> omega
    · exact ⟨hi, hj, hfits, hn, hm⟩
  | cons k l ih =>
    obtain ⟨hi, hj, hfits, hk, hk', hkfits, hl⟩ := h
    rw [mergeBlocks]
    split_ifs with htouch hnone
    · rw [Bool.and_eq_true, beq_iff_eq, beq_iff_eq] at htouch
      apply ih
      refine ⟨hi, hj, hfits.join hkfits htouch.1 htouch.2, ?_⟩
      dsimp only
      rw [← Nat.add_assoc, ← Nat.add_assoc, htouch.1, htouch.2]
      exact hl
    · apply ih
      exact ⟨by omega, by omega, hkfits, hl⟩
    · exact ⟨hi, hj, hfits, ih ⟨hk, hk', hkfits, hl⟩⟩

/-! ## Stretches -/

/-- **Equal stretches cover the same lines.** If no stretch from lines `i` and `j` on is changed, the lines from there on are
the same. -/
theorem drop_eq_of_equal (h : Ladder a b a.length b.length i j l)
    (hequal : ∀ s ∈ stretches a.length b.length i j l, s.equal = true) : a.drop i = b.drop j := by
  induction l generalizing i j with
  | nil =>
    have hends : ¬ (i < a.length ∨ j < b.length) := by
      intro hlt
      rw [stretches, if_pos (by simpa using hlt)] at hequal
      exact absurd (hequal _ List.mem_cons_self) (by simp)
    rw [List.drop_eq_nil_of_le (by omega), List.drop_eq_nil_of_le (by omega)]
  | cons k l ih =>
    obtain ⟨hi, hj, hfits, hl⟩ := h
    have hends : ¬ (i < k.left ∨ j < k.right) := by
      intro hlt
      rw [stretches, if_pos (by simpa using hlt)] at hequal
      exact absurd (hequal _ List.mem_cons_self) (by simp)
    obtain rfl : i = k.left := by omega
    obtain rfl : j = k.right := by omega
    have hrest : a.drop (k.left + k.size) = b.drop (k.right + k.size) := by
      apply ih hl
      intro s hs
      apply hequal
      rw [stretches]
      exact List.mem_append_right _ (List.mem_cons_of_mem _ hs)
    calc a.drop k.left = (a.drop k.left).take k.size ++ a.drop (k.left + k.size) := by
          rw [← List.drop_drop, List.take_append_drop]
      _ = (b.drop k.right).take k.size ++ b.drop (k.right + k.size) := by rw [hfits.same, hrest]
      _ = b.drop k.right := by rw [← List.drop_drop, List.take_append_drop]

end

/-- **Different lines have a changed stretch.** -/
theorem exists_changed {a b : List Line} (h : a ≠ b) : ∃ s ∈ diffStretches a b, s.equal = false := by
  by_contra hnone
  push Not at hnone
  apply h
  have hblocks := sharedBlocks_ladder (isFrequent b) (a.length + 1) (PartAt.whole a) (PartAt.whole b)
  rw [Nat.zero_add, Nat.zero_add] at hblocks
  have hstart : SharedBlock.Fits a b ⟨0, 0, 0⟩ := ⟨Nat.zero_le _, Nat.zero_le _, rfl⟩
  have hall : Ladder a b a.length b.length 0 0 (⟨0, 0, 0⟩ :: sharedBlocks (isFrequent b) (a.length + 1) 0 0 a b) :=
    ⟨le_rfl, le_rfl, hstart, hblocks⟩
  have hdrop := drop_eq_of_equal (mergeBlocks_ladder hall) fun s hs => Bool.eq_true_of_not_eq_false (hnone s hs)
  simpa using hdrop

/-! ## Hunks -/

section

variable {s : Stretch} {l : List Stretch} (hs : s.equal = false) (context : Nat)

include hs

theorem mem_trimFirst (h : s ∈ l) : s ∈ trimFirst context l := by
  cases l with
  | nil => exact h
  | cons x r =>
    rcases List.mem_cons.1 h with rfl | h
    · rw [trimFirst, if_neg (by simp [hs])]
      exact List.mem_cons_self
    · exact List.mem_cons_of_mem _ h

theorem mem_trimLast (h : s ∈ l) : s ∈ trimLast context l := by
  fun_induction trimLast context l with
  | case1 => exact h
  | case2 x =>
    rw [List.mem_singleton] at h ⊢
    rw [← h, if_neg (by simp [hs])]
  | case3 x r _ ih =>
    rcases List.mem_cons.1 h with rfl | h
    · exact List.mem_cons_self
    · exact List.mem_cons_of_mem _ (ih h)

/-- **A changed stretch is in a hunk.** The induction is on the stretches to come; `hunk` is the one that is being filled. -/
theorem mem_hunks {hunk : List Stretch} (h : s ∈ hunk ++ l) : ∃ g ∈ hunks context hunk l, s ∈ g := by
  induction l generalizing hunk with
  | nil =>
    rw [List.append_nil] at h
    match hunk, h with
    | [x], h =>
      obtain rfl := List.mem_singleton.1 h
      rw [hunks, if_neg (by simp [hs])]
      exact ⟨_, List.mem_cons_self, h⟩
    | x :: y :: r, h => exact ⟨_, List.mem_cons_self, h⟩
  | cons x l ih =>
    rw [hunks]
    split_ifs with hlong
    · have hx : s ≠ x := by
        rintro rfl
        simp [hs] at hlong
      rcases List.mem_append.1 h with h | h
      · exact ⟨_, List.mem_cons_self, List.mem_append_left _ h⟩
      · have hl : s ∈ l := (List.mem_cons.1 h).resolve_left hx
        have hnext : s ∈ [x.lastLines context] ++ l := List.mem_append_right _ hl
        obtain ⟨g, hg, hsg⟩ := ih hnext
        exact ⟨g, List.mem_cons_of_mem _ hg, hsg⟩
    · apply ih
      rwa [List.append_assoc]

end

theorem mem_diffHunks {a b : List Line} {s : Stretch} (hs : s.equal = false) (h : s ∈ diffStretches a b) :
    ∃ g ∈ diffHunks a b, s ∈ g :=
  mem_hunks hs diffContext (mem_trimLast hs diffContext (mem_trimFirst hs diffContext h))

/-- texts that differ have a diff -/
theorem unifiedDiff_ne_nil {want got : Text} (h : got ≠ want) : unifiedDiff want got ≠ [] := by
  have hlines : diffLines want ≠ diffLines got := fun heq => h (diffLines_injective heq).symm
  obtain ⟨s, hmem, hs⟩ := exists_changed hlines
  obtain ⟨g, hg, -⟩ := mem_diffHunks hs hmem
  have hgroups : (diffHunks (diffLines want) (diffLines got)).isEmpty = false := by
    rw [List.isEmpty_eq_false_iff]
    exact List.ne_nil_of_mem hg
  have htitle : Text.ofString "--- want\n+++ got\n" ≠ [] := by simp [Text.ofString, Text.ofChars]
  rw [unifiedDiff, if_neg (by simpa using h)]
  dsimp only
  rw [hgroups]
  simp [htitle]

theorem unifiedDiff_eq_nil_iff {got want : Text} : unifiedDiff want got = [] ↔ got = want := by
  constructor
  · intro h
    by_contra hne
    exact unifiedDiff_ne_nil hne h
  · rintro rfl
    rw [unifiedDiff, if_pos (beq_self_eq_true got)]

/-- **The diff is empty if and only if the texts are the same.** For all texts, and for all bytes, whether they are well-formed
text or not: there is nothing to show exactly if both are the same to the last line feed. -/
theorem diff_empty_iff_same :
    (∀ got want : Text, unifiedDiff want got = [] ↔ got = want) ∧
    ∀ got want : List UInt8, (unifiedDiff (Text.ofBytes want) (Text.ofBytes got)).bytes = [] ↔ got = want := by
  refine ⟨fun got want => unifiedDiff_eq_nil_iff, ?_⟩
  intro got want
  rw [Text.bytes_eq_nil_iff, unifiedDiff_eq_nil_iff]
  exact Text.ofBytes_injective.eq_iff

end MatcherGen
