/-
Reading a class. Its body is read member by member, with a look at up to four characters: an escape, a range, a range
to an escape. Three things hold of the result: it takes what is there, its members are characters and different ones,
and once its bracket has closed it nothing after the bracket has a say.

Main statements:
- `classBody_extends`: the characters that a body takes are there, and its remarks are on them;
- `classBody_remarks_keep`: what holds of remarks on members and on ranges holds of all of them;
- `classBody_keeps`: what adding members and ranges keeps, the class has; so the members are characters
  (`classBody_ofChars`) and none is there twice (`classBody_nodup`);
- `classBody_endsAfter`: a class ends with the first bracket that is no part of an escape, or with the text;
- `classBody_open`, `classBody_take`: a class that is not closed takes all there is, one that is closed is read from
  what it takes alone;
- `classBody_append`, `classBody_shift`: what follows a class that is closed has no say, nor has the place of one
  without remarks.
-/
import Mathlib.Tactic
import MatcherGen.Pattern.Piece

namespace MatcherGen

/-! ## Sizes and remarks -/

theorem eq_of_mem_shorthandRemarks {pos : Nat} {c : Char} {d : Diagnostic} (h : d ∈ shorthandRemarks pos c) :
    d = (Problem.literalShorthand c).at pos := by
  unfold shorthandRemarks at h
  split_ifs at h
  · exact List.mem_singleton.1 h
  · exact absurd h List.not_mem_nil

theorem eq_of_mem_rangeRemarks {pos : Nat} {lo hi : Char} {text : List Char} {d : Diagnostic}
    (h : d ∈ rangeRemarks pos lo hi text) : d = (Problem.invertedRange text).at pos := by
  unfold rangeRemarks at h
  split_ifs at h
  · exact List.mem_singleton.1 h
  · exact absurd h List.not_mem_nil

/-- what reading more of a class adds: characters that are there, and remarks on them -/
structure ClassBody.Extends (b acc : ClassBody) (pos n : Nat) : Prop where
  le : acc.size ≤ b.size
  size_le : b.size ≤ acc.size + n
  remarks : ∀ d ∈ b.remarks, d ∈ acc.remarks ∨ (pos : Int) ≤ d.offset ∧ d.offset < pos + (b.size - acc.size : Nat)

theorem ClassBody.Extends.refl (b : ClassBody) (pos : Nat) : b.Extends b pos 0 :=
  ⟨le_refl _, le_refl _, fun _ hd => Or.inl hd⟩

/-- `k` characters more, with remarks on them -/
theorem ClassBody.Extends.step {b acc acc' : ClassBody} {pos n k m : Nat} {new : List Diagnostic}
    (h : b.Extends acc' (pos + k) n) (hsize : acc'.size = acc.size + k) (hremarks : acc'.remarks = acc.remarks ++ new)
    (hnew : ∀ d ∈ new, (pos : Int) ≤ d.offset ∧ d.offset < pos + k) (hm : k + n ≤ m) : b.Extends acc pos m := by
  obtain ⟨hle, hsize_le, hmore⟩ := h
  refine ⟨by omega, by omega, fun d hd => ?_⟩
  rcases hmore d hd with hd | hd
  · rw [hremarks] at hd
    rcases List.mem_append.1 hd with hd | hd
    · exact Or.inl hd
    · have := hnew d hd
      right; omega
  · right; omega

theorem classBody_extends (acc : ClassBody) (pos : Nat) (s : List Char) :
    (classBody acc pos s).Extends acc pos s.length := by
  have hnone : ∀ (pos k : Nat), ∀ d ∈ ([] : List Diagnostic), (pos : Int) ≤ d.offset ∧ d.offset < pos + k := by simp
  have hshorthand : ∀ (pos i k : Nat) (c : Char), i < k →
      ∀ d ∈ shorthandRemarks (pos + i) c, (pos : Int) ≤ d.offset ∧ d.offset < pos + k := by
    intro pos i k c hi d hd
    have : d.offset = ↑(pos + i) := congrArg Diagnostic.offset (eq_of_mem_shorthandRemarks hd)
    omega
  have hrange : ∀ (pos k : Nat) (lo hi : Char) (text : List Char), 0 < k →
      ∀ d ∈ rangeRemarks pos lo hi text, (pos : Int) ≤ d.offset ∧ d.offset < pos + k := by
    intro pos k lo hi text hk d hd
    have : d.offset = pos := congrArg Diagnostic.offset (eq_of_mem_rangeRemarks hd)
    omega
  fun_induction classBody acc pos s with
  | case1 acc pos => exact .refl acc pos
  | case2 acc pos r => exact (ClassBody.Extends.refl _ _).step rfl (by simp) (hnone pos 1) (by simp)
  | case3 acc pos => exact (ClassBody.Extends.refl _ _).step rfl (by simp) (hnone pos 1) (by simp)
  | case4 acc pos c r ih =>
    exact ih.step rfl rfl (hshorthand pos 0 2 c (by omega)) (by simp only [List.length_cons]; omega)
  | case5 acc pos lo => exact (ClassBody.Extends.refl _ _).step rfl rfl (hrange pos 3 _ _ _ (by omega)) (by simp)
  | case6 acc pos lo c r _ _ ih =>
    refine ih.step rfl (List.append_assoc _ _ _) (fun d hd => ?_) (by simp only [List.length_cons]; omega)
    rcases List.mem_append.1 hd with hd | hd
    · exact hshorthand pos 2 4 c (by omega) d hd
    · exact hrange pos 4 _ _ _ (by omega) d hd
  | case7 acc pos lo hi r => exact (ClassBody.Extends.refl _ _).step rfl (by simp) (hnone pos 3) (by simp)
  | case8 acc pos lo hi r _ _ _ _ _ ih =>
    exact ih.step rfl rfl (hrange pos 3 _ _ _ (by omega)) (by simp only [List.length_cons]; omega)
  | case9 acc pos lo r _ _ _ _ _ _ ih =>
    exact ih.step rfl (by simp) (hnone pos 1) (by simp only [List.length_cons]; omega)

/-- **What holds of remarks on members and on ranges** holds of all remarks on a class; `t` is a text they quote from. -/
theorem classBody_remarks_keep {P : Diagnostic → Prop} {t : List Char}
    (hshorthand : ∀ pos, ∀ c ∈ t, P ((Problem.literalShorthand c).at pos))
    (hinverted : ∀ pos text, text ⊆ t → P ((Problem.invertedRange text).at pos)) (acc : ClassBody) (pos : Nat)
    (s : List Char) (hs : s ⊆ t) (h : ∀ d ∈ acc.remarks, P d) : ∀ d ∈ (classBody acc pos s).remarks, P d := by
  have hmember : ∀ pos, ∀ c ∈ t, ∀ d ∈ shorthandRemarks pos c, P d := by
    intro pos c hc d hd
    rw [eq_of_mem_shorthandRemarks hd]
    exact hshorthand pos c hc
  have hrange : ∀ pos lo hi text, text ⊆ t → ∀ d ∈ rangeRemarks pos lo hi text, P d := by
    intro pos lo hi text htext d hd
    rw [eq_of_mem_rangeRemarks hd]
    exact hinverted pos text htext
  fun_induction classBody acc pos s with
  | case1 | case2 | case3 | case7 => exact h
  | case4 acc pos c r ih =>
    exact ih (fun x hx => hs (by simp [hx])) (List.forall_mem_append.2 ⟨h, hmember _ c (hs (by simp))⟩)
  | case5 acc pos lo => exact List.forall_mem_append.2 ⟨h, hrange _ _ _ _ hs⟩
  | case6 acc pos lo c r _ _ ih =>
    have htext : [lo, '-', '\\', c] ⊆ t := fun x hx => hs (List.mem_append_left r hx)
    have hupper := List.forall_mem_append.2 ⟨h, hmember (pos + 2) c (hs (by simp))⟩
    exact ih (fun x hx => hs (by simp [hx])) (List.forall_mem_append.2 ⟨hupper, hrange _ _ _ _ htext⟩)
  | case8 acc pos lo hi r _ _ _ _ _ ih =>
    have htext : [lo, '-', hi] ⊆ t := fun x hx => hs (List.mem_append_left r hx)
    exact ih (fun x hx => hs (by simp [hx])) (List.forall_mem_append.2 ⟨h, hrange _ _ _ _ htext⟩)
  | case9 acc pos lo r _ _ _ _ _ _ ih => exact ih (fun x hx => hs (by simp [hx])) h

/-! ## Members -/

/-- all members and ends of ranges are characters -/
def CharClass.OfChars (c : CharClass) : Prop :=
  (∀ n ∈ c.singles, ∃ x : Char, n = x.toNat) ∧ ∀ r ∈ c.ranges, ∃ lo hi : Char, r = ⟨lo.toNat, hi.toNat⟩

theorem CharClass.OfChars.empty (negated : Bool) : (⟨negated, [], []⟩ : CharClass).OfChars := by
  simp [CharClass.OfChars]

theorem CharClass.OfChars.addSingle {c : CharClass} (h : c.OfChars) (x : Char) : (c.addSingle x.toNat).OfChars := by
  unfold CharClass.addSingle
  split_ifs
  · exact h
  · refine ⟨fun n hn => ?_, h.2⟩
    rcases List.mem_append.1 hn with hn | hn
    · exact h.1 n hn
    · exact ⟨x, List.mem_singleton.1 hn⟩

theorem CharClass.OfChars.addRange {c : CharClass} (h : c.OfChars) (lo hi : Char) :
    (c.addRange lo.toNat hi.toNat).OfChars := by
  refine ⟨h.1, fun r hr => ?_⟩
  rcases List.mem_append.1 hr with hr | hr
  · exact h.2 r hr
  · exact ⟨lo, hi, List.mem_singleton.1 hr⟩

/-- **What adding members and ranges keeps, the body of a class has.** -/
theorem classBody_keeps {P : CharClass → Prop} (hsingle : ∀ (c : CharClass) (x : Char), P c → P (c.addSingle x.toNat))
    (hrange : ∀ (c : CharClass) (lo hi : Char), P c → P (c.addRange lo.toNat hi.toNat)) (acc : ClassBody) (pos : Nat)
    (s : List Char) (h : P acc.cls) :
    P (classBody acc pos s).cls := by
  fun_induction classBody acc pos s with
  | case1 => exact h
  | case2 => exact h
  | case3 => exact hsingle _ _ h
  | case4 acc pos c r ih => exact ih (hsingle _ _ h)
  | case5 => exact hrange _ _ _ h
  | case6 acc pos lo c r _ _ ih => exact ih (hrange _ _ _ h)
  | case7 => exact hsingle _ '-' (hsingle _ _ h)
  | case8 acc pos lo hi r _ _ _ _ _ ih => exact ih (hrange _ _ _ h)
  | case9 acc pos lo r _ _ _ _ _ _ ih => exact ih (hsingle _ _ h)

/-- the members of a class that is read are characters -/
theorem classBody_ofChars (acc : ClassBody) (pos : Nat) (s : List Char) (h : acc.cls.OfChars) :
    (classBody acc pos s).cls.OfChars :=
  classBody_keeps (fun _ x h => h.addSingle x) (fun _ lo hi h => h.addRange lo hi) acc pos s h

theorem CharClass.addSingle_nodup (c : CharClass) (n : Int) (h : c.singles.Nodup) : (c.addSingle n).singles.Nodup := by
  unfold CharClass.addSingle
  split_ifs with hn
  · exact h
  · show (c.singles ++ [n]).Nodup
    rw [← List.concat_eq_append]
    exact h.concat hn

/-- no member of a class that is read is there twice -/
theorem classBody_nodup (acc : ClassBody) (pos : Nat) (s : List Char) (h : acc.cls.singles.Nodup) :
    (classBody acc pos s).cls.singles.Nodup :=
  classBody_keeps (P := fun c => c.singles.Nodup) (fun c x h => c.addSingle_nodup x.toNat h) (fun _ _ _ h => h) acc pos s h

/-! ## Where a class ends -/

/-- a backslash stands last or before another character -/
theorem ne_backslash {c : Char} {r : List Char} (hlast : c = '\\' → r = [] → False)
    (hmore : ∀ d t, c = '\\' → r = d :: t → False) : c ≠ '\\' := by
  rintro rfl
  cases r with
  | nil => exact hlast rfl rfl
  | cons d t => exact hmore d t rfl rfl

/-- the units of a text: a backslash with the character after it, if there is one, and any other character on its own -/
def escapeUnits : List Char → List (List Char)
  | [] => []
  | ['\\'] => [['\\']]
  | '\\' :: c :: r => ['\\', c] :: escapeUnits r
  | c :: r => [c] :: escapeUnits r

theorem escapeUnits_cons {c : Char} (hescape : c ≠ '\\') (r : List Char) :
    escapeUnits (c :: r) = [c] :: escapeUnits r := by
  rw [escapeUnits.eq_def]
  split <;> simp_all

/-- no character is lost or moved -/
theorem flatten_escapeUnits (s : List Char) : (escapeUnits s).flatten = s := by
  fun_induction escapeUnits s with
  | case1 | case2 => rfl
  | case3 c r ih => rw [List.flatten_cons, ih]; rfl
  | case4 c r _ _ ih => rw [List.flatten_cons, ih]; rfl

/-- a class whose text has these units takes `n` characters of it: through the first bracket that is a unit of its own,
which closes it, or all of them -/
inductive EndsAfter : List (List Char) → Nat → Bool → Prop where
  | bracket (before after : List (List Char)) (hbefore : [']'] ∉ before) :
    EndsAfter (before ++ [']'] :: after) (before.flatten.length + 1) true
  | text (units : List (List Char)) (hnone : [']'] ∉ units) : EndsAfter units units.flatten.length false

namespace EndsAfter

variable {units : List (List Char)} {s : List Char} {n : Nat} {closed : Bool}

/-- any other unit is passed over -/
theorem cons (h : EndsAfter units n closed) {u : List Char} (hu : u ≠ [']']) :
    EndsAfter (u :: units) (n + u.length) closed := by
  cases h with
  | bracket before after hbefore =>
    have hends := bracket (u :: before) after (List.not_mem_cons_of_ne_of_not_mem hu.symm hbefore)
    rw [List.flatten_cons, List.length_append, Nat.add_comm u.length, Nat.add_right_comm] at hends
    exact hends
  | text _ hnone =>
    have hends := text (u :: units) (List.not_mem_cons_of_ne_of_not_mem hu.symm hnone)
    rw [List.flatten_cons, List.length_append, Nat.add_comm u.length] at hends
    exact hends

theorem escape (h : EndsAfter (escapeUnits s) n closed) (c : Char) :
    EndsAfter (escapeUnits ('\\' :: c :: s)) (n + 2) closed :=
  h.cons (u := ['\\', c]) (by simp)

theorem char (h : EndsAfter (escapeUnits s) n closed) {c : Char} (hclose : c ≠ ']') (hescape : c ≠ '\\') :
    EndsAfter (escapeUnits (c :: s)) (n + 1) closed := by
  rw [escapeUnits_cons hescape]
  exact h.cons (u := [c]) (by simpa using hclose)

theorem close (s : List Char) : EndsAfter (escapeUnits (']' :: s)) 1 true := by
  rw [escapeUnits_cons (by decide)]
  exact bracket [] (escapeUnits s) List.not_mem_nil

end EndsAfter

/-- **A class ends where the units of its text say**, although it is read in turns of one to four characters: every turn
takes whole units. -/
theorem classBody_endsAfter (acc : ClassBody) (pos : Nat) (s : List Char) (hopen : acc.closed = false) :
    ∃ n, (classBody acc pos s).size = acc.size + n ∧ EndsAfter (escapeUnits s) n (classBody acc pos s).closed := by
  have hlast : EndsAfter (escapeUnits ['\\']) 1 acc.closed := hopen ▸ .text [['\\']] (by decide)
  fun_induction classBody acc pos s with
  | case1 acc pos => exact ⟨0, rfl, hopen ▸ .text [] List.not_mem_nil⟩
  | case2 acc pos r => exact ⟨1, rfl, .close r⟩
  | case3 acc pos => exact ⟨1, rfl, hlast⟩
  | case4 acc pos c r ih =>
    obtain ⟨n, hsize, hends⟩ := ih hopen hlast
    exact ⟨n + 2, hsize.trans (by dsimp only; omega), hends.escape c⟩
  | case5 acc pos lo hclose hescape =>
    exact ⟨3, rfl, (hlast.char (by decide) (by decide)).char hclose hescape⟩
  | case6 acc pos lo c r hclose hescape ih =>
    obtain ⟨n, hsize, hends⟩ := ih hopen hlast
    exact ⟨n + 4, hsize.trans (by dsimp only; omega),
      ((hends.escape c).char (by decide) (by decide)).char hclose hescape⟩
  | case7 acc pos lo hi r hclose hescape _ _ hend =>
    obtain rfl : hi = ']' := by simpa using hend
    exact ⟨3, rfl, ((EndsAfter.close r).char (by decide) (by decide)).char hclose hescape⟩
  | case8 acc pos lo hi r hclose hescape hhiLast hhiMore hend ih =>
    obtain ⟨n, hsize, hends⟩ := ih hopen hlast
    have hupper := hends.char (by simpa using hend) (ne_backslash hhiLast hhiMore)
    exact ⟨n + 3, hsize.trans (by dsimp only; omega), (hupper.char (by decide) (by decide)).char hclose hescape⟩
  | case9 acc pos lo r hclose hloLast hloMore _ _ _ ih =>
    obtain ⟨n, hsize, hends⟩ := ih hopen hlast
    exact ⟨n + 1, hsize.trans (by dsimp only; omega), hends.char hclose (ne_backslash hloLast hloMore)⟩

/-- **A class that is not closed takes all there is.** -/
theorem classBody_open (acc : ClassBody) (pos : Nat) (s : List Char) (hopen : acc.closed = false)
    (h : (classBody acc pos s).closed = false) : (classBody acc pos s).size = acc.size + s.length := by
  obtain ⟨n, hsize, hends⟩ := classBody_endsAfter acc pos s hopen
  have htext := flatten_escapeUnits s
  rw [h] at hends
  generalize escapeUnits s = units at hends htext
  cases hends
  rw [hsize, htext]

/-! ## What follows a class -/

/-- a range between two characters -/
theorem classBody_range (acc : ClassBody) (pos : Nat) (lo hi : Char) (r : List Char) (hclose : lo ≠ ']')
    (hescape : lo ≠ '\\') (hhi : hi ≠ '\\') (hend : hi ≠ ']') :
    classBody acc pos (lo :: '-' :: hi :: r) =
      classBody
        { acc with
          cls := acc.cls.addRange lo.toNat hi.toNat
          remarks := acc.remarks ++ rangeRemarks pos lo hi [lo, '-', hi]
          size := acc.size + 3 }
        (pos + 3) r := by
  simp [classBody, hhi, hend]

/-- a character that starts no range is a member -/
theorem classBody_single (acc : ClassBody) (pos : Nat) (lo : Char) (r : List Char) (hclose : lo ≠ ']')
    (hescape : lo ≠ '\\') (hrange : ∀ hi t, r ≠ '-' :: hi :: t) :
    classBody acc pos (lo :: r) =
      classBody { acc with cls := acc.cls.addSingle lo.toNat, size := acc.size + 1 } (pos + 1) r := by
  rw [classBody.eq_def]
  split <;> simp_all

/-- **A class that is closed is the same whatever follows.** -/
theorem classBody_append (acc : ClassBody) (pos : Nat) (s t : List Char) (hopen : acc.closed = false)
    (hclosed : (classBody acc pos s).closed = true) : classBody acc pos (s ++ t) = classBody acc pos s := by
  fun_induction classBody acc pos s with
  | case1 acc pos => simp_all
  | case2 acc pos r => simp [classBody]
  | case3 acc pos => simp_all
  | case4 acc pos c r ih => simpa [classBody] using ih hopen hclosed
  | case5 acc pos lo => simp_all
  | case6 acc pos lo c r _ _ ih => simpa [classBody] using ih hopen hclosed
  | case7 acc pos lo hi r hclose hescape _ _ hend => simp_all [classBody]
  | case8 acc pos lo hi r hclose hescape hlast hmore hend ih =>
    have hhi : hi ≠ '\\' := ne_backslash hlast hmore
    rw [List.cons_append, List.cons_append, List.cons_append,
      classBody_range acc pos lo hi (r ++ t) hclose hescape hhi (by simpa using hend)]
    exact ih hopen hclosed
  | case9 acc pos lo r hclose hlast hmore _ _ hrange ih =>
    have hescape : lo ≠ '\\' := ne_backslash hlast hmore
    have hrange' : ∀ hi u, r ++ t ≠ '-' :: hi :: u := by
      -- a hyphen at the very end would leave the class open
      intro hi u h
      match r, hrange, hclosed with
      | [], _, hclosed => simp [classBody, hopen] at hclosed
      | [c], _, hclosed =>
        obtain ⟨rfl, -⟩ := List.cons.inj h
        simp [classBody, hopen] at hclosed
      | c :: c' :: r', hrange, _ =>
        obtain ⟨rfl, -⟩ := List.cons.inj h
        exact hrange c' r' rfl
    rw [List.cons_append, classBody_single acc pos lo (r ++ t) hclose hescape hrange']
    exact ih hopen hclosed

/-- **A class that is closed is read from what it takes alone.** -/
theorem classBody_take (acc : ClassBody) (pos : Nat) (s : List Char) (hopen : acc.closed = false)
    (hclosed : (classBody acc pos s).closed = true) (n : Nat) (hn : (classBody acc pos s).size = acc.size + n) :
    classBody acc pos (s.take n) = classBody acc pos s := by
  fun_induction classBody acc pos s generalizing n with
  | case1 acc pos => simp_all
  | case2 acc pos r =>
    obtain rfl : n = 1 := by dsimp only at hn; omega
    rfl
  | case3 acc pos => simp_all
  | case4 acc pos c r ih =>
    have hle := (classBody_extends _ _ r).le.trans_eq hn
    obtain ⟨m, rfl⟩ : ∃ m, n = m + 2 := ⟨n - 2, by dsimp only at hle; omega⟩
    simpa [classBody] using ih hopen hclosed m (hn.trans (by dsimp only; omega))
  | case5 acc pos lo => simp_all
  | case6 acc pos lo c r hclose hescape ih =>
    have hle := (classBody_extends _ _ r).le.trans_eq hn
    obtain ⟨m, rfl⟩ : ∃ m, n = m + 4 := ⟨n - 4, by dsimp only at hle; omega⟩
    simpa [classBody] using ih hopen hclosed m (hn.trans (by dsimp only; omega))
  | case7 acc pos lo hi r hclose hescape _ _ hend =>
    obtain rfl : n = 3 := by dsimp only at hn; omega
    simp_all [classBody]
  | case8 acc pos lo hi r hclose hescape hlast hmore hend ih =>
    have hle := (classBody_extends _ _ r).le.trans_eq hn
    obtain ⟨m, rfl⟩ : ∃ m, n = m + 3 := ⟨n - 3, by dsimp only at hle; omega⟩
    have hhi : hi ≠ '\\' := ne_backslash hlast hmore
    show classBody acc pos (lo :: '-' :: hi :: r.take m) = _
    rw [classBody_range acc pos lo hi (r.take m) hclose hescape hhi (by simpa using hend)]
    exact ih hopen hclosed m (hn.trans (by dsimp only; omega))
  | case9 acc pos lo r hclose hlast hmore _ _ hrange ih =>
    have hle := (classBody_extends _ _ r).le.trans_eq hn
    obtain ⟨m, rfl⟩ : ∃ m, n = m + 1 := ⟨n - 1, by dsimp only at hle; omega⟩
    have hescape : lo ≠ '\\' := ne_backslash hlast hmore
    have hrange' : ∀ hi u, r.take m ≠ '-' :: hi :: u := by
      intro hi u h
      obtain ⟨t, ht⟩ := List.take_prefix m r
      rw [h] at ht
      exact hrange hi (u ++ t) ht.symm
    rw [List.take_succ_cons, classBody_single acc pos lo (r.take m) hclose hescape hrange']
    exact ih hopen hclosed m (hn.trans (by dsimp only; omega))

/-- a class that ends before `t` does not see it -/
theorem classBody_of_append (acc : ClassBody) (pos : Nat) (s : List Char) {t : List Char} (hopen : acc.closed = false)
    (ht : t ≠ []) (hsize : (classBody acc pos (s ++ t)).size ≤ acc.size + s.length) :
    classBody acc pos s = classBody acc pos (s ++ t) := by
  have hclosed : (classBody acc pos (s ++ t)).closed = true := by
    by_contra h
    have hall := classBody_open acc pos (s ++ t) hopen (by simpa using h)
    have hpos := List.length_pos_of_ne_nil ht
    rw [List.length_append] at hall
    omega
  obtain ⟨n, hn⟩ := Nat.exists_eq_add_of_le (classBody_extends acc pos (s ++ t)).le
  have htake := classBody_take acc pos (s ++ t) hopen hclosed n hn
  rw [List.take_append_of_le_length (by omega)] at htake
  have happend := classBody_append acc pos (s.take n) (s.drop n) hopen (by rw [htake]; exact hclosed)
  rw [List.take_append_drop] at happend
  exact happend.trans htake

theorem classBody_remarks_prefix (acc : ClassBody) (pos : Nat) (s : List Char) :
    acc.remarks <+: (classBody acc pos s).remarks := by
  fun_induction classBody acc pos s with
  | case1 | case2 | case3 | case7 => exact List.prefix_refl _
  | case4 acc pos c r ih => exact (List.prefix_append _ _).trans ih
  | case5 => exact List.prefix_append _ _
  | case6 acc pos lo c r _ _ ih => exact ((List.prefix_append _ _).trans (List.prefix_append _ _)).trans ih
  | case8 acc pos lo hi r _ _ _ _ _ ih => exact (List.prefix_append _ _).trans ih
  | case9 acc pos lo r _ _ _ _ _ _ ih => exact ih

theorem shorthandRemarks_shift {pos : Nat} {c : Char} (h : shorthandRemarks pos c = []) (pos' : Nat) :
    shorthandRemarks pos' c = [] := by
  unfold shorthandRemarks at h ⊢
  split_ifs at h ⊢
  rfl

theorem rangeRemarks_shift {pos : Nat} {lo hi : Char} {text : List Char} (h : rangeRemarks pos lo hi text = [])
    (pos' : Nat) :
    rangeRemarks pos' lo hi text = [] := by
  unfold rangeRemarks at h ⊢
  split_ifs at h ⊢
  rfl

/-- **A class without remarks is the same wherever it stands.** -/
theorem classBody_shift (acc : ClassBody) (pos pos' : Nat) (s : List Char) (h : (classBody acc pos s).remarks = []) :
    classBody acc pos' s = classBody acc pos s := by
  have hnone : ∀ (acc : ClassBody) (pos : Nat) (s : List Char), (classBody acc pos s).remarks = [] → acc.remarks = [] :=
    fun acc pos s h => List.prefix_nil.1 (h ▸ classBody_remarks_prefix acc pos s)
  fun_induction classBody acc pos s generalizing pos' with
  | case1 | case2 => simp [classBody]
  | case3 => simp [classBody]
  | case4 acc pos c r ih =>
    have hacc := hnone _ _ _ h
    simp only [List.append_eq_nil_iff] at hacc
    rw [← ih (pos' + 2) h]
    simp [classBody, hacc.2, shorthandRemarks_shift hacc.2 pos']
  | case5 acc pos lo =>
    have hacc := h
    simp only [List.append_eq_nil_iff] at hacc
    simp [classBody, *, rangeRemarks_shift hacc.2 pos']
  | case6 acc pos lo c r _ _ ih =>
    have hacc := hnone _ _ _ h
    simp only [List.append_eq_nil_iff] at hacc
    rw [← ih (pos' + 4) h]
    simp [classBody, hacc.2, hacc.1.2, shorthandRemarks_shift hacc.1.2 (pos' + 2), rangeRemarks_shift hacc.2 pos']
  | case7 acc pos lo hi r => simp [classBody, *]
  | case8 acc pos lo hi r hclose hescape hlast hmore hend ih =>
    have hacc := hnone _ _ _ h
    simp only [List.append_eq_nil_iff] at hacc
    rw [← ih (pos' + 3) h]
    simp [classBody, hacc.2, rangeRemarks_shift hacc.2 pos', *]
  | case9 acc pos lo r _ _ _ _ _ _ ih =>
    rw [← ih (pos' + 1) h]
    simp [classBody, *]

/-! ## The piece -/

/-- the piece that a body makes of a class that starts at `pos` -/
def ClassBody.piece (b : ClassBody) (flags : Flags) (pos : Nat) : Piece :=
  ⟨.cls b.cls, if b.closed then b.remarks else b.remarks ++ [Problem.unterminatedClass.at pos], flags, b.size⟩

theorem classPiece_negated (flags : Flags) (pos : Nat) (r : List Char) :
    classPiece flags pos ('^' :: r) = (classBody ⟨⟨true, [], []⟩, [], 2, false⟩ (pos + 2) r).piece flags pos := rfl

theorem classPiece_plain (flags : Flags) (pos : Nat) {s : List Char} (h : ∀ r, s ≠ '^' :: r) :
    classPiece flags pos s = (classBody ⟨⟨false, [], []⟩, [], 1, false⟩ (pos + 1) s).piece flags pos := by
  unfold classPiece
  split
  · exact absurd rfl (h _)
  · rfl

end MatcherGen
