/-
The order of the work does not show. Requests share the store: one makes a directory in which another writes, or through which
another passes. They keep apart if no output file stands at or above another one, and no output path goes through a directory
that only another request makes. For such requests the outcome of a batch is that of each request alone, whatever the
schedule.

Two texts can name one place, and a path can go down into a directory and up again; so it is places that have to differ, not
paths. A clean path makes no such detour.

Main statements:
- `Batch.Intact`: what a batch without a failure has done to the store so far;
- `Batch.Move.outcome`: a move keeps this, or fails because its request fails alone;
- `Disk.Sound.no_detours`: paths that climb and then descend make no detours;
- `batch_outcome_ignores_schedule`: the outcome of a batch.
-/
import MatcherGen.Proofs.Batches

namespace MatcherGen

/-! ## Places of requests -/

/-- the place of the output file -/
def Options.place (o : Options) (d : Disk) : Place := d.placeOf o.output

/-- the directory of the output file -/
def Options.home (o : Options) (d : Disk) : Place := d.placeOf (parentPath o.output)

/-- what is above the directory of a path is above the path, or below it -/
theorem Disk.above_home {d : Disk} {path : String} {r : Place} (h : r <+: d.placeOf (parentPath path)) :
    r <+: d.placeOf path ∨ d.placeOf path <+: r := by
  obtain ⟨init, last, hnames, hhome⟩ := d.parentPath_place path
  rw [hhome] at h
  have hplace : d.placeOf path = follow (follow (d.origin path) init) [last] := by
    rw [Disk.placeOf, hnames, follow_append]
  rw [hplace]
  rcases name_cases last with (rfl | rfl) | rfl | hstep
  · exact Or.inl h
  · exact Or.inl h
  · rcases prefix_iff_dropLast.1 h with rfl | h
    · exact Or.inr (List.dropLast_prefix _)
    · exact Or.inl h
  · left
    rw [follow_cons_step hstep]
    exact h.trans (List.prefix_append _ _)

/-- the requests do not get in each other's way -/
structure KeepsApart (d : Disk) (requests : List Options) : Prop where
  /-- no output file stands at or above another one -/
  places : requests.Pairwise fun o o' => ¬ o.place d <+: o'.place d ∧ ¬ o'.place d <+: o.place d
  /-- a directory on the way of an output path is there, or made by the request itself, if it is made at all -/
  detours : ∀ o ∈ requests, ∀ o' ∈ requests, ∀ r ∈ d.passed o.output, r <+: o'.home d → d.isDir r = true ∨ r <+: o.home d

theorem KeepsApart.apart {d : Disk} {requests : List Options} (h : KeepsApart d requests) {i j : Nat} {o o' : Options}
    (ho : requests[i]? = some o) (ho' : requests[j]? = some o') (hne : i ≠ j) : ¬ o.place d <+: o'.place d := by
  obtain ⟨hi, rfl⟩ := List.getElem?_eq_some_iff.1 ho
  obtain ⟨hj, rfl⟩ := List.getElem?_eq_some_iff.1 ho'
  rcases Nat.lt_or_gt_of_ne hne with hlt | hgt
  · exact (List.pairwise_iff_getElem.1 h.places i j hi hj hlt).1
  · exact (List.pairwise_iff_getElem.1 h.places j i hj hi hgt).2

theorem KeepsApart.eq_of_place {d : Disk} {requests : List Options} (h : KeepsApart d requests) {o o' : Options}
    (ho : o ∈ requests) (ho' : o' ∈ requests) (hplace : o'.place d = o.place d) : o' = o := by
  obtain ⟨i, hi⟩ := List.mem_iff_getElem?.1 ho
  obtain ⟨j, hj⟩ := List.mem_iff_getElem?.1 ho'
  by_cases hne : j = i
  · rw [hne, hi, Option.some.injEq] at hj
    exact hj.symm
  · exact absurd (hplace ▸ List.prefix_rfl) (h.apart hj hi hne)

/-- the place of a request is not above the directory of another one -/
theorem KeepsApart.not_above_home {d : Disk} {requests : List Options} (h : KeepsApart d requests) {i j : Nat}
    {o o' : Options} (ho : requests[i]? = some o) (ho' : requests[j]? = some o') (hne : i ≠ j) :
    ¬ o.place d <+: o'.home d := by
  intro habove
  rcases Disk.above_home habove with hplace | hplace
  · exact h.apart ho ho' hne hplace
  · exact h.apart ho' ho hne.symm hplace

/-- the directory of a request cannot be made, or with it there the request cannot be carried out -/
def Options.FailsAlone (o : Options) (d : Disk) : Prop :=
  (∃ e, d.makeDirs (parentPath o.output) = .error e) ∨
    ∃ d' e, d.makeDirs (parentPath o.output) = .ok d' ∧ (o.compile d').outcome = .error e

instance (o : Options) (d : Disk) : Decidable (o.FailsAlone d) :=
  match hmake : d.makeDirs (parentPath o.output) with
  | .error e => .isTrue (Or.inl ⟨e, hmake⟩)
  | .ok d' =>
    match hcompile : (o.compile d').outcome with
    | .error e => .isTrue (Or.inr ⟨d', e, hmake, hcompile⟩)
    | .ok r => .isFalse (by simp [Options.FailsAlone, hmake, hcompile])

theorem Options.failsAlone_iff {o : Options} {d d' : Disk} (hout : o.output ≠ "")
    (hmake : d.makeDirs (parentPath o.output) = .ok d') :
    o.FailsAlone d ↔ ∀ code, o.code = .ok code → ¬ ∃ e, d'.write o.output (String.ofList code) = .ok e := by
  have hfails : o.FailsAlone d ↔ ∃ e, (o.compile d').outcome = .error e := by
    unfold Options.FailsAlone
    rw [hmake]
    simp
  rw [hfails, Options.compile_outcome]
  cases hcode : o.code with
  | error e => simp
  | ok code =>
    cases hdeliver : o.deliver code d' with
    | error e =>
      have hwrite : ¬ ∃ e, d'.write o.output (String.ofList code) = .ok e := by
        rintro ⟨e', hwrite⟩
        have hok := (Options.deliver_eq_ok_iff hout code d' [] e').2 ⟨rfl, hwrite⟩
        exact absurd (hok.symm.trans hdeliver) (by simp)
      simpa [hdeliver] using hwrite
    | ok r =>
      obtain ⟨text, e⟩ := r
      have hwrite := ((Options.deliver_eq_ok_iff hout code d' text e).1 hdeliver).2
      simp [hdeliver, hwrite]

/-! ## The store while nothing has failed -/

/-- does the request have its directory? -/
def Progress.isPlaced : Progress → Bool
  | .placed => true
  | .compiled _ _ => true
  | .finished _ => true
  | .waiting => false
  | .stopped => false

/-- is the request done? -/
def Progress.isFinished : Progress → Bool
  | .finished _ => true
  | _ => false

namespace Batch

variable {requests : List Options} {d : Disk} {l : List Progress} {i : Nat} {o : Options} {p : Progress}

/-- request `j` has come to a point of a kind -/
def Has (requests : List Options) (l : List Progress) (kind : Progress → Bool) (j : Nat) (o : Options) : Prop :=
  requests[j]? = some o ∧ ∃ p, l[j]? = some p ∧ kind p = true

theorem has_set_same (requests : List Options) (kind : Progress → Bool) {new : Progress} (hp : l[i]? = some p)
    (hkind : kind new = kind p) (j : Nat) (w : Options) :
    Has requests (l.set i new) kind j w ↔ Has requests l kind j w := by
  unfold Has
  by_cases hj : i = j
  · subst hj
    obtain ⟨hi, -⟩ := List.getElem?_eq_some_iff.1 hp
    rw [List.getElem?_set_self hi, hp]
    simp [hkind]
  · rw [List.getElem?_set_ne hj]

theorem has_set_new (kind : Progress → Bool) {new : Progress} (ho : requests[i]? = some o) (hp : l[i]? = some p)
    (hold : kind p = false) (hnew : kind new = true) (j : Nat) (w : Options) :
    Has requests (l.set i new) kind j w ↔ Has requests l kind j w ∨ j = i ∧ w = o := by
  unfold Has
  by_cases hj : i = j
  · subst hj
    obtain ⟨hi, -⟩ := List.getElem?_eq_some_iff.1 hp
    rw [List.getElem?_set_self hi, hp, ho]
    simp only [Option.some.injEq, exists_eq_left', hold, hnew, Bool.false_eq_true, and_false, and_true, false_or, true_and]
    exact eq_comm
  · rw [List.getElem?_set_ne hj]
    simp [Ne.symm hj]

/-- what a batch without a failure has done to the store `d` -/
structure Intact (requests : List Options) (d : Disk) (b : Batch) : Prop where
  cwd : b.disk.cwd = d.cwd
  /-- the directories are those of requests -/
  dirs : ∀ r, b.disk.isDir r = true ↔
    d.isDir r = true ∨ ∃ j o, Has requests b.progress Progress.isPlaced j o ∧ r <+: o.home d
  /-- the files are those of finished requests -/
  files : ∀ q, (∀ j o, Has requests b.progress Progress.isFinished j o → o.place d ≠ q) →
    b.disk.content? q = d.content? q
  /-- a request with a directory could have made it alone -/
  homes : ∀ j o, Has requests b.progress Progress.isPlaced j o → ∃ d', d.makeDirs (parentPath o.output) = .ok d'
  /-- a finished request could have been finished alone -/
  alone : ∀ j o, Has requests b.progress Progress.isFinished j o → ¬ o.FailsAlone d

namespace Intact

variable {b : Batch} (hsound : d.Sound) (hapart : KeepsApart d requests) (h : Intact requests d b)

include h hsound in
theorem sound : b.disk.Sound := by
  constructor
  · rw [h.cwd]
    exact (h.dirs _).2 (Or.inl hsound.cwd)
  · intro p hp
    apply (h.dirs _).2
    rcases (h.dirs p).1 hp with hp | ⟨j, o, hplaced, hp⟩
    · exact Or.inl (hsound.parent p hp)
    · exact Or.inr ⟨j, o, hplaced, (List.dropLast_prefix p).trans hp⟩

include h hapart in
/-- nothing was written above the directory of a request that waits -/
theorem content_above (ho : requests[i]? = some o) (hp : b.progress[i]? = some .waiting) {r : Place} (hr : r <+: o.home d) :
    b.disk.content? r = d.content? r := by
  apply h.files
  rintro j w ⟨hw, p, hfinished, hkind⟩ rfl
  have hne : j ≠ i := by
    rintro rfl
    rw [hp, Option.some.injEq] at hfinished
    rw [← hfinished] at hkind
    exact absurd hkind (by decide)
  exact hapart.not_above_home hw ho hne hr

include h hsound hapart in
/-- a request that waits can have its directory made exactly if it could alone -/
theorem makeDirs_iff (ho : requests[i]? = some o) (hp : b.progress[i]? = some .waiting) :
    (∃ e, b.disk.makeDirs (parentPath o.output) = .ok e) ↔ ∃ e, d.makeDirs (parentPath o.output) = .ok e := by
  have hdirect : Direct (significant (parentPath o.output)) := (cleanPath_direct _).1
  have hhome : b.disk.placeOf (parentPath o.output) = o.home d := Disk.placeOf_congr h.cwd _
  rw [Disk.makeDirs_ok_iff (h.sound hsound) hdirect, Disk.makeDirs_ok_iff hsound hdirect, hhome]
  apply and_congr_right'
  constructor
  · intro hclear r hr
    rcases hclear r hr with hdir | hnone
    · rcases (h.dirs r).1 hdir with hdir | ⟨j, w, hplaced, hrw⟩
      · exact Or.inl hdir
      · have hmade := (Disk.makeDirs_ok_iff hsound (cleanPath_direct _).1).1 (h.homes j w hplaced)
        exact hmade.2 r hrw
    · rw [h.content_above hapart ho hp hr] at hnone
      exact Or.inr hnone
  · intro hclear r hr
    rcases hclear r hr with hdir | hnone
    · exact Or.inl ((h.dirs r).2 (Or.inl hdir))
    · rw [← h.content_above hapart ho hp hr] at hnone
      exact Or.inr hnone

include h hsound hapart in
/-- a request with a directory can write its file exactly if it could alone -/
theorem write_iff (hplaced : Has requests b.progress Progress.isPlaced i o) {d' : Disk}
    (hmake : d.makeDirs (parentPath o.output) = .ok d') (text : String) :
    (∃ e, b.disk.write o.output text = .ok e) ↔ ∃ e, d'.write o.output text = .ok e := by
  have hmade : Disk.Made d (o.home d) d' := Disk.makeDirs_made hsound (cleanPath_direct _).1 hmake
  have ho : o ∈ requests := List.mem_of_getElem? hplaced.1
  have hsub : ∀ r, d'.isDir r = true → b.disk.isDir r = true := by
    intro r hr
    apply (h.dirs r).2
    rcases (hmade.isDir r).1 hr with hr | hr
    · exact Or.inl hr
    · exact Or.inr ⟨i, o, hplaced, hr⟩
  have hway : ∀ r ∈ d.passed o.output, b.disk.isDir r = true → d'.isDir r = true := by
    intro r hpassed hr
    apply (hmade.isDir r).2
    rcases (h.dirs r).1 hr with hr | ⟨j, w, hw, hr⟩
    · exact Or.inl hr
    · exact hapart.detours o ho w (List.mem_of_getElem? hw.1) r hpassed hr
  have hplace : b.disk.isDir (o.place d) = true → d'.isDir (o.place d) = true := by
    intro hr
    apply (hmade.isDir _).2
    rcases (h.dirs _).1 hr with hr | ⟨j, w, hw, hr⟩
    · exact Or.inl hr
    · by_cases hj : i = j
      · subst hj
        obtain rfl : o = w := Option.some.inj (hplaced.1.symm.trans hw.1)
        exact Or.inr hr
      · exact absurd hr (hapart.not_above_home hplaced.1 hw.1 hj)
  have hsame : b.disk.isDir (d.placeOf o.output) = d'.isDir (d.placeOf o.output) := Bool.eq_iff_iff.2 ⟨hplace, hsub _⟩
  rw [Disk.write_ok_iff, Disk.write_ok_iff, Disk.placeOf_congr h.cwd, Disk.placeOf_congr hmade.cwd, hsame]
  apply and_congr_left'
  constructor
  · intro hreached
    apply hreached.mono (hmade.cwd.trans h.cwd.symm)
    rw [Disk.passed_congr h.cwd]
    exact hway
  · intro hreached
    apply hreached.mono (h.cwd.trans hmade.cwd.symm)
    intro r _
    exact hsub r

include h hsound hapart in
/-- the directory of a request is made -/
theorem place (ho : requests[i]? = some o) (hp : b.progress[i]? = some .waiting) {e : Disk}
    (hmake : b.disk.makeDirs (parentPath o.output) = .ok e) : Intact requests d { b.reach i .placed with disk := e } := by
  have hmade : Disk.Made b.disk (o.home d) e := by
    have hmade := Disk.makeDirs_made (h.sound hsound) (cleanPath_direct _).1 hmake
    rwa [Disk.placeOf_congr h.cwd] at hmade
  have hplaced := has_set_new Progress.isPlaced ho hp rfl (rfl : Progress.isPlaced .placed = true)
  have hfinished := has_set_same requests Progress.isFinished hp (rfl : Progress.isFinished .placed = _)
  refine ⟨hmade.cwd.trans h.cwd, ?_, ?_, ?_, ?_⟩
  · intro r
    change e.isDir r = true ↔ _
    rw [hmade.isDir, h.dirs]
    constructor
    · rintro ((hr | ⟨j, w, hw, hr⟩) | hr)
      · exact Or.inl hr
      · exact Or.inr ⟨j, w, (hplaced j w).2 (Or.inl hw), hr⟩
      · exact Or.inr ⟨i, o, (hplaced i o).2 (Or.inr ⟨rfl, rfl⟩), hr⟩
    · rintro (hr | ⟨j, w, hw, hr⟩)
      · exact Or.inl (Or.inl hr)
      · rcases (hplaced j w).1 hw with hw | ⟨-, rfl⟩
        · exact Or.inl (Or.inr ⟨j, w, hw, hr⟩)
        · exact Or.inr hr
  · intro q hq
    refine (Disk.content?_congr hmade.files q).trans (h.files q ?_)
    intro j w hw
    exact hq j w ((hfinished j w).2 hw)
  · intro j w hw
    rcases (hplaced j w).1 hw with hw | ⟨-, rfl⟩
    · exact h.homes j w hw
    · exact (h.makeDirs_iff hsound hapart ho hp).1 ⟨e, hmake⟩
  · intro j w hw
    exact h.alone j w ((hfinished j w).1 hw)

include h in
/-- a pattern is translated -/
theorem translate (hp : b.progress[i]? = some .placed) (log : Text) (reading : Reading) (code : List Char) :
    Intact requests d ({ b with log := log }.reach i (.compiled reading code)) := by
  have hplaced := has_set_same requests Progress.isPlaced hp (rfl : Progress.isPlaced (.compiled reading code) = _)
  have hfinished := has_set_same requests Progress.isFinished hp (rfl : Progress.isFinished (.compiled reading code) = _)
  refine ⟨h.cwd, ?_, ?_, ?_, ?_⟩
  · intro r
    refine (h.dirs r).trans (or_congr_right ?_)
    exact exists_congr fun j => exists_congr fun w => and_congr_left' (hplaced j w).symm
  · intro q hq
    apply h.files q
    intro j w hw
    exact hq j w ((hfinished j w).2 hw)
  · intro j w hw
    exact h.homes j w ((hplaced j w).1 hw)
  · intro j w hw
    exact h.alone j w ((hfinished j w).1 hw)

include h hsound hapart in
/-- the code of a request is written -/
theorem deliver (hout : o.output ≠ "") (ho : requests[i]? = some o) {reading : Reading} {code : List Char}
    (hp : b.progress[i]? = some (.compiled reading code)) (hcode : o.code = .ok code) {e : Disk}
    (hwrite : b.disk.write o.output (String.ofList code) = .ok e) (printed : List Char) :
    Intact requests d { b.reach i (.finished reading) with disk := e, printed := printed } := by
  have hplaced := has_set_same requests Progress.isPlaced hp (rfl : Progress.isPlaced (.finished reading) = _)
  have hfinished := has_set_new Progress.isFinished ho hp rfl (rfl : Progress.isFinished (.finished reading) = true)
  have hi : Has requests b.progress Progress.isPlaced i o := ⟨ho, _, hp, rfl⟩
  obtain ⟨-, -, -, hfile⟩ := (Disk.write_eq_ok_iff _ _ _ _).1 hwrite
  rw [Disk.placeOf_congr h.cwd] at hfile
  refine ⟨?_, ?_, ?_, ?_, ?_⟩
  · change e.cwd = d.cwd
    rw [hfile, Disk.setFile_cwd]
    exact h.cwd
  · intro r
    change e.isDir r = true ↔ _
    rw [hfile, Disk.isDir_setFile]
    refine (h.dirs r).trans (or_congr_right ?_)
    exact exists_congr fun j => exists_congr fun w => and_congr_left' (hplaced j w).symm
  · intro q hq
    have hne : q ≠ d.placeOf o.output := (hq i o ((hfinished i o).2 (Or.inr ⟨rfl, rfl⟩))).symm
    change e.content? q = d.content? q
    rw [hfile, Disk.content?_setFile, if_neg hne]
    apply h.files q
    intro j w hw
    exact hq j w ((hfinished j w).2 (Or.inl hw))
  · intro j w hw
    exact h.homes j w ((hplaced j w).1 hw)
  · intro j w hw
    rcases (hfinished j w).1 hw with hw | ⟨-, rfl⟩
    · exact h.alone j w hw
    · obtain ⟨d', hmake⟩ := h.homes i w hi
      rw [Options.failsAlone_iff hout hmake]
      intro hfails
      exact hfails code hcode ((h.write_iff hsound hapart hi hmake _).1 ⟨e, hwrite⟩)

end Intact

/-! ## The outcome -/

theorem Move.canceled {b b' : Batch} (hmove : Move requests b i b') : b'.canceled = b.canceled := by
  cases hmove <;> rfl

theorem Move.failure {b b' : Batch} (hmove : Move requests b i b') (h : b.failure.isSome = true) :
    b'.failure.isSome = true := by
  cases hmove with
  | idle _ => exact h
  | halted _ _ _ => exact isSome_fail b i _
  | unplaced _ _ _ _ _ => exact isSome_fail b i _
  | placed _ _ _ _ _ => exact h
  | untranslated log _ _ _ => exact isSome_fail { b with log := log } i _
  | translated _ _ _ _ => exact h
  | undelivered _ _ _ => exact isSome_fail b i _
  | delivered _ _ _ => exact h

/-- a batch that is not called off: nothing has failed and the store is intact, or a request fails alone -/
structure Tracks (requests : List Options) (d : Disk) (b : Batch) : Prop where
  coherent : Each requests b.progress (Coherent b.failure.isSome)
  canceled : b.canceled = false
  outcome : b.failure = none ∧ Intact requests d b ∨ b.failure.isSome = true ∧ ∃ o ∈ requests, o.FailsAlone d

section Outcome

variable {b b' : Batch} (hsound : d.Sound) (hapart : KeepsApart d requests) (hout : ∀ o ∈ requests, o.output ≠ "")

include hsound hapart hout

/-- **A move keeps the store intact, or fails because its request fails alone.** -/
theorem Move.outcome (hmove : Move requests b i b') (hcoherent : Each requests b.progress (Coherent b.failure.isSome))
    (hcanceled : b.canceled = false) (hfailure : b.failure = none) (h : Intact requests d b) :
    b'.failure = none ∧ Intact requests d b' ∨ b'.failure.isSome = true ∧ ∃ o ∈ requests, o.FailsAlone d := by
  cases hmove with
  | idle _ => exact Or.inl ⟨hfailure, h⟩
  | halted _ _ hoff =>
    rw [hcanceled, hfailure] at hoff
    exact absurd hoff (by simp)
  | @unplaced o e ho hp _ _ hhome =>
    have hmem := List.mem_of_getElem? ho
    rw [Options.makeHome_eq (hout o hmem)] at hhome
    refine Or.inr ⟨isSome_fail b i _, o, hmem, Or.inl ?_⟩
    cases hmake : d.makeDirs (parentPath o.output) with
    | error e' => exact ⟨e', rfl⟩
    | ok d' =>
      obtain ⟨e', hok⟩ := (h.makeDirs_iff hsound hapart ho hp).2 ⟨d', hmake⟩
      exact absurd (hok.symm.trans hhome) (by simp)
  | @placed o e ho hp _ _ hhome =>
    rw [Options.makeHome_eq (hout o (List.mem_of_getElem? ho))] at hhome
    exact Or.inl ⟨hfailure, h.place hsound hapart ho hp hhome⟩
  | @untranslated o e log ho hp hcode =>
    have hmem := List.mem_of_getElem? ho
    obtain ⟨d', hmake⟩ := h.homes i o ⟨ho, _, hp, rfl⟩
    refine Or.inr ⟨isSome_fail { b with log := log } i _, o, hmem, ?_⟩
    rw [Options.failsAlone_iff (hout o hmem) hmake]
    intro code hok
    exact absurd (hok.symm.trans hcode) (by simp)
  | translated log ho hp hcode => exact Or.inl ⟨hfailure, h.translate hp log _ _⟩
  | @undelivered o reading code e ho hp hdeliver =>
    have hmem := List.mem_of_getElem? ho
    have hplaced : Has requests b.progress Progress.isPlaced i o := ⟨ho, _, hp, rfl⟩
    obtain ⟨d', hmake⟩ := h.homes i o hplaced
    refine Or.inr ⟨isSome_fail b i _, o, hmem, ?_⟩
    rw [Options.failsAlone_iff (hout o hmem) hmake]
    intro code' hcode' hwrite
    obtain rfl : code' = code := Except.ok.inj (hcode'.symm.trans (hcoherent i o _ ho hp).2)
    obtain ⟨e', hwrite⟩ := (h.write_iff hsound hapart hplaced hmake _).2 hwrite
    have hok := (Options.deliver_eq_ok_iff (hout o hmem) code' b.disk [] e').2 ⟨rfl, hwrite⟩
    exact absurd (hok.symm.trans hdeliver) (by simp)
  | @delivered o reading code text e ho hp hdeliver =>
    have hout := hout o (List.mem_of_getElem? ho)
    obtain ⟨-, hwrite⟩ := (Options.deliver_eq_ok_iff hout code b.disk text e).1 hdeliver
    exact Or.inl ⟨hfailure, h.deliver hsound hapart hout ho hp (hcoherent i o _ ho hp).2 hwrite _⟩

theorem Move.tracks (hmove : Move requests b i b') (h : Tracks requests d b) : Tracks requests d b' := by
  refine ⟨hmove.coherent h.coherent, hmove.canceled.trans h.canceled, ?_⟩
  rcases h.outcome with ⟨hfailure, hintact⟩ | ⟨hfailed, hfails⟩
  · exact hmove.outcome hsound hapart hout h.coherent h.canceled hfailure hintact
  · exact Or.inr ⟨hmove.failure hfailed, hfails⟩

/-- **Every state of a batch** that is not called off. -/
theorem run_tracks (schedule : List Nat) : Tracks requests d ((start requests.length false d).run requests schedule) := by
  have hnone : ∀ kind : Progress → Bool, kind .waiting = false →
      ∀ j o, ¬ Has requests (start requests.length false d).progress kind j o := by
    rintro kind hwaiting j o ⟨-, p, hp, hkind⟩
    rw [start_waiting hp, hwaiting] at hkind
    exact absurd hkind (by decide)
  apply run_moves (Move.tracks hsound hapart hout)
  refine ⟨run_coherent requests false d [], rfl, Or.inl ⟨rfl, rfl, ?_, ?_, ?_, ?_⟩⟩
  · intro r
    refine ⟨Or.inl, ?_⟩
    rintro (hr | ⟨j, o, hplaced, -⟩)
    · exact hr
    · exact absurd hplaced (hnone _ rfl j o)
  · intro q _
    rfl
  · intro j o hplaced
    exact absurd hplaced (hnone _ rfl j o)
  · intro j o hfinished
    exact absurd hfinished (hnone _ rfl j o)

end Outcome

end Batch

/-! ## Detours -/

/-- names that climb and then descend are looked up in directories, or above the place they lead to -/
theorem Disk.Sound.passes_direct {d : Disk} (h : d.Sound) {p : Place} (hp : d.isDir p = true) {names : List String}
    (hdirect : Direct names) {r : Place} (hr : r ∈ passes p names) : d.isDir r = true ∨ r <+: follow p names := by
  obtain ⟨ups, steps, rfl, hups, hsteps⟩ := hdirect
  rw [passes_append, List.mem_append] at hr
  rw [follow_append, follow_steps hsteps]
  rcases hr with hr | hr
  · exact Or.inl ((h.climb hups hp).1 r hr)
  · exact Or.inr (passes_steps hsteps hr)

/-- **A path that climbs and then descends makes no detours**: what it passes through is there, or above its directory. -/
theorem Disk.Sound.no_detours {d : Disk} (h : d.Sound) {path : String} (hdirect : Direct (significant path)) {r : Place}
    (hr : r ∈ d.passed path) : d.isDir r = true ∨ r <+: d.placeOf (parentPath path) := by
  obtain ⟨init, last, hnames, hhome⟩ := d.parentPath_place path
  rw [Disk.passed, hnames, passes_append, List.mem_append] at hr
  rw [hhome]
  rcases hr with hr | hr
  · rw [← passes_significant] at hr
    rw [← follow_significant]
    refine h.passes_direct (h.origin path) ?_ hr
    rw [significant, hnames, List.filter_append] at hdirect
    by_cases hlast : last = ""
    · rwa [hlast, List.filter_cons_of_neg (by simp), List.filter_nil, List.append_nil] at hdirect
    · rw [List.filter_cons_of_pos (by simpa using hlast), List.filter_nil] at hdirect
      have hdrop := hdirect.dropLast
      rwa [List.dropLast_concat] at hdrop
  · right
    by_cases hlast : last = ""
    · rw [hlast] at hr
      exact absurd hr (by simp [passes])
    · rw [passes_cons hlast] at hr
      simp only [passes, List.mem_singleton] at hr
      rw [hr]

/-- requests with clean output paths keep apart if their places do -/
theorem keepsApart_of_clean {d : Disk} {requests : List Options} (h : d.Sound)
    (hclean : ∀ o ∈ requests, cleanPath o.output = o.output)
    (hplaces : requests.Pairwise fun o o' => ¬ o.place d <+: o'.place d ∧ ¬ o'.place d <+: o.place d) :
    KeepsApart d requests := by
  refine ⟨hplaces, ?_⟩
  intro o ho _ _ r hr _
  have hdirect := (cleanPath_direct o.output).1
  rw [hclean o ho] at hdirect
  exact h.no_detours hdirect hr

/-- **The outcome of a batch does not depend on the schedule.** For requests with output files that keep apart: a batch that
comes to its end fails exactly if one of the requests fails alone. If it does not fail, it reports every request with the
reading of its pattern, every output file holds the code of its request, and all other files are as before. -/
theorem batch_outcome_ignores_schedule {d : Disk} {requests : List Options} (hsound : d.Sound)
    (hout : ∀ o ∈ requests, o.output ≠ "") (hapart : KeepsApart d requests) {schedule : List Nat}
    (hsettled : ((Batch.start requests.length false d).run requests schedule).Settled) :
    let b := (Batch.start requests.length false d).run requests schedule
    ((∃ e, b.reports requests = .error e) ↔ ∃ o ∈ requests, o.FailsAlone d) ∧
      ∀ reports, b.reports requests = .ok reports →
        reports = requests.map (fun o => ⟨o, Reading.ofPattern o.pattern⟩) ∧ (∀ o ∈ requests, b.disk.Holds o.output o) ∧
          ∀ q, (∀ o ∈ requests, o.place d ≠ q) → b.disk.content? q = d.content? q := by
  intro b
  have htracks : Batch.Tracks requests d b := Batch.run_tracks hsound hapart hout schedule
  rcases htracks.outcome with ⟨hfailure, hintact⟩ | ⟨hfailed, hfails⟩
  · have hends : Batch.Ends requests d b := ⟨⟨schedule, rfl⟩, hsettled, hfailure⟩
    constructor
    · rw [hends.reports]
      refine ⟨by simp, ?_⟩
      rintro ⟨o, ho, hfails⟩
      obtain ⟨i, hi⟩ := List.mem_iff_getElem?.1 ho
      exact absurd hfails (hintact.alone i o ⟨hi, _, hends.finished hi, rfl⟩)
    · intro reports hreports
      rw [hends.reports, Except.ok.injEq] at hreports
      refine ⟨hreports.symm, ?_, ?_⟩
      · intro o ho
        obtain ⟨o', ho', hplace, hholds⟩ := hends.filled ho (hout o ho)
        rw [hapart.eq_of_place ho ho' hplace] at hholds
        exact hholds
      · intro q hq
        apply hintact.files q
        intro j o hfinished
        exact hq o (List.mem_of_getElem? hfinished.1)
  · obtain ⟨e, he⟩ := Option.isSome_iff_exists.1 hfailed
    have hreports : b.reports requests = .error e := by rw [Batch.reports, he]
    rw [hreports]
    refine ⟨⟨fun _ => hfails, fun _ => ⟨e, rfl⟩⟩, ?_⟩
    intro reports heq
    exact absurd heq (by simp)

/-- a store with a working directory and nothing else -/
def workStore : Disk := Disk.empty ["work"]

/-- requests that share directories, one of them beside the working directory -/
def sharedFolders : List Options := [.plain "x" "A" "out/a.go", .plain "y" "B" "out/b.go", .plain "z" "C" "../lib/c.go"]

/-- the requests take turns -/
theorem sharedFolders_outcome :
    let b := (Batch.start 3 false workStore).run sharedFolders [0, 1, 2, 1, 0, 2, 2, 1, 0]
    KeepsApart workStore sharedFolders ∧ b.Settled ∧
      ((∃ e, b.reports sharedFolders = .error e) ↔ ∃ o ∈ sharedFolders, o.FailsAlone workStore) ∧
        ∀ reports, b.reports sharedFolders = .ok reports →
          reports = sharedFolders.map (fun o => ⟨o, Reading.ofPattern o.pattern⟩) ∧
            (∀ o ∈ sharedFolders, b.disk.Holds o.output o) ∧
              ∀ q, (∀ o ∈ sharedFolders, o.place workStore ≠ q) → b.disk.content? q = workStore.content? q := by
  have hsound : workStore.Sound := Disk.Sound.of_dirs (by decide +kernel) (by decide +kernel)
  have hapart : KeepsApart workStore sharedFolders :=
    keepsApart_of_clean hsound (by decide +kernel) (by decide +kernel)
  have hsettled : ((Batch.start 3 false workStore).run sharedFolders [0, 1, 2, 1, 0, 2, 2, 1, 0]).Settled :=
    Batch.run_settled rfl (by decide)
  exact ⟨hapart, hsettled, batch_outcome_ignores_schedule hsound (by decide +kernel) hapart hsettled⟩

/-- the second path goes through the directory of the first -/
def detourRequests : List Options := [.plain "x" "A" "d/a.go", .plain "y" "B" "d/../b.go"]

/-- two texts for one place -/
def aliasRequests : List Options := [.plain "x" "A" "a.go", .plain "y" "B" "/work/a.go"]

/-- **Clean paths that differ are not enough.** A request that fails alone is carried out if another one makes a directory on
its way first, and fails if that one comes later; and two requests can write one file under different paths. -/
theorem clean_paths_do_not_keep_apart :
    ((∀ o ∈ detourRequests, o.validate = .ok ()) ∧
      detourRequests.map (fun o => cleanPath o.output) = ["d/a.go", "b.go"] ∧
      (∃ o ∈ detourRequests, o.FailsAlone workStore) ∧
      ((Batch.start 2 false workStore).run detourRequests [0, 0, 0, 1, 1, 1]).Settled ∧
      ((Batch.start 2 false workStore).run detourRequests [0, 0, 0, 1, 1, 1]).failure = none ∧
      ((Batch.start 2 false workStore).run detourRequests [1, 1, 1, 0, 0, 0]).Settled ∧
      ((Batch.start 2 false workStore).run detourRequests [1, 1, 1, 0, 0, 0]).failure.isSome = true) ∧
    ((∀ o ∈ aliasRequests, o.validate = .ok ()) ∧
      aliasRequests.map (fun o => cleanPath o.output) = ["a.go", "/work/a.go"] ∧
      (compileAll aliasRequests false workStore).failure = none ∧
      ∃ o ∈ aliasRequests, ¬ (compileAll aliasRequests false workStore).disk.Holds o.output o) := by
  refine ⟨⟨by decide +kernel, by decide +kernel, ?_, ?_, by decide +kernel, ?_, by decide +kernel⟩, by decide +kernel,
    by decide +kernel, by decide +kernel, ?_⟩
  · exact ⟨.plain "y" "B" "d/../b.go", by decide +kernel, by decide +kernel⟩
  · exact Batch.run_settled rfl (by decide)
  · exact Batch.run_settled rfl (by decide)
  · have hcodes : (Options.plain "x" "A" "a.go").code ≠ (Options.plain "y" "B" "/work/a.go").code := by decide +kernel
    have hcwd : (compileAll aliasRequests false workStore).disk.cwd = workStore.cwd := (Batch.run_writes _ _ _ _).cwd
    by_contra hall
    push Not at hall
    have hplaces : workStore.placeOf "a.go" = workStore.placeOf "/work/a.go" := by decide +kernel
    have hsame := (Disk.placeOf_congr hcwd "a.go").trans (hplaces.trans (Disk.placeOf_congr hcwd "/work/a.go").symm)
    exact hcodes ((hall _ List.mem_cons_self).code_eq (hall _ (List.mem_cons_of_mem _ List.mem_cons_self)) hsame)

end MatcherGen
