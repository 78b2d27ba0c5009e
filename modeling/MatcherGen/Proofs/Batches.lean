/-
What a batch can do, step by step. A request makes the directory of its output, translates its pattern and hands over the
code; a step of a schedule lets one request take one of these, and any of them can fail. `Batch.Move` lists the outcomes of
a step once, and every statement about runs is shown move by move.

Main statements:
- `Options.compile_outcome`: carrying out a request is translating it and handing over the code;
- `Options.compileText_eq_ok_iff`: carrying it out as text gives the same code;
- `Batch.step_move`: a step of a schedule is one of the moves;
- `Batch.run_settled`: a schedule that names every request three times leaves none unfinished;
- `Batch.reports_of_settled`: the reports of a batch that came to its end without a failure;
- `Batch.run_writes`: the output file of a finished request holds the code of a request with that place.
-/
import MatcherGen.Batch
import MatcherGen.Proofs.Disks

namespace MatcherGen

/-! ## A request alone -/

/-- a request with the usual settings -/
def Options.plain (pattern name output : String) : Options :=
  { pattern := Text.ofString pattern, name := name, output := output, package := "main", runtime := "", scope := .pattern
    legacy := false, strict := false, verbose := false }

/-- the store with the directory of the output file -/
def Options.makeHome (o : Options) (d : Disk) : Except FileError Disk :=
  if o.output == "" then .ok d else d.makeDirs (parentPath o.output)

theorem Options.makeHome_eq {o : Options} (h : o.output ≠ "") (d : Disk) :
    o.makeHome d = d.makeDirs (parentPath o.output) := by
  rw [Options.makeHome, if_neg (by simpa using h)]

theorem Options.makeHome_grown {o : Options} {d d' : Disk} (h : o.makeHome d = .ok d') : d.Grown d' := by
  unfold Options.makeHome at h
  split_ifs at h
  · rw [← Except.ok.inj h]
    exact .refl d
  · exact Disk.makeDirs_grown h

/-- the code for a request -/
def Options.code (o : Options) : Except CompileError (List Char) :=
  match o.validate with
  | .error e => .error (.options e)
  | .ok () =>
    match (Session.start o (Reading.ofPattern o.pattern)).render 1 with
    | .error e => .error (.generate e)
    | .ok code => .ok code

/-- hand over the code of a request -/
def Options.deliver (o : Options) (code : List Char) (d : Disk) : Except GenerateError (List Char × Disk) :=
  (Session.start o (Reading.ofPattern o.pattern)).deliver code d

/-- **Carrying out a request** is translating it and handing over the code. -/
theorem Options.compile_outcome (o : Options) (d : Disk) :
    (o.compile d).outcome =
      match o.code with
      | .error e => .error e
      | .ok code =>
        match o.deliver code d with
        | .error e => .error (.generate e)
        | .ok r => .ok r := by
  unfold Options.compile Options.code
  cases o.validate with
  | error e => rfl
  | ok u =>
    simp only [Session.generate]
    change (match (match (Session.start o (Reading.ofPattern o.pattern)).render 1 with
        | .error e => Except.error e
        | .ok code => o.deliver code d) with
      | .error e => (⟨_, _, .error (.generate e)⟩ : Compiled)
      | .ok r => ⟨_, _, .ok r⟩).outcome = _
    cases (Session.start o (Reading.ofPattern o.pattern)).render 1 with
    | error e => rfl
    | ok code =>
      dsimp only
      cases o.deliver code d <;> rfl

theorem Options.deliver_eq (o : Options) (code : List Char) (d : Disk) :
    o.deliver code d =
      if o.output == "" then .ok (code, d)
      else
        match d.write o.output (String.ofList code) with
        | .error e => .error (.saveWrite e)
        | .ok d => .ok ([], d) := rfl

/-- a request with an output file hands over its code by writing the file -/
theorem Options.deliver_eq_ok_iff {o : Options} (h : o.output ≠ "") (code : List Char) (d : Disk) (text : List Char)
    (d' : Disk) :
    o.deliver code d = .ok (text, d') ↔ text = [] ∧ d.write o.output (String.ofList code) = .ok d' := by
  have hout : (o.output == "") = false := by simpa using h
  rw [Options.deliver_eq, hout, if_neg Bool.false_ne_true]
  cases d.write o.output (String.ofList code) with
  | error e => simp
  | ok d₁ =>
    simp only [Except.ok.injEq, Prod.mk.injEq]
    exact and_congr_left' eq_comm

theorem Options.code_eq_ok_iff (o : Options) (code : List Char) :
    o.code = .ok code ↔
      o.validate = .ok () ∧ ((Session.start o (Reading.ofPattern o.pattern)).file 1).render = .ok code := by
  unfold Options.code Session.render
  cases o.validate with
  | error e => simp
  | ok u => cases ((Session.start o (Reading.ofPattern o.pattern)).file 1).render <;> simp

/-- **Carrying out a request as text** gives its code and leaves the store alone. -/
theorem Options.compileText_eq_ok_iff (o : Options) (d : Disk) (code : List Char) (d' : Disk) :
    (o.compileText d).outcome = .ok (code, d') ↔ o.code = .ok code ∧ d' = d := by
  -- the output file is no part of the code
  have hsame : ({ o with output := "" } : Options).code = .ok code ↔ o.code = .ok code := by
    rw [Options.code_eq_ok_iff, Options.code_eq_ok_iff]
    exact Iff.rfl
  rw [Options.compileText, Options.compile_outcome, ← hsame]
  cases ({ o with output := "" } : Options).code with
  | error e => simp
  | ok code' =>
    have hdeliver : ({ o with output := "" } : Options).deliver code' d = .ok (code', d) := rfl
    dsimp only
    rw [hdeliver]
    simp only [Except.ok.injEq, Prod.mk.injEq]
    exact and_congr_right' eq_comm

/-- the file at a path holds the code of a request -/
def Disk.Holds (d : Disk) (path : String) (o : Options) : Prop :=
  ∃ code, (o.compileText d).outcome = .ok (code, d) ∧ d.read path = .ok (String.ofList code)

theorem Disk.holds_iff {d : Disk} {path : String} {o : Options} :
    d.Holds path o ↔ ∃ code, o.code = .ok code ∧ d.read path = .ok (String.ofList code) := by
  simp only [Disk.Holds, Options.compileText_eq_ok_iff, and_true]

/-- a place holds the code of one request -/
theorem Disk.Holds.code_eq {d : Disk} {path path' : String} {o o' : Options} (h : d.Holds path o) (h' : d.Holds path' o')
    (hplace : d.placeOf path = d.placeOf path') : o.code = o'.code := by
  obtain ⟨code, hcode, hread⟩ := Disk.holds_iff.1 h
  obtain ⟨code', hcode', hread'⟩ := Disk.holds_iff.1 h'
  obtain ⟨-, -, hthere, -⟩ := (d.read_eq_ok_iff path _).1 hread
  obtain ⟨-, -, hthere', -⟩ := (d.read_eq_ok_iff path' _).1 hread'
  rw [hplace, hthere', Option.some.injEq] at hthere
  rw [hcode, hcode', String.ofList_injective hthere]

/-! ## Moves -/

/-- how many steps are left -/
def Progress.left : Progress → Nat
  | .waiting => 3
  | .placed => 2
  | .compiled _ _ => 1
  | .finished _ => 0
  | .stopped => 0

namespace Batch

variable {requests : List Options}

/-- the outcomes of a step of request `i` -/
inductive Move (requests : List Options) (b : Batch) (i : Nat) : Batch → Prop where
  /-- nothing is left to do -/
  | idle : (∀ o p, requests[i]? = some o → b.progress[i]? = some p → p.left = 0) → Move requests b i b
  /-- the batch was called off before the request started -/
  | halted {o : Options} : requests[i]? = some o → b.progress[i]? = some .waiting →
      b.canceled = true ∨ b.failure.isSome = true → Move requests b i (b.fail i .canceled)
  | unplaced {o : Options} {e : FileError} : requests[i]? = some o → b.progress[i]? = some .waiting →
      b.canceled = false → b.failure = none → o.makeHome b.disk = .error e →
      Move requests b i (b.fail i (.directory o.name e))
  | placed {o : Options} {d : Disk} : requests[i]? = some o → b.progress[i]? = some .waiting →
      b.canceled = false → b.failure = none → o.makeHome b.disk = .ok d →
      Move requests b i { b.reach i .placed with disk := d }
  | untranslated {o : Options} {e : CompileError} (log : Text) : requests[i]? = some o →
      b.progress[i]? = some .placed → o.code = .error e →
      Move requests b i ({ b with log := log }.fail i (.entry o.name e))
  | translated {o : Options} {code : List Char} (log : Text) : requests[i]? = some o →
      b.progress[i]? = some .placed → o.code = .ok code →
      Move requests b i ({ b with log := log }.reach i (.compiled (Reading.ofPattern o.pattern) code))
  | undelivered {o : Options} {reading : Reading} {code : List Char} {e : GenerateError} : requests[i]? = some o →
      b.progress[i]? = some (.compiled reading code) → o.deliver code b.disk = .error e →
      Move requests b i (b.fail i (.entry o.name (.generate e)))
  | delivered {o : Options} {reading : Reading} {code text : List Char} {d : Disk} : requests[i]? = some o →
      b.progress[i]? = some (.compiled reading code) → o.deliver code b.disk = .ok (text, d) →
      Move requests b i { b.reach i (.finished reading) with disk := d, printed := b.printed ++ text }

section Steps

variable {b : Batch} {i : Nat} {o : Options} (ho : requests[i]? = some o)

include ho

theorem place_move (hp : b.progress[i]? = some .waiting) : Move requests b i (b.place i o) := by
  unfold place
  by_cases hoff : (b.canceled || b.failure.isSome) = true
  · rw [if_pos hoff]
    exact .halted ho hp (by simpa using hoff)
  · rw [if_neg hoff]
    obtain ⟨hcanceled, hfailure⟩ : b.canceled = false ∧ b.failure = none := by simpa using hoff
    by_cases hout : (o.output == "") = true
    · rw [if_pos hout]
      exact .placed ho hp hcanceled hfailure (by rw [Options.makeHome, if_pos hout])
    · rw [if_neg hout]
      have hhome := o.makeHome_eq (by simpa using hout) b.disk
      cases hmake : b.disk.makeDirs (parentPath o.output) with
      | error e => exact .unplaced ho hp hcanceled hfailure (hhome.trans hmake)
      | ok d => exact .placed ho hp hcanceled hfailure (hhome.trans hmake)

theorem compile_move (hp : b.progress[i]? = some .placed) : Move requests b i (b.compile i o) := by
  unfold compile
  cases hvalid : o.validate with
  | error e => exact .untranslated b.log ho hp (by rw [Options.code, hvalid])
  | ok u =>
    cases hrender : (Session.start o (Reading.ofPattern o.pattern)).render 1 with
    | error e =>
      dsimp only
      rw [hrender]
      exact .untranslated _ ho hp (by rw [Options.code, hvalid]; dsimp only; rw [hrender])
    | ok code =>
      dsimp only
      rw [hrender]
      exact .translated _ ho hp (by rw [Options.code, hvalid]; dsimp only; rw [hrender])

theorem deliver_move {reading : Reading} {code : List Char} (hp : b.progress[i]? = some (.compiled reading code)) :
    Move requests b i (b.deliver i o reading code) := by
  have hdeliver : (Session.start o reading).deliver code b.disk = o.deliver code b.disk := rfl
  unfold deliver
  rw [hdeliver]
  cases h : o.deliver code b.disk with
  | error e => exact .undelivered ho hp h
  | ok r => exact .delivered ho hp h

end Steps

theorem Move.idle_of_left {b : Batch} {i : Nat} {p : Progress} (hp : b.progress[i]? = some p) (h : p.left = 0) :
    Move requests b i b := by
  apply Move.idle
  intro _ p' _ hp'
  rw [hp, Option.some.injEq] at hp'
  rwa [← hp']

/-- **A step is one of the moves.** -/
theorem step_move (requests : List Options) (b : Batch) (i : Nat) : Move requests b i (step requests b i) := by
  unfold step
  cases ho : requests[i]? with
  | none =>
    apply Move.idle
    intro o p ho'
    rw [ho] at ho'
    exact absurd ho' (by simp)
  | some o =>
    cases hp : b.progress[i]? with
    | none =>
      apply Move.idle
      intro o p _ hp'
      rw [hp] at hp'
      exact absurd hp' (by simp)
    | some p =>
      cases p with
      | waiting => exact place_move ho hp
      | placed => exact compile_move ho hp
      | compiled reading code => exact deliver_move ho hp
      | finished reading => exact .idle_of_left hp rfl
      | stopped => exact .idle_of_left hp rfl

/-- what every move keeps, every run keeps -/
theorem run_moves {P : Batch → Prop} (hmove : ∀ {b i b'}, Move requests b i b' → P b → P b') {b : Batch} (h : P b)
    (schedule : List Nat) : P (b.run requests schedule) := by
  induction schedule generalizing b with
  | nil => exact h
  | cons i schedule ih => exact ih (hmove (step_move requests b i) h)

/-! ## Progress -/

/-- a move changes how far its own request has come, and comes closer to the end -/
theorem Move.progress {b b' : Batch} {i : Nat} (h : Move requests b i b') :
    b' = b ∧ (∀ o p, requests[i]? = some o → b.progress[i]? = some p → p.left = 0) ∨
      ∃ p p', b.progress[i]? = some p ∧ b'.progress = b.progress.set i p' ∧ p'.left < p.left := by
  cases h with
  | idle hleft => exact Or.inl ⟨rfl, hleft⟩
  | halted ho hp _ => exact Or.inr ⟨_, .stopped, hp, rfl, by decide⟩
  | unplaced ho hp _ _ _ => exact Or.inr ⟨_, .stopped, hp, rfl, by decide⟩
  | placed ho hp _ _ _ => exact Or.inr ⟨_, .placed, hp, rfl, by decide⟩
  | untranslated log ho hp _ => exact Or.inr ⟨_, .stopped, hp, rfl, by decide⟩
  | translated log ho hp _ => exact Or.inr ⟨_, .compiled _ _, hp, rfl, by simp [Progress.left]⟩
  | undelivered ho hp _ => exact Or.inr ⟨_, .stopped, hp, rfl, by simp [Progress.left]⟩
  | delivered ho hp _ => exact Or.inr ⟨_, .finished _, hp, rfl, by simp [Progress.left]⟩

theorem Move.length {b b' : Batch} {i : Nat} (h : Move requests b i b') : b'.progress.length = b.progress.length := by
  rcases h.progress with ⟨rfl, -⟩ | ⟨p, p', -, hset, -⟩
  · rfl
  · rw [hset, List.length_set]

/-- every request has come to its end -/
def Settled (b : Batch) : Prop := ∀ p ∈ b.progress, p.left = 0

/-- how many steps are left to a request -/
def leftAt (b : Batch) (i : Nat) : Nat := ((b.progress[i]?).map Progress.left).getD 0

theorem leftAt_le (b : Batch) (i : Nat) : b.leftAt i ≤ 3 := by
  unfold leftAt
  cases b.progress[i]? with
  | none => exact Nat.zero_le 3
  | some p => cases p <;> simp [Progress.left]

theorem settled_of_leftAt {b : Batch} (h : ∀ i < b.progress.length, b.leftAt i = 0) : Settled b := by
  intro p hp
  obtain ⟨i, hi, rfl⟩ := List.mem_iff_getElem.1 hp
  have hleft := h i hi
  rwa [leftAt, List.getElem?_eq_getElem hi] at hleft

theorem Move.leftAt {b b' : Batch} {i : Nat} (h : Move requests b i b') (hlength : b.progress.length = requests.length)
    (j : Nat) : b'.leftAt j ≤ b.leftAt j - [i].count j := by
  rcases h.progress with ⟨rfl, hidle⟩ | ⟨p, p', hp, hset, hless⟩
  · by_cases hj : i = j
    · subst hj
      suffices hzero : b'.leftAt i = 0 by rw [hzero]; exact Nat.zero_le _
      unfold Batch.leftAt
      cases hp : b'.progress[i]? with
      | none => rfl
      | some p =>
        obtain ⟨hi, -⟩ := List.getElem?_eq_some_iff.1 hp
        rw [hlength] at hi
        exact hidle _ p (List.getElem?_eq_getElem hi) hp
    · simp [hj]
  · unfold Batch.leftAt
    rw [hset]
    by_cases hj : i = j
    · subst hj
      obtain ⟨hi, -⟩ := List.getElem?_eq_some_iff.1 hp
      rw [List.getElem?_set_self hi, hp]
      simp only [Option.map_some, Option.getD_some, List.count_singleton_self]
      omega
    · simp [List.getElem?_set_ne hj, hj]

/-- a request has as many steps less left as the schedule names it -/
theorem leftAt_run {b : Batch} (hlength : b.progress.length = requests.length) (schedule : List Nat) (j : Nat) :
    (b.run requests schedule).leftAt j ≤ b.leftAt j - schedule.count j := by
  induction schedule generalizing b with
  | nil => exact Nat.le_refl _
  | cons i schedule ih =>
    have hmove := step_move requests b i
    calc ((step requests b i).run requests schedule).leftAt j
        ≤ (step requests b i).leftAt j - schedule.count j := ih (hmove.length.trans hlength)
      _ ≤ b.leftAt j - [i].count j - schedule.count j := Nat.sub_le_sub_right (hmove.leftAt hlength j) _
      _ = b.leftAt j - (i :: schedule).count j := by
        rw [Nat.sub_sub, ← List.count_append, List.singleton_append]

/-- **A schedule that names every request three times** leaves none unfinished. -/
theorem run_settled {b : Batch} (hlength : b.progress.length = requests.length) {schedule : List Nat}
    (h : ∀ i < requests.length, 3 ≤ schedule.count i) : Settled (b.run requests schedule) := by
  have hrun : (b.run requests schedule).progress.length = requests.length :=
    run_moves (fun hmove hb => hmove.length.trans hb) hlength schedule
  apply settled_of_leftAt
  intro i hi
  have hleft := leftAt_run hlength schedule i
  have hthree := h i (hrun ▸ hi)
  have hmost := b.leftAt_le i
  omega

theorem count_inOrder {n i : Nat} (h : i < n) : 3 ≤ (inOrder n).count i := by
  induction n with
  | zero => exact absurd h (Nat.not_lt_zero i)
  | succ n ih =>
    have hlast : inOrder (n + 1) = inOrder n ++ List.replicate 3 n := by simp [inOrder, List.range_succ]
    rw [hlast, List.count_append]
    rcases Nat.lt_succ_iff_lt_or_eq.1 h with h | rfl
    · exact (ih h).trans (Nat.le_add_right _ _)
    · rw [List.count_replicate_self]
      exact Nat.le_add_left _ _

theorem compileAll_settled (requests : List Options) (canceled : Bool) (d : Disk) :
    Settled (compileAll requests canceled d) := by
  apply run_settled
  · exact List.length_replicate
  · intro i hi
    exact count_inOrder hi

/-! ## What is true of each request -/

/-- something is true of every request and how far it has come -/
def Each (requests : List Options) (l : List Progress) (P : Options → Progress → Prop) : Prop :=
  ∀ (j : Nat) (o : Options) (p : Progress), requests[j]? = some o → l[j]? = some p → P o p

namespace Each

variable {l : List Progress} {P Q : Options → Progress → Prop}

theorem mono (h : Each requests l P) (hkeep : ∀ o p, P o p → Q o p) : Each requests l Q := by
  intro j o p ho hp
  exact hkeep o p (h j o p ho hp)

/-- one request moves on -/
theorem set (h : Each requests l P) {i : Nat} {o : Options} {p : Progress} (ho : requests[i]? = some o) (hp : P o p) :
    Each requests (l.set i p) P := by
  intro j o' p' ho' hp'
  by_cases hj : i = j
  · subst hj
    obtain ⟨hi, -⟩ := List.getElem?_eq_some_iff.1 hp'
    rw [List.length_set] at hi
    rw [List.getElem?_set_self hi, Option.some.injEq] at hp'
    rw [ho, Option.some.injEq] at ho'
    rwa [← hp', ← ho']
  · rw [List.getElem?_set_ne hj] at hp'
    exact h j o' p' ho' hp'

end Each

/-- a request holds the code of its own pattern, and is given up only after a failure -/
def Coherent (failed : Bool) (o : Options) : Progress → Prop
  | .waiting => True
  | .placed => True
  | .compiled reading code => reading = Reading.ofPattern o.pattern ∧ o.code = .ok code
  | .finished reading => reading = Reading.ofPattern o.pattern ∧ ∃ code, o.code = .ok code
  | .stopped => failed = true

theorem Coherent.failed {failed : Bool} {o : Options} {p : Progress} (h : Coherent failed o p) : Coherent true o p := by
  cases p with
  | stopped => rfl
  | waiting => trivial
  | placed => trivial
  | compiled reading code => exact h
  | finished reading => exact h

theorem isSome_fail (b : Batch) (i : Nat) (e : BatchError) : (b.fail i e).failure.isSome = true := by
  cases hfailure : b.failure <;> simp [fail, reach, hfailure]

/-- a failed move gives up its request -/
theorem fail_coherent {b : Batch} {i : Nat} {o : Options} (ho : requests[i]? = some o)
    (h : Each requests b.progress (Coherent b.failure.isSome)) (e : BatchError) :
    Each requests (b.fail i e).progress (Coherent (b.fail i e).failure.isSome) := by
  rw [isSome_fail]
  exact (h.mono fun o p hp => hp.failed).set ho rfl

theorem Move.coherent {b b' : Batch} {i : Nat} (h : Move requests b i b')
    (hb : Each requests b.progress (Coherent b.failure.isSome)) : Each requests b'.progress (Coherent b'.failure.isSome) := by
  cases h with
  | idle _ => exact hb
  | halted ho _ _ => exact fail_coherent ho hb _
  | unplaced ho _ _ _ _ => exact fail_coherent ho hb _
  | placed ho _ _ _ _ => exact hb.set ho trivial
  | untranslated log ho _ _ => exact fail_coherent (b := { b with log := log }) ho hb _
  | translated log ho _ hcode => exact hb.set ho ⟨rfl, hcode⟩
  | undelivered ho _ _ => exact fail_coherent ho hb _
  | delivered ho hp _ =>
    obtain ⟨hreading, hcode⟩ := hb i _ _ ho hp
    exact hb.set ho ⟨hreading, _, hcode⟩

theorem start_waiting {n : Nat} {canceled : Bool} {d : Disk} {j : Nat} {p : Progress}
    (h : (start n canceled d).progress[j]? = some p) : p = .waiting :=
  List.eq_of_mem_replicate (List.mem_of_getElem? h)

/-- the states of a batch, from its start -/
theorem run_coherent (requests : List Options) (canceled : Bool) (d : Disk) (schedule : List Nat) :
    let b := (start requests.length canceled d).run requests schedule
    Each requests b.progress (Coherent b.failure.isSome) := by
  apply run_moves (P := fun b => Each requests b.progress (Coherent b.failure.isSome)) Move.coherent
  intro j o p _ hp
  rw [start_waiting hp]
  trivial

theorem length_run (requests : List Options) (canceled : Bool) (d : Disk) (schedule : List Nat) :
    ((start requests.length canceled d).run requests schedule).progress.length = requests.length :=
  run_moves (P := fun b => b.progress.length = requests.length) (fun hmove hb => hmove.length.trans hb)
    List.length_replicate schedule

/-- a settled batch without a failure has finished every request -/
theorem finished_of_settled {b : Batch} (hcoherent : Each requests b.progress (Coherent b.failure.isSome))
    (hsettled : Settled b) (hfailure : b.failure = none) :
    Each requests b.progress fun o p => p = .finished (Reading.ofPattern o.pattern) ∧ ∃ code, o.code = .ok code := by
  intro j o p ho hp
  have hleft := hsettled p (List.mem_of_getElem? hp)
  have hfits := hcoherent j o p ho hp
  cases p with
  | waiting => exact absurd hleft (by decide)
  | placed => exact absurd hleft (by decide)
  | compiled reading code => exact absurd hleft Nat.one_ne_zero
  | finished reading => exact ⟨congrArg _ hfits.1, hfits.2⟩
  | stopped =>
    rw [hfailure] at hfits
    exact absurd hfits (by simp [Coherent])

/-- **The reports** of a settled batch without a failure: every request with the reading of its pattern. -/
theorem reports_of_settled {b : Batch} (hlength : b.progress.length = requests.length)
    (hcoherent : Each requests b.progress (Coherent b.failure.isSome)) (hsettled : Settled b) (hfailure : b.failure = none) :
    b.reports requests = .ok (requests.map fun o => ⟨o, Reading.ofPattern o.pattern⟩) := by
  have hprogress : b.progress = requests.map fun o => .finished (Reading.ofPattern o.pattern) := by
    apply List.ext_getElem?
    intro j
    rw [List.getElem?_map]
    cases ho : requests[j]? with
    | none => exact List.getElem?_eq_none (hlength.le.trans (List.getElem?_eq_none_iff.1 ho))
    | some o =>
      obtain ⟨hj, -⟩ := List.getElem?_eq_some_iff.1 ho
      have hp := List.getElem?_eq_getElem (hlength.symm ▸ hj : j < b.progress.length)
      rw [hp, (finished_of_settled hcoherent hsettled hfailure j o _ ho hp).1]
      rfl
  rw [reports, hfailure, hprogress]
  apply congrArg Except.ok
  clear hprogress hcoherent hlength
  induction requests with
  | nil => rfl
  | cons o requests ih =>
    rw [List.map_cons, List.map_cons, ← ih]
    rfl

/-! ## The files of a batch -/

variable {d : Disk}

/-- the output file of a request holds the code of a request with the same place -/
def Filled (requests : List Options) (d e : Disk) (o : Options) : Prop :=
  ∃ o' ∈ requests, d.placeOf o'.output = d.placeOf o.output ∧ e.Holds o.output o'

/-- a finished request has its file filled -/
def Done (requests : List Options) (d e : Disk) (o : Options) (p : Progress) : Prop :=
  ∀ reading, p = .finished reading → o.output ≠ "" → Filled requests d e o

/-- the files of finished requests are filled -/
structure Writes (requests : List Options) (d : Disk) (b : Batch) : Prop where
  coherent : Each requests b.progress (Coherent b.failure.isSome)
  cwd : b.disk.cwd = d.cwd
  done : Each requests b.progress (Done requests d b.disk)

theorem Filled.grown {e e' : Disk} {o : Options} (h : Filled requests d e o) (hgrown : e.Grown e') :
    Filled requests d e' o := by
  obtain ⟨o', ho', hplace, hholds⟩ := h
  obtain ⟨code, hcode, hread⟩ := Disk.holds_iff.1 hholds
  exact ⟨o', ho', hplace, Disk.holds_iff.2 ⟨code, hcode, hgrown.read hread⟩⟩

/-- a file stays filled when the code of a request is written somewhere -/
theorem Filled.setFile {e : Disk} {o w : Options} (h : Filled requests d e o) (hcwd : e.cwd = d.cwd) (hw : w ∈ requests)
    {code : List Char} (hcode : w.code = .ok code) :
    Filled requests d (e.setFile (e.placeOf w.output) (String.ofList code)) o := by
  obtain ⟨o', ho', hplace, hholds⟩ := h
  obtain ⟨code', hcode', hread⟩ := Disk.holds_iff.1 hholds
  have hread' := Disk.read_setFile hread (e.placeOf w.output) (String.ofList code)
  by_cases hsame : e.placeOf o.output = e.placeOf w.output
  · rw [if_pos hsame] at hread'
    have hplaces : d.placeOf w.output = d.placeOf o.output := by
      rw [Disk.placeOf_congr hcwd] at hsame
      exact (hsame.trans (Disk.placeOf_congr hcwd _)).symm
    exact ⟨w, hw, hplaces, Disk.holds_iff.2 ⟨code, hcode, hread'⟩⟩
  · rw [if_neg hsame] at hread'
    exact ⟨o', ho', hplace, Disk.holds_iff.2 ⟨code', hcode', hread'⟩⟩

/-- a request that is not finished yet has nothing to say about its file -/
theorem Writes.keep {b b' : Batch} {i : Nat} {o : Options} {p : Progress} (h : Writes requests d b)
    (hmove : Move requests b i b') (ho : requests[i]? = some o) (hset : b'.progress = b.progress.set i p)
    (hdisk : b.disk.Grown b'.disk) (hp : ∀ reading, p ≠ .finished reading) : Writes requests d b' := by
  refine ⟨hmove.coherent h.coherent, hdisk.cwd.trans h.cwd, ?_⟩
  have hdone : Each requests b.progress (Done requests d b'.disk) := by
    refine h.done.mono ?_
    intro o' p' hfilled reading heq hout
    exact (hfilled reading heq hout).grown hdisk
  rw [hset]
  refine hdone.set ho ?_
  intro reading heq
  exact absurd heq (hp reading)

/-- **A move keeps the files of finished requests filled.** -/
theorem Move.writes {b b' : Batch} {i : Nat} (hmove : Move requests b i b') (h : Writes requests d b) :
    Writes requests d b' := by
  have hself := Disk.Grown.refl b.disk
  cases hmove with
  | idle _ => exact h
  | halted ho hp hoff => exact h.keep (.halted ho hp hoff) ho rfl hself (by simp)
  | unplaced ho hp hcanceled hfailure hhome =>
    exact h.keep (.unplaced ho hp hcanceled hfailure hhome) ho rfl hself (by simp)
  | placed ho hp hcanceled hfailure hhome =>
    exact h.keep (.placed ho hp hcanceled hfailure hhome) ho rfl (Options.makeHome_grown hhome) (by simp)
  | untranslated log ho hp hcode => exact h.keep (.untranslated log ho hp hcode) ho rfl hself (by simp)
  | translated log ho hp hcode => exact h.keep (.translated log ho hp hcode) ho rfl hself (by simp)
  | undelivered ho hp hdeliver => exact h.keep (.undelivered ho hp hdeliver) ho rfl hself (by simp)
  | @delivered o reading code text e ho hp hdeliver =>
    have hcoherent := (Move.delivered ho hp hdeliver).coherent h.coherent
    have hcode : o.code = .ok code := (h.coherent i o _ ho hp).2
    have hmem : o ∈ requests := List.mem_of_getElem? ho
    by_cases hout : o.output = ""
    · have hsame : o.deliver code b.disk = .ok (code, b.disk) := by rw [Options.deliver_eq, if_pos (by simp [hout])]
      rw [hsame, Except.ok.injEq, Prod.mk.injEq] at hdeliver
      obtain ⟨-, rfl⟩ := hdeliver
      refine ⟨hcoherent, h.cwd, h.done.set ho ?_⟩
      intro _ _ hne
      exact absurd hout hne
    · obtain ⟨-, hwrite⟩ := (Options.deliver_eq_ok_iff hout code b.disk text e).1 hdeliver
      have hread := Disk.read_write hwrite
      obtain ⟨-, -, -, rfl⟩ := (Disk.write_eq_ok_iff b.disk o.output (String.ofList code) e).1 hwrite
      have hdone : Each requests b.progress
          (Done requests d (b.disk.setFile (b.disk.placeOf o.output) (String.ofList code))) := by
        refine h.done.mono ?_
        intro o' p' hfilled reading' heq hne
        exact (hfilled reading' heq hne).setFile h.cwd hmem hcode
      refine ⟨hcoherent, (Disk.setFile_cwd _ _ _).trans h.cwd, hdone.set ho ?_⟩
      intro _ _ _
      exact ⟨o, hmem, rfl, Disk.holds_iff.2 ⟨code, hcode, hread⟩⟩

/-- **The files of finished requests** are filled in every state of a batch. -/
theorem run_writes (requests : List Options) (canceled : Bool) (d : Disk) (schedule : List Nat) :
    Writes requests d ((start requests.length canceled d).run requests schedule) := by
  apply run_moves Move.writes
  refine ⟨run_coherent requests canceled d [], rfl, ?_⟩
  intro j o p _ hp reading heq
  rw [start_waiting hp] at heq
  exact absurd heq (by simp)

/-- nothing is printed for requests with output files -/
theorem Move.printed {b b' : Batch} {i : Nat} (hmove : Move requests b i b') (hout : ∀ o ∈ requests, o.output ≠ "")
    (h : b.printed = []) : b'.printed = [] := by
  cases hmove with
  | @delivered o reading code text e ho hp hdeliver =>
    obtain ⟨rfl, -⟩ := (Options.deliver_eq_ok_iff (hout o (List.mem_of_getElem? ho)) code b.disk text e).1 hdeliver
    exact (List.append_nil _).trans h
  | _ => exact h

/-- a way for a batch to come to its end without a failure -/
structure Ends (requests : List Options) (d : Disk) (b : Batch) : Prop where
  run : ∃ schedule, b = (start requests.length false d).run requests schedule
  settled : b.Settled
  failure : b.failure = none

namespace Ends

variable {b : Batch}

theorem reports (h : Ends requests d b) :
    b.reports requests = .ok (requests.map fun o => ⟨o, Reading.ofPattern o.pattern⟩) := by
  obtain ⟨schedule, rfl⟩ := h.run
  exact reports_of_settled (length_run requests false d schedule) (run_coherent requests false d schedule) h.settled
    h.failure

theorem finished (h : Ends requests d b) {i : Nat} {o : Options} (ho : requests[i]? = some o) :
    b.progress[i]? = some (.finished (Reading.ofPattern o.pattern)) := by
  obtain ⟨schedule, rfl⟩ := h.run
  obtain ⟨hi, -⟩ := List.getElem?_eq_some_iff.1 ho
  rw [← length_run requests false d schedule] at hi
  have hp := List.getElem?_eq_getElem hi
  rw [hp, (finished_of_settled (run_coherent requests false d schedule) h.settled h.failure i o _ ho hp).1]

/-- every output file is filled in the end -/
theorem filled (h : Ends requests d b) {o : Options} (ho : o ∈ requests) (hout : o.output ≠ "") :
    Filled requests d b.disk o := by
  obtain ⟨i, hi⟩ := List.mem_iff_getElem?.1 ho
  have hp := h.finished hi
  obtain ⟨schedule, rfl⟩ := h.run
  exact (run_writes requests false d schedule).done i o _ hi hp _ rfl hout

end Ends

end Batch

theorem compileAll_ends {requests : List Options} {d : Disk} (h : (compileAll requests false d).failure = none) :
    Batch.Ends requests d (compileAll requests false d) :=
  ⟨⟨_, rfl⟩, Batch.compileAll_settled _ _ _, h⟩

end MatcherGen
