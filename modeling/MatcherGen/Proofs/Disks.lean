/-
What the operations on the store do. An operation on a path depends on three things: whether the system can take the path at
all, whether every place on the way is a directory, and what stands at the place itself. Reading and writing are described for
any store; making directories for a store in which the directory above a directory is one.

Main statements:
- `Disk.resolve_eq_ok_iff`, `Disk.read_eq_ok_iff`, `Disk.write_eq_ok_iff`: when an operation succeeds, and with what;
- `Disk.makeDirs_grown`: making directories adds directories where nothing stands, and changes nothing else;
- `Disk.makeDirs_made`, `Disk.makeDirs_ok_iff`: on a path that climbs and then descends, it makes every directory down
  to the place, and it succeeds exactly if no file stands on the way.
-/
import MatcherGen.Proofs.Paths

namespace MatcherGen.Disk

/-! ## Working directories -/

/-- the place of a path depends on the working directory alone -/
theorem placeOf_congr {d d' : Disk} (h : d'.cwd = d.cwd) (path : String) : d'.placeOf path = d.placeOf path := by
  rw [placeOf, placeOf, origin, origin, h]

theorem passed_congr {d d' : Disk} (h : d'.cwd = d.cwd) (path : String) : d'.passed path = d.passed path := by
  rw [passed, passed, origin, origin, h]

/-! ## Walking -/

/-- the system can take the path -/
structure Sayable (path : String) : Prop where
  nonempty : path ≠ ""
  noNul : Char.ofNat 0 ∉ path.toList
  length : path.utf8ByteSize ≤ maxPathBytes
  names : ∀ n ∈ pathNames path, n.utf8ByteSize ≤ maxNameBytes

/-- one name that says something -/
theorem walk_cons_iff {name : String} (h : name ≠ "") (d : Disk) (p : Place) (r : List String) (q : Place) :
    d.walk p (name :: r) = .ok q ↔
      d.isDir p = true ∧ name.utf8ByteSize ≤ maxNameBytes ∧ d.walk (follow p [name]) r = .ok q := by
  cases hdir : d.isDir p with
  | false => simp [walk, h, hdir]
  | true =>
    rcases name_cases name with (rfl | rfl) | rfl | hstep
    · exact absurd rfl h
    · have hwalk : d.walk p ("." :: r) = d.walk p r := by simp [walk, hdir]
      rw [hwalk]
      exact ⟨fun hok => ⟨rfl, by decide +kernel, hok⟩, fun hok => hok.2.2⟩
    · have hwalk : d.walk p (".." :: r) = d.walk p.dropLast r := by simp [walk, hdir]
      rw [hwalk]
      exact ⟨fun hok => ⟨rfl, by decide +kernel, hok⟩, fun hok => hok.2.2⟩
    · rw [follow_cons_step hstep]
      by_cases hlong : maxNameBytes < name.utf8ByteSize
      · simp [walk, hdir, hstep.1, hstep.2.1, hstep.2.2, hlong, Nat.not_le.2 hlong]
      · simp [walk, hdir, hstep.1, hstep.2.1, hstep.2.2, hlong, Nat.not_lt.1 hlong, follow]

/-- **Walking** leads to the place of the names, if every place on the way is a directory and no name is too long. -/
theorem walk_eq_ok_iff (d : Disk) (p : Place) (names : List String) (q : Place) :
    d.walk p names = .ok q ↔
      q = follow p names ∧ (∀ r ∈ passes p names, d.isDir r = true) ∧ ∀ n ∈ names, n.utf8ByteSize ≤ maxNameBytes := by
  induction names generalizing p with
  | nil => exact ⟨fun h => ⟨(Except.ok.inj h).symm, by simp [passes], by simp⟩, fun h => by rw [h.1]; rfl⟩
  | cons name r ih =>
    rw [List.forall_mem_cons]
    by_cases hempty : name = ""
    · subst hempty
      have hwalk : d.walk p ("" :: r) = d.walk p r := rfl
      rw [hwalk, ih]
      have hshort : "".utf8ByteSize ≤ maxNameBytes := by decide +kernel
      constructor
      · rintro ⟨hplace, hway, hnames⟩
        exact ⟨hplace, hway, hshort, hnames⟩
      · rintro ⟨hplace, hway, -, hnames⟩
        exact ⟨hplace, hway, hnames⟩
    · rw [walk_cons_iff hempty, ih, passes_cons hempty, List.forall_mem_cons, ← follow_append, List.singleton_append]
      tauto

/-- the system can take the path, and every place on its way is a directory -/
structure Reached (d : Disk) (path : String) : Prop where
  sayable : Sayable path
  way : ∀ r ∈ d.passed path, d.isDir r = true

/-- **A path is resolved** to its place, if that is reached. -/
theorem resolve_eq_ok_iff (d : Disk) (path : String) (q : Place) :
    d.resolve path = .ok q ↔ d.Reached path ∧ q = d.placeOf path := by
  unfold resolve
  by_cases hempty : (path == "") = true
  · rw [if_pos hempty]
    exact ⟨fun h => absurd h (by simp), fun h => absurd (by simpa using hempty) h.1.sayable.nonempty⟩
  rw [if_neg hempty]
  by_cases hnul : path.toList.contains (Char.ofNat 0) = true
  · rw [if_pos hnul]
    exact ⟨fun h => absurd h (by simp), fun h => absurd (List.contains_iff_mem.1 hnul) h.1.sayable.noNul⟩
  rw [if_neg hnul]
  by_cases hlong : maxPathBytes < path.utf8ByteSize
  · rw [if_pos hlong]
    exact ⟨fun h => absurd h (by simp), fun h => absurd h.1.sayable.length (Nat.not_le.2 hlong)⟩
  rw [if_neg hlong]
  constructor
  · intro h
    obtain ⟨hplace, hway, hnames⟩ := (walk_eq_ok_iff d _ _ q).1 h
    have hsay : Sayable path :=
      ⟨by simpa using hempty, fun hmem => hnul (List.contains_iff_mem.2 hmem), Nat.not_lt.1 hlong, hnames⟩
    exact ⟨⟨hsay, hway⟩, hplace⟩
  · rintro ⟨hreached, hplace⟩
    exact (walk_eq_ok_iff d _ _ q).2 ⟨hplace, hreached.way, hreached.sayable.names⟩

theorem Reached.resolve {d : Disk} {path : String} (h : d.Reached path) : d.resolve path = .ok (d.placeOf path) :=
  (resolve_eq_ok_iff d path _).2 ⟨h, rfl⟩

/-- a path stays reached if the directories on its way stay -/
theorem Reached.mono {d d' : Disk} {path : String} (h : d.Reached path) (hcwd : d'.cwd = d.cwd)
    (hdirs : ∀ r ∈ d.passed path, d.isDir r = true → d'.isDir r = true) : d'.Reached path := by
  refine ⟨h.sayable, ?_⟩
  rw [passed_congr hcwd]
  intro r hr
  exact hdirs r hr (h.way r hr)

theorem resolve_error {d : Disk} {path : String} (h : ¬ d.Reached path) : ∃ e, d.resolve path = .error e := by
  cases hresolve : d.resolve path with
  | error e => exact ⟨e, rfl⟩
  | ok q => exact absurd ((resolve_eq_ok_iff d path q).1 hresolve).1 h

/-! ## Files -/

theorem isDir_iff (d : Disk) (p : Place) : d.isDir p = true ↔ p = [] ∨ p ∈ d.dirs := by
  simp [isDir, List.isEmpty_iff]

theorem content?_congr {d d' : Disk} (h : d'.files = d.files) (p : Place) : d'.content? p = d.content? p := by
  rw [content?, content?, h]

/-- **What is at a place after a file is put**: the file there, the same elsewhere. -/
theorem content?_setFile (d : Disk) (p q : Place) (text : String) :
    (d.setFile p text).content? q = if q = p then some text else d.content? q := by
  cases hthere : d.content? p with
  | none =>
    have hset : d.setFile p text = { d with files := d.files ++ [(p, text)] } := by simp [setFile, hthere]
    rw [hset, content?, List.find?_append]
    by_cases hq : q = p
    · subst hq
      have hfind : d.files.find? (fun f => f.1 == q) = none := Option.map_eq_none_iff.1 hthere
      simp [hfind]
    · have hne : (p == q) = false := beq_eq_false_iff_ne.2 (Ne.symm hq)
      simp [hq, hne, content?]
  | some old =>
    let put : Place × String → Place × String := fun f => if f.1 == p then (p, text) else f
    have hset : d.setFile p text = { d with files := d.files.map put } := by simp [setFile, hthere, put]
    have hkey : ((fun f : Place × String => f.1 == q) ∘ put) = fun f => f.1 == q := by
      funext f
      by_cases hf : f.1 = p
      · simp [put, hf]
      · simp [put, hf]
    have hfind : (d.setFile p text).content? q = ((d.files.find? fun f => f.1 == q).map put).map Prod.snd := by
      rw [hset, content?, List.find?_map, hkey]
    rw [hfind]
    by_cases hq : q = p
    · subst hq
      obtain ⟨f, hf, -⟩ := Option.map_eq_some_iff.1 hthere
      have hfkey : f.1 = q := by simpa using List.find?_some hf
      simp [hf, put, hfkey]
    · rw [if_neg hq, content?]
      cases hf : d.files.find? fun f => f.1 == q with
      | none => rfl
      | some f =>
        have hfkey : f.1 = q := by simpa using List.find?_some hf
        have hne : f.1 ≠ p := fun heq => hq (hfkey.symm.trans heq)
        simp [put, hne]

@[simp] theorem setFile_dirs (d : Disk) (p : Place) (text : String) : (d.setFile p text).dirs = d.dirs := by
  unfold setFile
  split_ifs <;> rfl

@[simp] theorem setFile_cwd (d : Disk) (p : Place) (text : String) : (d.setFile p text).cwd = d.cwd := by
  unfold setFile
  split_ifs <;> rfl

@[simp] theorem isDir_setFile (d : Disk) (p q : Place) (text : String) : (d.setFile p text).isDir q = d.isDir q := by
  rw [isDir, isDir, setFile_dirs]

/-- **Reading** gives what is at the place, if a file is there and the path may name one. -/
theorem read_eq_ok_iff (d : Disk) (path text : String) :
    d.read path = .ok text ↔
      d.Reached path ∧ d.isDir (d.placeOf path) = false ∧ d.content? (d.placeOf path) = some text ∧
        namesDirectory path = false := by
  by_cases hreached : d.Reached path
  · have hresolve := hreached.resolve
    cases hdir : d.isDir (d.placeOf path) with
    | true => simp [read, stat, hresolve, hdir]
    | false =>
      cases hthere : d.content? (d.placeOf path) with
      | none => simp [read, stat, hresolve, hdir, hthere]
      | some c =>
        cases hname : namesDirectory path with
        | true => simp [read, stat, hresolve, hdir, hthere, hname]
        | false => simp [read, stat, hresolve, hdir, hthere, hname, hreached]
  · obtain ⟨e, he⟩ := resolve_error hreached
    simp [read, stat, he, hreached]

/-- the place above a path that may name a file is on the way -/
theorem parent_mem_passed {d : Disk} {path : String} (h : namesDirectory path = false) :
    (d.placeOf path).dropLast ∈ d.passed path := by
  obtain ⟨init, last, hnames, -⟩ := d.parentPath_place path
  have hstep : IsStep last := by
    by_contra hlast
    rw [(namesDirectory_eq hnames).2 hlast] at h
    exact absurd h (by simp)
  rw [placeOf, passed, hnames, follow_append, passes_append, follow_cons_step hstep, passes_cons hstep.1]
  change (follow (d.origin path) init ++ [last]).dropLast ∈ _
  rw [List.dropLast_concat]
  exact List.mem_append_right _ List.mem_cons_self

/-- **Writing** puts the file at the place, if that is reached and no directory, and the path may name a file. -/
theorem write_eq_ok_iff (d : Disk) (path text : String) (d' : Disk) :
    d.write path text = .ok d' ↔
      d.Reached path ∧ d.isDir (d.placeOf path) = false ∧ namesDirectory path = false ∧
        d' = d.setFile (d.placeOf path) text := by
  by_cases hreached : d.Reached path
  · simp only [write, hreached.resolve]
    cases hdir : d.isDir (d.placeOf path) with
    | true => simp
    | false =>
      cases hname : namesDirectory path with
      | true =>
        simp only [Bool.false_eq_true, if_false, if_true, Bool.true_eq_false, false_and, and_false, iff_false]
        split_ifs <;> simp
      | false =>
        have habove : d.isDir (d.placeOf path).dropLast = true := hreached.way _ (parent_mem_passed hname)
        simp only [Bool.false_eq_true, if_false, habove, Bool.not_true, ite_self, Except.ok.injEq, true_and]
        exact ⟨fun h => ⟨hreached, h.symm⟩, fun h => h.2.symm⟩
  · obtain ⟨e, he⟩ := resolve_error hreached
    simp [write, he, hreached]

theorem write_ok_iff (d : Disk) (path text : String) :
    (∃ d', d.write path text = .ok d') ↔
      d.Reached path ∧ d.isDir (d.placeOf path) = false ∧ namesDirectory path = false := by
  simp only [write_eq_ok_iff]
  constructor
  · rintro ⟨d', hreached, hdir, hname, -⟩
    exact ⟨hreached, hdir, hname⟩
  · rintro ⟨hreached, hdir, hname⟩
    exact ⟨_, hreached, hdir, hname, rfl⟩

@[simp] theorem placeOf_setFile (d : Disk) (p : Place) (text path : String) :
    (d.setFile p text).placeOf path = d.placeOf path :=
  placeOf_congr (setFile_cwd d p text) path

theorem reached_setFile (d : Disk) (p : Place) (text path : String) :
    (d.setFile p text).Reached path ↔ d.Reached path := by
  constructor
  · intro h
    apply h.mono (setFile_cwd d p text).symm
    intro r _ hr
    rwa [isDir_setFile] at hr
  · intro h
    apply h.mono (setFile_cwd d p text)
    intro r _ hr
    rwa [isDir_setFile]

/-- what is read at a path after a file is put somewhere -/
theorem read_setFile {d : Disk} {path old : String} (h : d.read path = .ok old) (p : Place) (text : String) :
    (d.setFile p text).read path = .ok (if d.placeOf path = p then text else old) := by
  obtain ⟨hreached, hdir, hthere, hname⟩ := (read_eq_ok_iff d path old).1 h
  rw [read_eq_ok_iff, reached_setFile, isDir_setFile, placeOf_setFile, content?_setFile]
  refine ⟨hreached, hdir, ?_, hname⟩
  split_ifs
  · rfl
  · exact hthere

/-- what was written is read back -/
theorem read_write {d d' : Disk} {path text : String} (h : d.write path text = .ok d') : d'.read path = .ok text := by
  obtain ⟨hreached, hdir, hname, rfl⟩ := (write_eq_ok_iff d path text d').1 h
  rw [read_eq_ok_iff, reached_setFile, isDir_setFile, placeOf_setFile, content?_setFile, if_pos rfl]
  exact ⟨hreached, hdir, rfl, hname⟩

/-! ## Growth -/

/-- a store with directories added where nothing stood, and all else as before -/
structure Grown (d d' : Disk) : Prop where
  cwd : d'.cwd = d.cwd
  files : d'.files = d.files
  dirs : ∀ p, d.isDir p = true → d'.isDir p = true
  fresh : ∀ p, d'.isDir p = true → d.isDir p = true ∨ d.content? p = none

namespace Grown

theorem refl (d : Disk) : Grown d d := ⟨rfl, rfl, fun _ h => h, fun _ h => Or.inl h⟩

theorem trans {d d' d'' : Disk} (h : Grown d d') (h' : Grown d' d'') : Grown d d'' := by
  refine ⟨h'.cwd.trans h.cwd, h'.files.trans h.files, fun p hp => h'.dirs p (h.dirs p hp), fun p hp => ?_⟩
  rcases h'.fresh p hp with hp | hp
  · exact h.fresh p hp
  · exact Or.inr ((content?_congr h.files p).symm.trans hp)

/-- a file can still be read -/
theorem read {d d' : Disk} (h : Grown d d') {path text : String} (hread : d.read path = .ok text) :
    d'.read path = .ok text := by
  obtain ⟨hreached, hdir, hthere, hname⟩ := (read_eq_ok_iff d path text).1 hread
  rw [read_eq_ok_iff, placeOf_congr h.cwd, content?_congr h.files]
  refine ⟨hreached.mono h.cwd fun r _ => h.dirs r, ?_, hthere, hname⟩
  rw [Bool.eq_false_iff]
  intro hdir'
  rcases h.fresh _ hdir' with hold | hnone
  · simp [hdir] at hold
  · simp [hthere] at hnone

end Grown

/-- making one directory -/
theorem makeDir_eq_ok_iff (d : Disk) (path : String) (d' : Disk) :
    d.makeDir path = .ok d' ↔
      d.Reached path ∧ d.isDir (d.placeOf path) = false ∧ d.content? (d.placeOf path) = none ∧
        d' = { d with dirs := d.dirs ++ [d.placeOf path] } := by
  by_cases hreached : d.Reached path
  · simp only [makeDir, hreached.resolve]
    cases hdir : d.isDir (d.placeOf path) with
    | true => simp
    | false =>
      cases hthere : d.content? (d.placeOf path) with
      | some c => simp
      | none =>
        simp only [Option.isSome_none, Bool.or_self, Bool.false_eq_true, if_false, Except.ok.injEq, true_and]
        exact ⟨fun h => ⟨hreached, h.symm⟩, fun h => h.2.symm⟩
  · obtain ⟨e, he⟩ := resolve_error hreached
    simp [makeDir, he, hreached]

theorem isDir_append_dir (d : Disk) (p q : Place) :
    ({ d with dirs := d.dirs ++ [p] } : Disk).isDir q = true ↔ d.isDir q = true ∨ q = p := by
  rw [isDir_iff, isDir_iff, List.mem_append, List.mem_singleton]
  tauto

theorem makeDir_grown {d d' : Disk} {path : String} (h : d.makeDir path = .ok d') : Grown d d' := by
  obtain ⟨-, -, hnone, rfl⟩ := (makeDir_eq_ok_iff d path d').1 h
  refine ⟨rfl, rfl, fun p hp => (isDir_append_dir d _ p).2 (Or.inl hp), fun p hp => ?_⟩
  rcases (isDir_append_dir d _ p).1 hp with hp | rfl
  · exact Or.inl hp
  · exact Or.inr hnone

theorem makeLast_grown {d d' : Disk} {path : String} (h : d.makeLast path = .ok d') : Grown d d' := by
  unfold makeLast at h
  split at h
  · rename_i d₁ hmake
    rw [← Except.ok.inj h]
    exact makeDir_grown hmake
  · split at h
    · rw [← Except.ok.inj h]
      exact .refl d
    · exact absurd h (by simp)

theorem makeDirsAt_grown {n : Nat} {d d' : Disk} {path : String} (h : makeDirsAt n d path = .ok d') : Grown d d' := by
  fun_induction makeDirsAt n d path generalizing d' with
  | case1 n path hthere => exact Except.ok.inj h ▸ .refl d
  | case2 n path c hfile => exact absurd h (by simp)
  | case3 path e hmissing => exact makeLast_grown h
  | case4 path e hmissing n hupper => exact makeLast_grown h
  | case5 path e hmissing n hupper e' habove ih => exact absurd h (by simp)
  | case6 path e hmissing n hupper d₁ habove ih => exact (ih habove).trans (makeLast_grown h)

/-- **Making directories** adds directories where nothing stands, and changes nothing else. -/
theorem makeDirs_grown {d d' : Disk} {path : String} (h : d.makeDirs path = .ok d') : Grown d d' := makeDirsAt_grown h

/-! ## Sound stores -/

/-- the working directory is a directory, and so is what stands above a directory -/
structure Sound (d : Disk) : Prop where
  cwd : d.isDir d.cwd = true
  parent : ∀ p, d.isDir p = true → d.isDir p.dropLast = true

namespace Sound

variable {d : Disk}

theorem of_dirs (hcwd : d.isDir d.cwd = true) (hdirs : ∀ p ∈ d.dirs, d.isDir p.dropLast = true) : Sound d := by
  refine ⟨hcwd, ?_⟩
  intro p hp
  rcases (isDir_iff d p).1 hp with rfl | hp
  · rfl
  · exact hdirs p hp

/-- all places above a directory are directories -/
theorem above (h : Sound d) {p : Place} (hp : d.isDir p = true) {r : Place} (hr : r <+: p) : d.isDir r = true := by
  induction p using List.reverseRecOn with
  | nil => rwa [List.prefix_nil.1 hr]
  | append_singleton p name ih =>
    rcases List.prefix_concat_iff.1 hr with rfl | hr
    · exact hp
    · have hparent := h.parent _ hp
      rw [List.dropLast_concat] at hparent
      exact ih hparent hr

theorem origin (h : Sound d) (path : String) : d.isDir (d.origin path) = true := by
  unfold Disk.origin
  split_ifs
  · rfl
  · exact h.cwd

/-- climbing from a directory passes through directories and ends at one -/
theorem climb (h : Sound d) {ups : List String} (hups : ∀ n ∈ ups, n = "." ∨ n = "..") {p : Place} (hp : d.isDir p = true) :
    (∀ r ∈ passes p ups, d.isDir r = true) ∧ d.isDir (follow p ups) = true := by
  induction ups generalizing p with
  | nil => exact ⟨by simp [passes], hp⟩
  | cons name ups ih =>
    obtain ⟨hname, hups⟩ := List.forall_mem_cons.1 hups
    have hne : name ≠ "" := by rcases hname with rfl | rfl <;> decide
    have hnext : d.isDir (follow p [name]) = true := by
      rcases hname with rfl | rfl
      · exact hp
      · exact h.parent p hp
    obtain ⟨hpassed, hend⟩ := ih hups hnext
    rw [← follow_append, List.singleton_append] at hend
    rw [passes_cons hne, List.forall_mem_cons]
    exact ⟨⟨hp, hpassed⟩, hend⟩

/-- a way that climbs and then descends passes through directories if the place above its end is one -/
theorem passes_iff (h : Sound d) {p : Place} (hp : d.isDir p = true) {names : List String} (hdirect : Direct names) :
    (∀ r ∈ passes p names, d.isDir r = true) ↔ d.isDir (follow p names).dropLast = true := by
  obtain ⟨ups, steps, rfl, hups, hsteps⟩ := hdirect
  obtain ⟨hpassed, htop⟩ := h.climb hups hp
  rw [passes_append, List.forall_mem_append, follow_append, follow_steps hsteps]
  rcases List.eq_nil_or_concat' steps with rfl | ⟨init, name, rfl⟩
  · rw [List.append_nil]
    exact ⟨fun _ => h.parent _ htop, fun _ => ⟨hpassed, by simp [passes]⟩⟩
  · obtain ⟨hinit, hname⟩ := List.forall_mem_append.1 hsteps
    have hne : name ≠ "" := (hname name (List.mem_singleton_self name)).1
    rw [passes_append, follow_steps hinit, passes_cons hne, ← List.append_assoc, List.dropLast_concat]
    constructor
    · rintro ⟨-, hdown⟩
      exact hdown _ (List.mem_append_right _ List.mem_cons_self)
    · intro hlast
      refine ⟨hpassed, fun r hr => ?_⟩
      rcases List.mem_append.1 hr with hr | hr
      · exact h.above hlast (passes_steps hinit hr)
      · simp only [passes, List.mem_singleton] at hr
        rwa [hr]

end Sound

/-- the place of a path, by the names that say something -/
theorem placeOf_significant (d : Disk) (path : String) : d.placeOf path = follow (d.origin path) (significant path) :=
  (follow_significant _ _).symm

/-- **A path that climbs and then descends** is reached if the place above its end is a directory. -/
theorem Sound.reached_iff {d : Disk} (h : Sound d) {path : String} (hdirect : Direct (significant path)) :
    d.Reached path ↔ Sayable path ∧ d.isDir (d.placeOf path).dropLast = true := by
  have hway := h.passes_iff (h.origin path) hdirect
  rw [significant, passes_significant, follow_significant] at hway
  exact ⟨fun hreached => ⟨hreached.sayable, hway.1 hreached.way⟩, fun hboth => ⟨hboth.1, hway.2 hboth.2⟩⟩

/-! ## Making directories -/

/-- a store with every directory down to a place, and all else as before -/
structure Made (d : Disk) (q : Place) (d' : Disk) : Prop where
  cwd : d'.cwd = d.cwd
  files : d'.files = d.files
  isDir : ∀ r, d'.isDir r = true ↔ d.isDir r = true ∨ r <+: q

/-- no file stands on the way down to a place -/
def Clear (d : Disk) (q : Place) : Prop := ∀ r, r <+: q → d.isDir r = true ∨ d.content? r = none

theorem Made.sound {d d' : Disk} {q : Place} (h : Made d q d') (hsound : Sound d) : Sound d' := by
  refine ⟨(h.isDir _).2 (Or.inl ?_), fun p hp => (h.isDir _).2 ?_⟩
  · rw [h.cwd]
    exact hsound.cwd
  · rcases (h.isDir p).1 hp with hp | hp
    · exact Or.inl (hsound.parent p hp)
    · exact Or.inr ((List.dropLast_prefix p).trans hp)

/-- where a directory is, there is nothing to make and nothing in the way -/
theorem Sound.made_self {d : Disk} (h : Sound d) {q : Place} (hq : d.isDir q = true) : Clear d q ∧ Made d q d :=
  ⟨fun _ hr => Or.inl (h.above hq hr), rfl, rfl, fun _ => ⟨Or.inl, fun hr => hr.elim id (h.above hq)⟩⟩

/-- what stands at a path is a directory -/
theorem stat_eq_ok_none_iff (d : Disk) (path : String) :
    d.stat path = .ok none ↔ d.Reached path ∧ d.isDir (d.placeOf path) = true := by
  by_cases hreached : d.Reached path
  · have hresolve := hreached.resolve
    cases hdir : d.isDir (d.placeOf path) with
    | true => simp [stat, hresolve, hdir, hreached]
    | false =>
      cases hthere : d.content? (d.placeOf path) with
      | none => simp [stat, hresolve, hdir, hthere]
      | some c => cases hname : namesDirectory path <;> simp [stat, hresolve, hdir, hthere, hname]
  · obtain ⟨e, he⟩ := resolve_error hreached
    simp [stat, he, hreached]

/-- nothing stands at a path -/
theorem stat_error {d : Disk} {path : String} (hdir : d.isDir (d.placeOf path) = false)
    (hnone : d.content? (d.placeOf path) = none) : ∃ e, d.stat path = .error e := by
  by_cases hreached : d.Reached path
  · exact ⟨.notFound, by simp [stat, hreached.resolve, hdir, hnone]⟩
  · obtain ⟨e, he⟩ := resolve_error hreached
    exact ⟨e, by rw [stat, he]⟩

/-- the place above a path of one name is a directory -/
theorem Sound.above_lone_name {d : Disk} (h : Sound d) {path : String} (hupper : upperPart path = "") :
    d.isDir (d.placeOf path).dropLast = true := by
  have horigin := h.origin path
  rw [placeOf_significant]
  rcases upperPart_eq_empty hupper with hnone | ⟨-, name, hname⟩
  · rw [hnone]
    exact h.parent _ horigin
  · rw [hname]
    rcases name_cases name with (rfl | rfl) | rfl | hstep
    · exact h.parent _ horigin
    · exact h.parent _ horigin
    · exact h.parent _ (h.parent _ horigin)
    · rw [follow_cons_step hstep, follow, List.dropLast_concat]
      exact horigin

section Direct

variable {d : Disk} {path : String} (hsound : Sound d) (hdirect : Direct (significant path))

include hsound hdirect

theorem makeLast_made {d' : Disk} (h : d.makeLast path = .ok d') :
    Sayable path ∧ Clear d (d.placeOf path) ∧ Made d (d.placeOf path) d' := by
  unfold makeLast at h
  split at h
  · rename_i d₁ hmake
    obtain rfl := Except.ok.inj h
    obtain ⟨hreached, hdir, hnone, rfl⟩ := (makeDir_eq_ok_iff d path d₁).1 hmake
    obtain ⟨hsay, habove⟩ := (hsound.reached_iff hdirect).1 hreached
    refine ⟨hsay, fun r hr => ?_, rfl, rfl, fun r => ?_⟩
    · rcases prefix_iff_dropLast.1 hr with rfl | hr
      · exact Or.inr hnone
      · exact Or.inl (hsound.above habove hr)
    · rw [isDir_append_dir, prefix_iff_dropLast]
      exact ⟨fun hr => hr.imp id Or.inl, fun hr => hr.elim Or.inl fun hr => hr.symm.imp (hsound.above habove) id⟩
  · split at h
    · rename_i hthere
      obtain rfl := Except.ok.inj h
      obtain ⟨hreached, hdir⟩ := (stat_eq_ok_none_iff d path).1 hthere
      exact ⟨hreached.sayable, hsound.made_self hdir⟩
    · exact absurd h (by simp)

theorem makeLast_ok (hsay : Sayable path) (habove : d.isDir (d.placeOf path).dropLast = true)
    (hclear : d.isDir (d.placeOf path) = true ∨ d.content? (d.placeOf path) = none) :
    ∃ d', d.makeLast path = .ok d' := by
  have hreached := (hsound.reached_iff hdirect).2 ⟨hsay, habove⟩
  unfold makeLast
  cases hmake : d.makeDir path with
  | ok d₁ => exact ⟨d₁, rfl⟩
  | error e =>
    cases hdir : d.isDir (d.placeOf path) with
    | true => exact ⟨d, by rw [(stat_eq_ok_none_iff d path).2 ⟨hreached, hdir⟩]⟩
    | false =>
      have hnone := hclear.resolve_left (by simp [hdir])
      have hok := (makeDir_eq_ok_iff d path _).2 ⟨hreached, hdir, hnone, rfl⟩
      exact absurd (hok.symm.trans hmake) (by simp)

/-- the place of the upper part is above the place, unless both are climbed to -/
theorem upperPart_place (hupper : upperPart path ≠ "") :
    d.placeOf (upperPart path) = (d.placeOf path).dropLast ∨
      d.isDir (d.placeOf path) = true ∧ d.isDir (d.placeOf (upperPart path)) = true := by
  have horigin : d.origin (upperPart path) = d.origin path := by rw [origin, origin, isRooted_upperPart hupper]
  rw [placeOf_significant, placeOf_significant, significant_upperPart, horigin]
  obtain ⟨ups, steps, hnames, hups, hsteps⟩ := hdirect
  rw [hnames]
  rcases List.eq_nil_or_concat' steps with rfl | ⟨init, name, rfl⟩
  · right
    rw [List.append_nil]
    have hdrop : ∀ n ∈ ups.dropLast, n = "." ∨ n = ".." := fun n hn => hups n (List.dropLast_subset ups hn)
    exact ⟨(hsound.climb hups (hsound.origin path)).2, (hsound.climb hdrop (hsound.origin path)).2⟩
  · left
    have hinit : ∀ n ∈ init, IsStep n := fun n hn => hsteps n (List.mem_append_left _ hn)
    rw [← List.append_assoc, List.dropLast_concat, List.append_assoc, follow_append, follow_append, follow_steps hsteps,
      follow_steps hinit, ← List.append_assoc, List.dropLast_concat]

/-- what is above the upper part is above the path, or was there -/
theorem upperPart_above (hupper : upperPart path ≠ "") {r : Place} (hr : r <+: d.placeOf (upperPart path)) :
    d.isDir r = true ∨ r <+: d.placeOf path := by
  rcases upperPart_place hsound hdirect hupper with hplace | ⟨-, hdir⟩
  · rw [hplace] at hr
    exact Or.inr (hr.trans (List.dropLast_prefix _))
  · exact Or.inl (hsound.above hdir hr)

end Direct

theorem direct_upperPart {path : String} (h : Direct (significant path)) : Direct (significant (upperPart path)) := by
  rw [significant_upperPart]
  exact h.dropLast

/-- **What making directories leaves**: every directory down to the place; no file stood on the way. -/
theorem makeDirsAt_made {n : Nat} {d d' : Disk} {path : String} (hsound : Sound d) (hdirect : Direct (significant path))
    (h : makeDirsAt n d path = .ok d') : Sayable path ∧ Clear d (d.placeOf path) ∧ Made d (d.placeOf path) d' := by
  fun_induction makeDirsAt n d path generalizing d' with
  | case1 n path hthere =>
    obtain ⟨hreached, hdir⟩ := (stat_eq_ok_none_iff d path).1 hthere
    exact ⟨hreached.sayable, Except.ok.inj h ▸ hsound.made_self hdir⟩
  | case2 n path c hfile => exact absurd h (by simp)
  | case3 path e hmissing => exact makeLast_made hsound hdirect h
  | case4 path e hmissing n hupper => exact makeLast_made hsound hdirect h
  | case5 path e hmissing n hupper e' habove ih => exact absurd h (by simp)
  | case6 path e hmissing n hupper d₁ habove ih =>
    have hne : upperPart path ≠ "" := by simpa using hupper
    obtain ⟨-, hclear, hmade⟩ := ih (direct_upperPart hdirect) habove
    obtain ⟨hsay, hclear', hmade'⟩ := makeLast_made (hmade.sound hsound) hdirect h
    rw [placeOf_congr hmade.cwd] at hclear' hmade'
    refine ⟨hsay, fun r hr => ?_, hmade'.cwd.trans hmade.cwd, hmade'.files.trans hmade.files, fun r => ?_⟩
    · rcases hclear' r hr with hdir | hnone
      · exact ((hmade.isDir r).1 hdir).elim Or.inl (hclear r)
      · exact Or.inr ((content?_congr hmade.files r).symm.trans hnone)
    · rw [hmade'.isDir, hmade.isDir]
      constructor
      · rintro ((hdir | hr) | hr)
        · exact Or.inl hdir
        · exact upperPart_above hsound hdirect hne hr
        · exact Or.inr hr
      · exact fun hr => hr.imp Or.inl id

theorem Sayable.upperPart {path : String} (h : Sayable path) (hne : Disk.upperPart path ≠ "") :
    Sayable (Disk.upperPart path) := by
  obtain ⟨rest, hrest⟩ := upperPart_prefix path
  refine ⟨hne, fun hmem => h.noNul (hrest ▸ List.mem_append_left rest hmem), ?_, fun n hn => ?_⟩
  · have hsize : path.utf8ByteSize = (Disk.upperPart path).utf8ByteSize + (String.ofList rest).utf8ByteSize := by
      rw [← String.utf8ByteSize_append, ← String.ofList_toList (s := Disk.upperPart path), ← String.ofList_append,
        hrest, String.ofList_toList]
    exact (Nat.le_add_right _ _).trans (hsize.symm.le.trans h.length)
  · by_cases hempty : n = ""
    · rw [hempty]
      decide +kernel
    · have hsig : n ∈ significant (Disk.upperPart path) := by simp [significant, hn, hempty]
      rw [significant_upperPart] at hsig
      exact h.names n (List.mem_of_mem_filter (List.dropLast_subset _ hsig))

/-- making directories succeeds if no file stands on the way -/
theorem makeDirsAt_ok {n : Nat} {d : Disk} {path : String} (hsound : Sound d) (hdirect : Direct (significant path))
    (hn : path.length ≤ n) (hsay : Sayable path) (hclear : Clear d (d.placeOf path)) :
    ∃ d', makeDirsAt n d path = .ok d' := by
  induction n generalizing path with
  | zero =>
    have hlength := upperPart_lt hsay.nonempty
    omega
  | succ n ih =>
    cases hdir : d.isDir (d.placeOf path) with
    | true =>
      have hreached := (hsound.reached_iff hdirect).2 ⟨hsay, hsound.parent _ hdir⟩
      exact ⟨d, by rw [makeDirsAt, (stat_eq_ok_none_iff d path).2 ⟨hreached, hdir⟩]⟩
    | false =>
      have hnone := (hclear _ List.prefix_rfl).resolve_left (by simp [hdir])
      obtain ⟨e, hmissing⟩ := stat_error hdir hnone
      rw [makeDirsAt, hmissing]
      dsimp only
      by_cases hupper : upperPart path = ""
      · rw [if_pos (by simp [hupper])]
        exact makeLast_ok hsound hdirect hsay (hsound.above_lone_name hupper) (Or.inr hnone)
      · rw [if_neg (by simp [hupper])]
        have hplace := (upperPart_place hsound hdirect hupper).resolve_right fun h => by simp [hdir] at h
        have hclear' : Clear d (d.placeOf (upperPart path)) := by
          intro r hr
          rw [hplace] at hr
          exact hclear r (hr.trans (List.dropLast_prefix _))
        have hlength := upperPart_lt hsay.nonempty
        obtain ⟨d₁, hd₁⟩ := ih (direct_upperPart hdirect) (by omega) (hsay.upperPart hupper) hclear'
        obtain ⟨-, -, hmade⟩ := makeDirsAt_made hsound (direct_upperPart hdirect) hd₁
        rw [hd₁]
        apply makeLast_ok (hmade.sound hsound) hdirect hsay
        · rw [placeOf_congr hmade.cwd, ← hplace]
          exact (hmade.isDir _).2 (Or.inr List.prefix_rfl)
        · rw [content?_congr hmade.files, placeOf_congr hmade.cwd]
          exact Or.inr hnone

/-- **What making directories leaves**: every directory down to the place. -/
theorem makeDirs_made {d d' : Disk} {path : String} (hsound : Sound d) (hdirect : Direct (significant path))
    (h : d.makeDirs path = .ok d') : Made d (d.placeOf path) d' :=
  (makeDirsAt_made hsound hdirect h).2.2

/-- **When making directories succeeds**: the system can take the path, and no file stands on the way. -/
theorem makeDirs_ok_iff {d : Disk} {path : String} (hsound : Sound d) (hdirect : Direct (significant path)) :
    (∃ d', d.makeDirs path = .ok d') ↔ Sayable path ∧ Clear d (d.placeOf path) := by
  constructor
  · rintro ⟨d', h⟩
    obtain ⟨hsay, hclear, -⟩ := makeDirsAt_made hsound hdirect h
    exact ⟨hsay, hclear⟩
  · rintro ⟨hsay, hclear⟩
    exact makeDirsAt_ok hsound hdirect le_rfl hsay hclear

end MatcherGen.Disk
