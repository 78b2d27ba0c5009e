/-
Runs on manifests that are refused. Everything that can be wrong with the arguments, the globs and the manifests is looked at
before the first directory is made: one fault, wherever it stands, refuses the run, and nothing is printed or written.

Main statements:
- `readArguments_given`: only flags that exist are given;
- `foldlM_addGlob_error`, `foldlM_addGlob_ok`: when globs are refused, and which paths they name;
- `loadRequests_error_iff`, `loadAllRequests_error_iff`: manifests are refused if one of them is at fault;
- `refused_run_changes_nothing`: a run is refused exactly if there is a fault, and then it changes nothing.
-/
import MatcherGen.Proofs.Expansion
import MatcherGen.Proofs.ManifestRuns

namespace MatcherGen

/-! ## Flags -/

/-- setting a flag of this kind does not touch the list of flags that were given -/
def FlagKind.KeepsGiven : FlagKind → Prop
  | .text _ set => ∀ a s, (set a s).given = a.given
  | .switch set => ∀ a b, (set a b).given = a.given
  | .number => True
  | .several set => ∀ a s, (set a s).given = a.given

theorem flags_keepGiven : ∀ f ∈ flags, f.kind.KeepsGiven := by
  simp [flags, FlagKind.KeepsGiven]

theorem Flag.set_given {f : Flag} (hkind : f.kind.KeepsGiven) {a a' : Arguments} {value : String}
    (h : f.set a value = .ok a') : a'.given = f.name :: a.given := by
  obtain ⟨name, kind, usage⟩ := f
  cases kind with
  | text usual set =>
    obtain rfl := Except.ok.inj h
    exact hkind _ _
  | several set =>
    obtain rfl := Except.ok.inj h
    exact hkind _ _
  | switch set =>
    simp only [Flag.set] at h
    split at h
    · obtain rfl := Except.ok.inj h
      exact hkind _ _
    · exact absurd h (by simp)
  | number =>
    simp only [Flag.set] at h
    split at h
    · obtain rfl := Except.ok.inj h
      rfl
    · exact absurd h (by simp)

/-- only flags that exist were given -/
def Arguments.GivesFlags (a : Arguments) : Prop := ∀ name ∈ a.given, name ∈ flags.map Flag.name

theorem Arguments.GivesFlags.set {a a' : Arguments} (ha : a.GivesFlags) {name value : String} {f : Flag}
    (hf : findFlag name = .ok f) (h : f.set a value = .ok a') : a'.GivesFlags := by
  have hmem : f ∈ flags := by
    unfold findFlag at hf
    split at hf
    · rename_i g hg
      obtain rfl := Except.ok.inj hf
      exact List.mem_of_find?_eq_some hg
    · exact absurd hf (by simp)
  intro x hx
  rw [Flag.set_given (flags_keepGiven f hmem) h] at hx
  rcases List.mem_cons.1 hx with rfl | hx
  · exact List.mem_map_of_mem hmem
  · exact ha x hx

/-- **Only flags that exist are given.** -/
theorem readArguments_given {a a' : Arguments} {args : List String} (h : readArguments a args = .ok a')
    (ha : a.GivesFlags) : a'.GivesFlags := by
  fun_induction readArguments a args with
  | case1 a =>
    obtain rfl := Except.ok.inj h
    exact ha
  | case2 a s r hplain =>
    obtain rfl := Except.ok.inj h
    exact ha
  | case3 a s r hend =>
    obtain rfl := Except.ok.inj h
    exact ha
  | case7 a s r name f v hf a₁ hset hflag ih => exact ih h (ha.set hf hset)
  | case9 a s r name f hf hswitch a₁ hset hflag ih => exact ih h (ha.set hf hset)
  | case12 a s name f hf hswitch v r a₁ hset hflag ih => exact ih h (ha.set hf hset)
  | case4 | case5 | case6 | case8 | case10 | case11 => exact absurd h (by simp)

/-- the flags that go with manifests -/
def manifestFlags : List String := ["manifest", "jobs", "verbose"]

/-- a flag that exists goes with a pattern if and only if it does not go with manifests -/
theorem mem_patternFlags_iff {name : String} (h : name ∈ flags.map Flag.name) :
    name ∈ patternFlags ↔ name ∉ manifestFlags := by
  revert name
  decide

theorem patternFlags_exist : ∀ name ∈ patternFlags, name ∈ flags.map Flag.name := by
  decide

/-! ## Globs -/

/-- the glob names no path: it is malformed, also once it is cleaned, or nothing matches it -/
inductive GlobFault (d : Disk) (glob : String) : Prop where
  | malformed (h : isGlob glob.toList = false)
  | malformedPart (h : globMatches d glob = none)
  | noMatch (h : globMatches d glob = some [])

/-- the glob matches the path -/
def GlobNames (d : Disk) (glob path : String) : Prop := ∃ paths, globMatches d glob = some paths ∧ path ∈ paths

theorem expandGlob_error {d : Disk} {glob : String} {e : GlobError} (h : expandGlob d glob = .error e) :
    GlobFault d glob := by
  unfold expandGlob at h
  split_ifs at h with hglob
  · exact .malformed (by simpa using hglob)
  · split at h
    · exact .malformedPart ‹_›
    · exact .noMatch ‹_›
    · exact absurd h (by simp)

theorem expandGlob_ok {d : Disk} {glob : String} {paths : List String} (h : expandGlob d glob = .ok paths) :
    ¬ GlobFault d glob ∧ ∀ path, GlobNames d glob path ↔ path ∈ paths := by
  unfold expandGlob at h
  split_ifs at h with hglob
  split at h
  · exact absurd h (by simp)
  · exact absurd h (by simp)
  · rename_i found hne hfound
    obtain rfl := Except.ok.inj h
    constructor
    · rintro (hbad | hbad | hbad)
      · simp [hbad] at hglob
      · exact absurd (hfound.symm.trans hbad) (by simp)
      · exact hne (Option.some.inj (hfound.symm.trans hbad))
    · intro path
      simp [GlobNames, hfound]

theorem mem_foldl_once {found paths : List String} {path : String} :
    path ∈ paths.foldl (fun found p => if found.contains p then found else found ++ [p]) found ↔
      path ∈ found ∨ path ∈ paths := by
  induction paths generalizing found with
  | nil => simp
  | cons p paths ih =>
    rw [List.foldl_cons, ih, List.mem_cons, ← or_assoc]
    split_ifs with hmem
    · rw [List.contains_iff_mem] at hmem
      have hp : path = p → path ∈ found := fun h => h ▸ hmem
      tauto
    · rw [List.mem_append, List.mem_singleton]

/-- the paths found so far with those of one more glob -/
def addGlob (d : Disk) (found : List String) (glob : String) : Except GlobError (List String) := do
  let paths ← expandGlob d glob
  return paths.foldl (fun found p => if found.contains p then found else found ++ [p]) found

theorem expandGlobs_eq (d : Disk) (globs : List String) : expandGlobs d globs = globs.foldlM (addGlob d) [] := rfl

theorem addGlob_error {d : Disk} {found : List String} {glob : String} {e : GlobError}
    (h : addGlob d found glob = .error e) : GlobFault d glob := by
  unfold addGlob at h
  cases hglob : expandGlob d glob with
  | error e' => exact expandGlob_error hglob
  | ok paths =>
    rw [hglob] at h
    exact absurd h (by simp [bind, Except.bind, pure, Except.pure])

theorem addGlob_ok {d : Disk} {found paths : List String} {glob : String} (h : addGlob d found glob = .ok paths) :
    ¬ GlobFault d glob ∧ ∀ path, path ∈ paths ↔ path ∈ found ∨ GlobNames d glob path := by
  unfold addGlob at h
  cases hglob : expandGlob d glob with
  | error e =>
    rw [hglob] at h
    exact absurd h (by simp [bind, Except.bind])
  | ok more =>
    rw [hglob] at h
    obtain rfl := Except.ok.inj h
    obtain ⟨hfine, hnames⟩ := expandGlob_ok hglob
    refine ⟨hfine, ?_⟩
    intro path
    rw [mem_foldl_once, hnames]

/-- **Globs are refused only if one of them is at fault.** -/
theorem foldlM_addGlob_error {d : Disk} {globs found : List String} {e : GlobError}
    (h : globs.foldlM (addGlob d) found = .error e) : ∃ glob ∈ globs, GlobFault d glob := by
  induction globs generalizing found with
  | nil => exact absurd h (by simp [pure, Except.pure])
  | cons glob globs ih =>
    rw [List.foldlM_cons] at h
    cases hglob : addGlob d found glob with
    | error e' => exact ⟨glob, List.mem_cons_self, addGlob_error hglob⟩
    | ok paths =>
      rw [hglob] at h
      obtain ⟨bad, hmem, hbad⟩ := ih h
      exact ⟨bad, List.mem_cons_of_mem _ hmem, hbad⟩

/-- **Globs that are not refused** are without fault, and name what each of them matches. The induction is on the globs to
come; `found` are the paths of those before. -/
theorem foldlM_addGlob_ok {d : Disk} {globs found paths : List String} (h : globs.foldlM (addGlob d) found = .ok paths) :
    (∀ glob ∈ globs, ¬ GlobFault d glob) ∧
      ∀ path, path ∈ paths ↔ path ∈ found ∨ ∃ glob ∈ globs, GlobNames d glob path := by
  induction globs generalizing found with
  | nil =>
    obtain rfl := Except.ok.inj h
    simp
  | cons glob globs ih =>
    rw [List.foldlM_cons] at h
    cases hglob : addGlob d found glob with
    | error e =>
      rw [hglob] at h
      exact absurd h (by simp [bind, Except.bind])
    | ok more =>
      rw [hglob] at h
      obtain ⟨hfine, hmore⟩ := addGlob_ok hglob
      obtain ⟨hall, hpaths⟩ := ih h
      refine ⟨List.forall_mem_cons.2 ⟨hfine, hall⟩, ?_⟩
      intro path
      rw [hpaths, hmore, or_assoc, List.exists_mem_cons_iff]

/-! ## Manifests -/

/-- the text is one document that says what is in `m` and nothing that has no place there -/
def Manifest.Decodes (s : List Char) (m : Manifest) : Prop :=
  ∃ document record, Yaml.Document.read s = .ok (some document) ∧
    (Yaml.recordAt recordType empty document document.root).run [] = .ok (record, []) ∧ m = record.getD empty

theorem Manifest.Decodes.unique {s : List Char} {m m' : Manifest} (h : Decodes s m) (h' : Decodes s m') : m = m' := by
  obtain ⟨document, record, hdocument, hrecord, rfl⟩ := h
  obtain ⟨document', record', hdocument', hrecord', rfl⟩ := h'
  obtain rfl := Option.some.inj (Except.ok.inj (hdocument.symm.trans hdocument'))
  obtain ⟨rfl, -⟩ := Prod.mk.inj (Except.ok.inj (hrecord.symm.trans hrecord'))
  rfl

theorem Manifest.read_ok_iff {s : List Char} {m : Manifest} :
    Manifest.read s = .ok m ↔ Decodes s m ∧ m.entries ≠ [] := by
  constructor
  · intro h
    unfold Manifest.read at h
    split at h
    · exact absurd h (by simp)
    · exact absurd h (by simp)
    · rename_i document hdocument
      split at h
      · exact absurd h (by simp)
      · rename_i record hrecord
        dsimp only at h
        split_ifs at h with hentries
        obtain rfl := Except.ok.inj h
        exact ⟨⟨document, record, hdocument, hrecord, rfl⟩, by simpa using hentries⟩
      · exact absurd h (by simp)
  · rintro ⟨⟨document, record, hdocument, hrecord, rfl⟩, hentries⟩
    unfold Manifest.read
    rw [hdocument]
    dsimp only
    rw [hrecord]
    dsimp only
    rw [if_neg (by simpa using hentries)]

/-- entries that become requests are not at fault -/
theorem Manifest.not_faultAt {m : Manifest} {requests : List Options} (h : m.options = .ok requests) {scope : FlagScope}
    (hscope : (m.scopeName, scope) ∈ scopeNames) (i : Nat) : ¬ m.FaultAt scope i := by
  obtain ⟨scope', hscope', -, hvalid, hnodup⟩ := options_ok_iff.1 h
  obtain rfl : scope' = scope :=
    Except.ok.inj ((FlagScope.ofName_iff.2 hscope').symm.trans (FlagScope.ofName_iff.2 hscope))
  rintro (⟨e, he, hrepeats⟩ | ⟨e, fault, he, hfault⟩)
  · obtain ⟨hi, rfl⟩ := List.getElem?_eq_some_iff.1 he
    rw [← List.take_append_drop i m.entries, List.drop_eq_getElem_cons hi, List.map_append, List.map_cons] at hnodup
    exact (List.nodup_append.1 hnodup).2.2 _ hrepeats _ List.mem_cons_self rfl
  · exact absurd ((hvalid e (List.mem_of_getElem? he)).symm.trans hfault) (by simp)

/-- a manifest whose flag scope is known gives no requests only for the fault of an entry -/
theorem Manifest.exists_faultAt {m : Manifest} {scope : FlagScope} {why : RequestError}
    (hscope : (m.scopeName, scope) ∈ scopeNames) (h : m.options = .error why) : ∃ i, m.FaultAt scope i := by
  rw [Manifest.options_of_scope hscope] at h
  obtain ⟨i, hleast, -⟩ := Manifest.requestsFrom_error (Manifest.Passed.start m scope) rfl h
  exact ⟨i, hleast.1⟩

/-- the manifest as it is at a path: its output files are below the directory of the path -/
def Manifest.at (m : Manifest) (path : String) : Manifest := { m with dir := parentPath path }

/-- the place of a manifest does not change its flag scope -/
@[simp] theorem Manifest.at_scopeName (m : Manifest) (path : String) : (m.at path).scopeName = m.scopeName := by
  cases m
  rfl

/-- what can be wrong with the manifest at a path -/
inductive ManifestFault (d : Disk) (path : String) : Prop where
  | unreadable (e : FileError) (h : d.read path = .error e)
  | undecodable (text : String) (hread : d.read path = .ok text) (h : ∀ m, ¬ Manifest.Decodes text.toList m)
  | noEntries (text : String) (m : Manifest) (hread : d.read path = .ok text) (hm : m.Decodes text.toList)
    (h : m.entries = [])
  /-- nobody knows the name of its flag scope -/
  | scope (text : String) (m : Manifest) (hread : d.read path = .ok text) (hm : m.Decodes text.toList)
    (h : ∀ scope, (m.scopeName, scope) ∉ scopeNames)
  /-- an entry repeats an output file or makes a request that is turned down -/
  | entry (text : String) (m : Manifest) (scope : FlagScope) (i : Nat) (hread : d.read path = .ok text)
    (hm : m.Decodes text.toList) (hscope : (m.scopeName, scope) ∈ scopeNames) (h : (m.at path).FaultAt scope i)

theorem exists_error_iff {ε α : Type} {x : Except ε α} : (∃ e, x = .error e) ↔ ∀ v, x ≠ .ok v := by
  cases x <;> simp

theorem Manifest.load_ok_iff {d : Disk} {path : String} {loaded : Manifest} :
    Manifest.load d path = .ok loaded ↔
      ∃ (text : String) (m : Manifest), d.read path = .ok text ∧ m.Decodes text.toList ∧ m.entries ≠ [] ∧
        loaded = m.at path := by
  constructor
  · intro h
    unfold Manifest.load at h
    split at h
    · exact absurd h (by simp)
    · rename_i text hread
      split at h
      · exact absurd h (by simp)
      · rename_i m hm
        obtain ⟨hdecodes, hentries⟩ := Manifest.read_ok_iff.1 hm
        exact ⟨text, m, hread, hdecodes, hentries, (Except.ok.inj h).symm⟩
  · rintro ⟨text, m, hread, hdecodes, hentries, rfl⟩
    unfold Manifest.load
    rw [hread]
    dsimp only
    rw [Manifest.read_ok_iff.2 ⟨hdecodes, hentries⟩]
    rfl

theorem loadRequests_ok {d : Disk} {verbose : Bool} {path : String} {requests : List Options}
    (h : loadRequests d verbose path = .ok requests) :
    ∃ loaded given, Manifest.load d path = .ok loaded ∧ loaded.options = .ok given := by
  unfold loadRequests at h
  split at h
  · exact absurd h (by simp)
  · rename_i loaded hloaded
    split at h
    · exact absurd h (by simp)
    · rename_i given hgiven
      exact ⟨loaded, given, hloaded, hgiven⟩

/-- a manifest without a fault gives requests -/
theorem manifestFault_of_error {d : Disk} {verbose : Bool} {path : String} {e : CommandError}
    (h : loadRequests d verbose path = .error e) : ManifestFault d path := by
  cases hread : d.read path with
  | error e' => exact .unreadable e' hread
  | ok text =>
    by_cases hdecodes : ∃ m, Manifest.Decodes text.toList m
    · obtain ⟨m, hm⟩ := hdecodes
      by_cases hentries : m.entries = []
      · exact .noEntries text m hread hm hentries
      · have hload := Manifest.load_ok_iff.2 ⟨text, m, hread, hm, hentries, rfl⟩
        by_cases hscope : ∃ scope, (m.scopeName, scope) ∈ scopeNames
        · obtain ⟨scope, hscope⟩ := hscope
          have hscope' : ((m.at path).scopeName, scope) ∈ scopeNames := by rwa [Manifest.at_scopeName]
          unfold loadRequests at h
          rw [hload] at h
          dsimp only at h
          split at h
          · rename_i why hwhy
            obtain ⟨i, hi⟩ := Manifest.exists_faultAt hscope' hwhy
            exact .entry text m scope i hread hm hscope hi
          · exact absurd h (by simp)
        · push Not at hscope
          exact .scope text m hread hm hscope
    · push Not at hdecodes
      exact .undecodable text hread hdecodes

/-- **A manifest is refused if and only if something is wrong with it.** -/
theorem loadRequests_error_iff {d : Disk} {verbose : Bool} {path : String} :
    (∃ e, loadRequests d verbose path = .error e) ↔ ManifestFault d path := by
  constructor
  · rintro ⟨e, h⟩
    exact manifestFault_of_error h
  · intro hfault
    rw [exists_error_iff]
    intro requests hok
    obtain ⟨loaded, given, hload, hgiven⟩ := loadRequests_ok hok
    obtain ⟨text, m, hread, hm, hentries, rfl⟩ := Manifest.load_ok_iff.1 hload
    -- the text at the path and what it says are the ones of the fault
    have hsame : ∀ {text' : String}, d.read path = .ok text' → text' = text :=
      fun h => Except.ok.inj (h.symm.trans hread)
    cases hfault with
    | unreadable e h => exact absurd (h.symm.trans hread) (by simp)
    | undecodable text' hread' h =>
      obtain rfl := hsame hread'
      exact h m hm
    | noEntries text' m' hread' hm' h =>
      obtain rfl := hsame hread'
      exact hentries (hm.unique hm' ▸ h)
    | scope text' m' hread' hm' h =>
      obtain rfl := hsame hread'
      obtain rfl := hm.unique hm'
      obtain ⟨scope, hscope⟩ := Manifest.scope_of_options hgiven
      rw [Manifest.at_scopeName] at hscope
      exact h scope hscope
    | entry text' m' scope i hread' hm' hscope h =>
      obtain rfl := hsame hread'
      obtain rfl := hm.unique hm'
      rw [← Manifest.at_scopeName m path] at hscope
      exact Manifest.not_faultAt hgiven hscope i h

/-- **Manifests are refused if and only if something is wrong with one of them**, wherever it stands. -/
theorem loadAllRequests_error_iff {d : Disk} {verbose : Bool} {paths : List String} :
    (∃ e, loadAllRequests d verbose paths = .error e) ↔ ∃ path ∈ paths, ManifestFault d path := by
  induction paths with
  | nil => simp [loadAllRequests]
  | cons path paths ih =>
    rw [List.exists_mem_cons_iff, ← ih, ← loadRequests_error_iff, loadAllRequests]
    cases hpath : loadRequests d verbose path with
    | error e => simp
    | ok requests =>
      cases hmore : loadAllRequests d verbose paths with
      | error e => simp
      | ok more => simp

theorem loadRequests_ne_batch {d : Disk} {verbose : Bool} {path : String} {e : CommandError}
    (h : loadRequests d verbose path = .error e) (why : BatchError) : e ≠ .batch why := by
  unfold loadRequests at h
  split at h
  · obtain rfl := Except.error.inj h
    simp
  · split at h
    · obtain rfl := Except.error.inj h
      simp
    · exact absurd h (by simp)

theorem loadAllRequests_ne_batch {d : Disk} {verbose : Bool} {paths : List String} {e : CommandError}
    (h : loadAllRequests d verbose paths = .error e) (why : BatchError) : e ≠ .batch why := by
  induction paths with
  | nil => exact absurd h (by simp [loadAllRequests])
  | cons path paths ih =>
    rw [loadAllRequests] at h
    split at h
    · rename_i hpath
      obtain rfl := Except.error.inj h
      exact loadRequests_ne_batch hpath why
    · split at h
      · rename_i hmore
        obtain rfl := Except.error.inj h
        exact ih hmore
      · exact absurd h (by simp)

/-! ## Runs -/

/-- what a run on manifests is refused for -/
inductive Arguments.Refused (a : Arguments) (d : Disk) : Prop where
  /-- a flag is given that does not go with manifests -/
  | flag (name : String) (hgiven : name ∈ a.given) (h : name ∉ manifestFlags)
  /-- a pattern is given -/
  | pattern (h : a.rest ≠ [])
  | glob (glob : String) (hglob : glob ∈ a.manifests) (h : GlobFault d glob)
  /-- one of the manifests that the globs name is at fault -/
  | manifest (glob path : String) (hglob : glob ∈ a.manifests) (hpath : GlobNames d glob path) (h : ManifestFault d path)

/-- the requests of manifests fail if and only if a glob or a manifest is at fault -/
theorem manifestRequests_error_iff {a : Arguments} {d : Disk} :
    (∃ e, manifestRequests a d = .error e) ↔
      (∃ glob ∈ a.manifests, GlobFault d glob) ∨
        ∃ glob ∈ a.manifests, ∃ path, GlobNames d glob path ∧ ManifestFault d path := by
  unfold manifestRequests
  rw [expandGlobs_eq]
  cases hglobs : a.manifests.foldlM (addGlob d) [] with
  | error e =>
    have hfault := foldlM_addGlob_error hglobs
    simp [hfault]
  | ok paths =>
    obtain ⟨hfine, hpaths⟩ := foldlM_addGlob_ok hglobs
    have hnone : ¬ ∃ glob ∈ a.manifests, GlobFault d glob := by
      rintro ⟨glob, hglob, hfault⟩
      exact hfine glob hglob hfault
    dsimp only
    rw [loadAllRequests_error_iff, or_iff_right hnone]
    constructor
    · rintro ⟨path, hpath, hfault⟩
      obtain ⟨glob, hglob, hnames⟩ := ((hpaths path).1 hpath).resolve_left List.not_mem_nil
      exact ⟨glob, hglob, path, hnames, hfault⟩
    · rintro ⟨glob, hglob, path, hnames, hfault⟩
      exact ⟨path, (hpaths path).2 (.inr ⟨glob, hglob, hnames⟩), hfault⟩

theorem manifestRequests_ne_batch {a : Arguments} {d : Disk} {e : CommandError} (h : manifestRequests a d = .error e)
    (why : BatchError) : e ≠ .batch why := by
  unfold manifestRequests at h
  split at h
  · obtain rfl := Except.error.inj h
    simp
  · exact loadAllRequests_ne_batch h why

section

variable {a : Arguments} {d : Disk} (hmanifests : a.manifests ≠ [])

include hmanifests

/-- **A fault refuses the run**, before anything is done. -/
theorem Arguments.run_refused (hgiven : a.GivesFlags) (h : a.Refused d) :
    ∃ e, (∀ why, e ≠ .batch why) ∧ a.run d = .failed d e [] := by
  cases hflag : patternFlags.find? a.given.contains with
  | some name =>
    refine ⟨.flagWithManifest name, by simp, ?_⟩
    rw [Arguments.run, if_pos (by simpa using hmanifests), hflag]
  | none =>
    cases hrest : a.rest with
    | cons p r =>
      refine ⟨.patternWithManifest p, by simp, ?_⟩
      rw [Arguments.run, if_pos (by simpa using hmanifests), hflag, hrest]
    | nil =>
      have hfault : ∃ e, manifestRequests a d = .error e := by
        rw [manifestRequests_error_iff]
        cases h with
        | flag name hname hother =>
          have hpattern := (mem_patternFlags_iff (hgiven name hname)).2 hother
          exact absurd (List.contains_iff_mem.2 hname) (List.find?_eq_none.1 hflag name hpattern)
        | pattern h => exact absurd hrest h
        | glob glob hglob h => exact .inl ⟨glob, hglob, h⟩
        | manifest glob path hglob hpath h => exact .inr ⟨glob, hglob, path, hpath, h⟩
      obtain ⟨e, he⟩ := hfault
      refine ⟨e, manifestRequests_ne_batch he, ?_⟩
      rw [Arguments.run_eq hmanifests hflag hrest, runManifests, he]

/-- **A run without a fault is not refused**: it comes to the batch, and if it fails, it fails there. -/
theorem Arguments.run_not_refused (h : ¬ a.Refused d) : ∀ e, (a.run d).error = some e → ∃ why, e = .batch why := by
  have hflag : patternFlags.find? a.given.contains = none := by
    rw [List.find?_eq_none]
    intro name hname hgiven
    have hother : name ∉ manifestFlags := (mem_patternFlags_iff (patternFlags_exist name hname)).1 hname
    exact h (.flag name (List.contains_iff_mem.1 hgiven) hother)
  have hrest : a.rest = [] := by
    by_contra hrest
    exact h (.pattern hrest)
  have hfine : ¬ ∃ e, manifestRequests a d = .error e := by
    rw [manifestRequests_error_iff]
    rintro (⟨glob, hglob, hfault⟩ | ⟨glob, hglob, path, hpath, hfault⟩)
    · exact h (.glob glob hglob hfault)
    · exact h (.manifest glob path hglob hpath hfault)
  rw [Arguments.run_eq hmanifests hflag hrest]
  intro e he
  unfold runManifests at he
  split at he
  · exact absurd ⟨_, ‹_›⟩ hfine
  · dsimp only at he
    split at he
    · exact ⟨_, (Option.some.inj he).symm⟩
    · exact absurd he (by simp)

end

/-- **A refused run changes nothing.** For arguments that name manifests and every store: if a flag or a pattern is given that
does not go with manifests, if a glob is malformed or matches nothing, or if any one of the manifests that the globs name cannot
be read, is no manifest, has no entries or has an entry that is turned down, then the run fails, prints nothing, says nothing
on the side and leaves the store as it was. Besides these, only the work on the requests can make it fail. -/
theorem refused_run_changes_nothing {args : List String} {a : Arguments} (hargs : readArguments .default args = .ok a)
    (hmanifests : a.manifests ≠ []) (d : Disk) :
    a.Refused d ↔
      ∃ e, (∀ why, e ≠ .batch why) ∧ (runCommand args d).error = some e ∧ (runCommand args d).stdout = [] ∧
        (runCommand args d).stderr = [] ∧ (runCommand args d).disk = d := by
  have hgiven : a.GivesFlags := readArguments_given hargs (by simp [Arguments.GivesFlags, Arguments.default])
  have hcommand : runCommand args d = a.run d := by rw [runCommand, hargs]
  rw [hcommand]
  constructor
  · intro h
    obtain ⟨e, hbatch, hrun⟩ := Arguments.run_refused hmanifests hgiven h
    rw [hrun]
    exact ⟨e, hbatch, rfl, rfl, rfl, rfl⟩
  · rintro ⟨e, hbatch, herror, -⟩
    by_contra h
    obtain ⟨why, hwhy⟩ := Arguments.run_not_refused hmanifests h e herror
    exact hbatch why hwhy

/-- a manifest without a fault, and one whose second entry has a name that is turned down -/
def lateFaultStore : Disk :=
  ((Disk.empty ["work"]).put "a.yaml" "patterns:\n  - name: A\n    pattern: x\n").put "z.yaml"
    "patterns:\n  - name: Z\n    pattern: y\n  - name: b-c\n    pattern: z\n"

/-- the fault in the second manifest refuses the run -/
theorem lateFault_changes_nothing :
    let args := ["-manifest", "a.yaml", "-manifest", "z.yaml"]
    (twoManifests "a.yaml" "z.yaml").Refused lateFaultStore ∧
      ∃ e, (∀ why, e ≠ .batch why) ∧ (runCommand args lateFaultStore).error = some e ∧
        (runCommand args lateFaultStore).stdout = [] ∧ (runCommand args lateFaultStore).stderr = [] ∧
        (runCommand args lateFaultStore).disk = lateFaultStore := by
  have hargs : (readArguments .default ["-manifest", "a.yaml", "-manifest", "z.yaml"]).toOption =
      some (twoManifests "a.yaml" "z.yaml") := by decide +kernel
  have hnames : globMatches lateFaultStore "z.yaml" = some ["z.yaml"] := by decide +kernel
  have hnone : (loadRequests lateFaultStore false "z.yaml").toOption = none := by decide +kernel
  have hfault : ManifestFault lateFaultStore "z.yaml" := by
    rw [← loadRequests_error_iff, exists_error_iff]
    intro requests hok
    rw [hok] at hnone
    exact absurd hnone (by simp [Except.toOption])
  have hrefused : (twoManifests "a.yaml" "z.yaml").Refused lateFaultStore :=
    .manifest "z.yaml" "z.yaml" (List.mem_cons_of_mem _ List.mem_cons_self) ⟨_, hnames, List.mem_cons_self⟩ hfault
  exact ⟨hrefused, (refused_run_changes_nothing (eq_ok_of_toOption hargs) (List.cons_ne_nil _ _) lateFaultStore).1 hrefused⟩

end MatcherGen
