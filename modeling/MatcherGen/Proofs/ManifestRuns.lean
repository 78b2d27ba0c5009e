/-
What a run on manifests leaves in the output files. Requests of one manifest have different output files, but the manifests
of a run are not held against each other, and two texts can name one place. So a file holds the code of some request with
that place, and it holds the code of its own request if no other one has the place.

Main statements:
- `loadRequests_nodup`: the requests of one manifest have different output files;
- `manifest_run_fills_files`: what a run on manifests prints and leaves behind.
-/
import MatcherGen.CommandLine.Run
import MatcherGen.Proofs.Batches
import MatcherGen.Proofs.Expansion

namespace MatcherGen

/-! ## The requests of manifests -/

theorem Manifest.outputOf_ne_empty (m : Manifest) (e : Entry) : m.outputOf e ≠ "" := by
  have hlast : (if e.output == "" then lowerString e.name ++ ".go" else e.output) ≠ "" := by
    split_ifs with hout
    · simp
    · simpa using hout
  unfold Manifest.outputOf joinPaths
  rw [if_neg]
  · exact cleanPath_ne_empty _
  · intro hnone
    have hmem := List.isEmpty_iff.1 hnone
    rw [List.filter_eq_nil_iff] at hmem
    exact hmem _ (List.mem_of_mem_getLast? rfl) (by simpa using hlast)

/-- **The requests of one manifest** have output files, no two of them the same. -/
theorem loadRequests_nodup {d : Disk} {verbose : Bool} {path : String} {requests : List Options}
    (h : loadRequests d verbose path = .ok requests) :
    (requests.map Options.output).Nodup ∧ ∀ o ∈ requests, o.output ≠ "" := by
  unfold loadRequests at h
  split at h
  · exact absurd h (by simp)
  · rename_i m _
    split at h
    · exact absurd h (by simp)
    · rename_i given hgiven
      obtain rfl := Except.ok.inj h
      obtain ⟨scope, -, rfl, -, hnodup⟩ := Manifest.options_ok_iff.1 hgiven
      constructor
      · rw [List.map_map, List.map_map]
        exact hnodup
      · intro o ho
        obtain ⟨o', ho', rfl⟩ := List.mem_map.1 ho
        obtain ⟨e, -, rfl⟩ := List.mem_map.1 ho'
        exact m.outputOf_ne_empty e

/-- the requests of manifest files are those of each of them, in order -/
theorem loadAllRequests_parts {d : Disk} {verbose : Bool} {paths : List String} {requests : List Options}
    (h : loadAllRequests d verbose paths = .ok requests) :
    ∃ parts, List.Forall₂ (fun path part => loadRequests d verbose path = .ok part) paths parts ∧
      requests = parts.flatten := by
  induction paths generalizing requests with
  | nil => exact ⟨[], .nil, (Except.ok.inj h).symm⟩
  | cons path paths ih =>
    rw [loadAllRequests] at h
    split at h
    · exact absurd h (by simp)
    · rename_i part hpart
      split at h
      · exact absurd h (by simp)
      · rename_i more hmore
        obtain ⟨parts, hparts, rfl⟩ := ih hmore
        exact ⟨part :: parts, .cons hpart hparts, (Except.ok.inj h).symm⟩

theorem loadedParts_outputs {d : Disk} {verbose : Bool} {paths : List String} {parts : List (List Options)}
    (h : List.Forall₂ (fun path part => loadRequests d verbose path = .ok part) paths parts) :
    ∀ part ∈ parts, (part.map Options.output).Nodup ∧ ∀ o ∈ part, o.output ≠ "" := by
  induction h with
  | nil => simp
  | cons hpart _ ih => exact List.forall_mem_cons.2 ⟨loadRequests_nodup hpart, ih⟩

/-! ## Runs -/

/-- arguments that name manifests, and nothing that goes with a pattern, start a batch -/
theorem Arguments.run_eq {a : Arguments} {d : Disk} (hmanifests : a.manifests ≠ [])
    (hflag : patternFlags.find? a.given.contains = none) (hrest : a.rest = []) : a.run d = runManifests a d := by
  unfold Arguments.run
  rw [if_pos (by simpa using hmanifests), hflag, hrest]

theorem Arguments.run_manifests {a : Arguments} {d : Disk} (hmanifests : a.manifests ≠ []) (h : (a.run d).error = none) :
    a.run d = runManifests a d := by
  have hrun := h
  unfold Arguments.run at h
  rw [if_pos (by simpa using hmanifests)] at h
  cases hflag : patternFlags.find? a.given.contains with
  | some name =>
    rw [hflag] at h
    exact absurd h (by simp [RunResult.failed])
  | none =>
    rw [hflag] at h
    cases hrest : a.rest with
    | nil => exact Arguments.run_eq hmanifests hflag hrest
    | cons p r =>
      rw [hrest] at h
      exact absurd h (by simp [RunResult.failed])

/-- the lines printed for requests -/
def wroteLines (requests : List Options) : List Char :=
  requests.flatMap fun o => Report.wroteLine ⟨o, Reading.ofPattern o.pattern⟩

/-- a batch without a failure makes a run without one -/
theorem runManifests_of_batch {a : Arguments} {d : Disk} {requests : List Options}
    (hrequests : manifestRequests a d = .ok requests) (h : (compileAll requests false d).failure = none) :
    (runManifests a d).error = none ∧ (runManifests a d).disk = (compileAll requests false d).disk ∧
      (runManifests a d).stdout = (compileAll requests false d).printed ++ wroteLines requests := by
  unfold runManifests
  rw [hrequests]
  dsimp only
  rw [(compileAll_ends h).reports]
  refine ⟨rfl, rfl, ?_⟩
  dsimp only
  rw [List.flatMap_map, wroteLines]

/-- a run without a failure had a batch without one -/
theorem runManifests_ok {a : Arguments} {d : Disk} (h : (runManifests a d).error = none) :
    ∃ requests, manifestRequests a d = .ok requests ∧ (compileAll requests false d).failure = none := by
  unfold runManifests at h
  cases hrequests : manifestRequests a d with
  | error e =>
    rw [hrequests] at h
    exact absurd h (by simp [RunResult.failed])
  | ok requests =>
    rw [hrequests] at h
    refine ⟨requests, rfl, ?_⟩
    cases hfailure : (compileAll requests false d).failure with
    | none => rfl
    | some e =>
      have hreports : (compileAll requests false d).reports requests = .error e := by rw [Batch.reports, hfailure]
      dsimp only at h
      rw [hreports] at h
      exact absurd h (by simp)

/-- a run on manifests, by the files that the globs name and the requests of each -/
structure ManifestRun (a : Arguments) (d : Disk) (r : RunResult) (paths : List String) (parts : List (List Options)) :
    Prop where
  globs : expandGlobs d a.manifests = .ok paths
  loaded : List.Forall₂ (fun path part => loadRequests d a.verbose path = .ok part) paths parts
  /-- no two entries of one manifest have the same output file -/
  nodup : ∀ part ∈ parts, (part.map Options.output).Nodup
  /-- one line for every entry -/
  stdout : r.stdout = wroteLines parts.flatten
  disk : ∃ b, Batch.Ends parts.flatten d b ∧ r.disk = b.disk
  /-- whatever the order of the work, every file holds the code of an entry with its place -/
  filled : ∀ b, Batch.Ends parts.flatten d b → ∀ o ∈ parts.flatten,
    ∃ o' ∈ parts.flatten, d.placeOf o'.output = d.placeOf o.output ∧ b.disk.Holds o.output o'
  /-- a file whose place no other entry has holds the code of its own -/
  own : ∀ b, Batch.Ends parts.flatten d b → ∀ o ∈ parts.flatten,
    (∀ o' ∈ parts.flatten, d.placeOf o'.output = d.placeOf o.output → o' = o) → b.disk.Holds o.output o

/-- **What a run on manifests leaves behind.** A run without an error prints a line for every entry of every manifest, and in
whatever order the entries are worked on, the file of such a line holds the code of an entry with that place. It holds the code
of its own entry if no other one has the place; the entries of one manifest name different files, those of two may not. -/
theorem manifest_run_fills_files {args : List String} {a : Arguments} {d : Disk}
    (hargs : readArguments .default args = .ok a) (hmanifests : a.manifests ≠ [])
    (hok : (runCommand args d).error = none) :
    ∃ paths parts, ManifestRun a d (runCommand args d) paths parts := by
  have hcommand : runCommand args d = a.run d := by rw [runCommand, hargs]
  have hrun := Arguments.run_manifests hmanifests (hcommand ▸ hok)
  rw [hcommand, hrun] at hok ⊢
  obtain ⟨requests, hrequests, hfailure⟩ := runManifests_ok hok
  obtain ⟨-, hdisk, hstdout⟩ := runManifests_of_batch hrequests hfailure
  unfold manifestRequests at hrequests
  cases hpaths : expandGlobs d a.manifests with
  | error e =>
    rw [hpaths] at hrequests
    exact absurd hrequests (by simp)
  | ok paths =>
    rw [hpaths] at hrequests
    obtain ⟨parts, hparts, rfl⟩ := loadAllRequests_parts hrequests
    have houtputs := loadedParts_outputs hparts
    have hout : ∀ o ∈ parts.flatten, o.output ≠ "" := by
      intro o ho
      obtain ⟨part, hpart, ho⟩ := List.mem_flatten.1 ho
      exact (houtputs part hpart).2 o ho
    have hprinted : (compileAll parts.flatten false d).printed = [] :=
      Batch.run_moves (P := fun b => b.printed = []) (fun hmove h => hmove.printed hout h) rfl _
    refine ⟨paths, parts, hpaths, hparts, ?_, ?_, ⟨_, compileAll_ends hfailure, hdisk⟩, ?_, ?_⟩
    · intro part hpart
      exact (houtputs part hpart).1
    · rw [hstdout, hprinted, List.nil_append]
    · intro b hb o ho
      exact hb.filled ho (hout o ho)
    · intro b hb o ho halone
      obtain ⟨o', ho', hplace, hholds⟩ := hb.filled ho (hout o ho)
      rw [halone o' ho' hplace] at hholds
      exact hholds

/-- three manifests, two of which name the same output file -/
def manifestStore : Disk :=
  (((Disk.empty ["work"]).put "a.yaml" "patterns:\n  - name: A\n    pattern: x\n").put "b.yaml"
    "patterns:\n  - name: A\n    pattern: y\n").put "c.yaml" "patterns:\n  - name: C\n    pattern: z\n"

/-- arguments that name two manifests -/
def twoManifests (first second : String) : Arguments :=
  { Arguments.default with manifests := [first, second], given := ["manifest", "manifest"] }

theorem eq_ok_of_toOption {ε α : Type} {x : Except ε α} {y : α} (h : x.toOption = some y) : x = .ok y := by
  cases x with
  | error e => exact absurd h (by simp [Except.toOption])
  | ok z => exact congrArg _ (Option.some.inj h)

theorem twoManifests_run {args : List String} {first second : String}
    (hargs : (readArguments .default args).toOption = some (twoManifests first second)) (d : Disk) :
    runCommand args d = runManifests (twoManifests first second) d := by
  have hflag : patternFlags.find? ["manifest", "manifest"].contains = none := by decide +kernel
  rw [runCommand, eq_ok_of_toOption hargs]
  exact Arguments.run_eq (List.cons_ne_nil first [second]) hflag rfl

/-- two manifests with different output files -/
theorem manifestStore_filled :
    let args := ["-manifest", "a.yaml", "-manifest", "c.yaml"]
    (runCommand args manifestStore).error = none ∧
      ∃ paths parts,
        ManifestRun (twoManifests "a.yaml" "c.yaml") manifestStore (runCommand args manifestStore) paths parts := by
  have hargs : (readArguments .default ["-manifest", "a.yaml", "-manifest", "c.yaml"]).toOption =
      some (twoManifests "a.yaml" "c.yaml") := by decide +kernel
  have hrequests : (manifestRequests (twoManifests "a.yaml" "c.yaml") manifestStore).toOption =
      some [.plain "x" "A" "a.go", .plain "z" "C" "c.go"] := by decide +kernel
  have hfailure : (compileAll [.plain "x" "A" "a.go", .plain "z" "C" "c.go"] false manifestStore).failure = none := by
    decide +kernel
  have hok := (runManifests_of_batch (eq_ok_of_toOption hrequests) hfailure).1
  rw [← twoManifests_run hargs] at hok
  exact ⟨hok, manifest_run_fills_files (eq_ok_of_toOption hargs) (List.cons_ne_nil _ _) hok⟩

/-- **Two manifests can name one output file.** Both entries are reported, and the file of one of them does not hold its
code. -/
theorem manifests_share_an_output :
    let args := ["-manifest", "a.yaml", "-manifest", "b.yaml"]
    let r := runCommand args manifestStore
    let requests : List Options := [.plain "x" "A" "a.go", .plain "y" "A" "a.go"]
    readArguments .default args = .ok (twoManifests "a.yaml" "b.yaml") ∧
      manifestRequests (twoManifests "a.yaml" "b.yaml") manifestStore = .ok requests ∧
      r.error = none ∧ r.stdout = "wrote a.go (A)\nwrote a.go (A)\n".toList ∧ ∃ o ∈ requests, ¬ r.disk.Holds o.output o := by
  intro args r requests
  have hargs : (readArguments .default args).toOption = some (twoManifests "a.yaml" "b.yaml") := by decide +kernel
  have hrequests : (manifestRequests (twoManifests "a.yaml" "b.yaml") manifestStore).toOption = some requests := by
    decide +kernel
  have hfailure : (compileAll requests false manifestStore).failure = none := by decide +kernel
  have hcodes : (Options.plain "x" "A" "a.go").code ≠ (Options.plain "y" "A" "a.go").code := by decide +kernel
  obtain ⟨hok, -, hstdout⟩ := runManifests_of_batch (eq_ok_of_toOption hrequests) hfailure
  have hrun : r = runManifests (twoManifests "a.yaml" "b.yaml") manifestStore := twoManifests_run hargs manifestStore
  rw [hrun]
  refine ⟨eq_ok_of_toOption hargs, eq_ok_of_toOption hrequests, hok, hstdout.trans (by decide +kernel), ?_⟩
  by_contra hall
  push Not at hall
  exact hcodes ((hall _ List.mem_cons_self).code_eq (hall _ (List.mem_cons_of_mem _ List.mem_cons_self)) rfl)

end MatcherGen
