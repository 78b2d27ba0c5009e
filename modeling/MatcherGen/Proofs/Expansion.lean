/-
The requests of a manifest. Entries are taken in order, and each must have an output file that no entry before it has and
make a request that is accepted. So either every entry becomes a request, or the manifest is refused for the first entry
that is at fault; of two faults of one entry, the output file comes first.

Main statements:
- `Manifest.requestsFrom_ok_iff`: when the entries from some place on become requests, and which;
- `Manifest.Passed.next`, `Manifest.requestsFrom_error`: what holds after an entry without a fault, and for which entry they
  are refused;
- `manifest_expands`: the requests of a manifest, or the first fault in it.
-/
import Mathlib.Tactic
import MatcherGen.Manifest

namespace MatcherGen

/-! ## What an entry becomes -/

/-- the names of flag scopes -/
def scopeNames : List (String × FlagScope) := [("", .pattern), ("pattern", .pattern), ("positional", .positional)]

theorem FlagScope.ofName_iff {name : String} {scope : FlagScope} :
    FlagScope.ofName name = .ok scope ↔ (name, scope) ∈ scopeNames := by
  simp only [scopeNames, List.mem_cons, List.not_mem_nil, or_false, Prod.mk.injEq]
  unfold FlagScope.ofName
  split_ifs with hpattern hpositional
  · rw [Bool.or_eq_true, beq_iff_eq, beq_iff_eq] at hpattern
    rcases hpattern with rfl | rfl <;> simp [eq_comm (a := scope)]
  · obtain rfl : name = "positional" := by simpa using hpositional
    simp [eq_comm (a := scope)]
  · simp_all

namespace Manifest

/-- the request that an entry becomes -/
structure Expands (m : Manifest) (scope : FlagScope) (e : Entry) (o : Options) : Prop where
  pattern : o.pattern = e.pattern
  name : o.name = e.name
  /-- below the directories of the manifest; without a file of its own it is the name in lower case -/
  output : o.output = joinPaths [m.dir, m.outputDir, if e.output = "" then lowerString e.name ++ ".go" else e.output]
  package : o.package = if m.package = "" then "main" else m.package
  runtime : o.runtime = m.runtime
  scope : o.scope = scope
  legacy : o.legacy = m.legacy
  /-- an entry can overrule the manifest -/
  strict : o.strict = match e.strict with | some b => b | none => m.strict
  verbose : o.verbose = false

theorem expands_request (m : Manifest) (scope : FlagScope) (e : Entry) : m.Expands scope e (m.request scope e) where
  pattern := rfl
  name := rfl
  output := by simp [request, outputOf]
  package := by simp [request, packageName]
  runtime := rfl
  scope := rfl
  legacy := rfl
  strict := by cases he : e.strict <;> simp [request, he]
  verbose := rfl

/-! ## Faults -/

/-- the entry at `i` has the output file of an entry before it -/
def RepeatsAt (m : Manifest) (i : Nat) : Prop :=
  ∃ e, m.entries[i]? = some e ∧ m.outputOf e ∈ (m.entries.take i).map m.outputOf

/-- the request of the entry at `i` is turned down -/
def InvalidAt (m : Manifest) (scope : FlagScope) (i : Nat) : Prop :=
  ∃ e fault, m.entries[i]? = some e ∧ (m.request scope e).validate = .error fault

/-- the entry at `i` is at fault -/
def FaultAt (m : Manifest) (scope : FlagScope) (i : Nat) : Prop := m.RepeatsAt i ∨ m.InvalidAt scope i

/-- the error names the entry at `i` and its fault; an output file that is repeated comes before a request that is turned
down -/
inductive Blames (m : Manifest) (scope : FlagScope) (i : Nat) (why : RequestError) : Prop where
  | repeated (e : Entry) (he : m.entries[i]? = some e) (hrepeats : m.RepeatsAt i)
    (hwhy : why = .repeatedOutput i e.name (m.outputOf e))
    (hmessage : why.message =
      "pattern " ++ decimalString i ++ " (" ++ e.name ++ "): output " ++ m.outputOf e ++ " is used twice")
  | invalid (e : Entry) (fault : OptionsError) (he : m.entries[i]? = some e) (hrepeats : ¬ m.RepeatsAt i)
    (hfault : (m.request scope e).validate = .error fault) (hwhy : why = .invalid i e.name fault)
    (hmessage : why.message = "pattern " ++ decimalString i ++ " (" ++ e.name ++ "): " ++ fault.message)

/-! ## The run over the entries -/

section

variable {m : Manifest} {scope : FlagScope} {index : Nat} {used : List String} {e : Entry} {entries : List Entry}

theorem requestsFrom_repeated (h : m.outputOf e ∈ used) :
    m.requestsFrom scope index used (e :: entries) = .error (.repeatedOutput index e.name (m.outputOf e)) := by
  have hused : used.contains (m.request scope e).output = true := List.contains_iff_mem.2 h
  rw [requestsFrom]
  simp only [hused, if_true]
  rfl

theorem requestsFrom_invalid (h : m.outputOf e ∉ used) {fault : OptionsError}
    (hfault : (m.request scope e).validate = .error fault) :
    m.requestsFrom scope index used (e :: entries) = .error (.invalid index e.name fault) := by
  have hfresh : ¬ used.contains (m.request scope e).output = true := fun hused => h (List.contains_iff_mem.1 hused)
  rw [requestsFrom]
  simp only [hfresh, hfault]
  rfl

theorem requestsFrom_accepted (h : m.outputOf e ∉ used) (hvalid : (m.request scope e).validate = .ok ()) :
    m.requestsFrom scope index used (e :: entries) =
      match m.requestsFrom scope (index + 1) (m.outputOf e :: used) entries with
      | .error why => .error why
      | .ok more => .ok (m.request scope e :: more) := by
  have hfresh : ¬ used.contains (m.request scope e).output = true := fun hused => h (List.contains_iff_mem.1 hused)
  rw [requestsFrom]
  simp only [hfresh, hvalid]
  rfl

/-- an output file that is not used yet joins those that are -/
theorem outputs_cons_iff (h : m.outputOf e ∉ used) :
    (((e :: entries).map m.outputOf).Nodup ∧ ∀ x ∈ e :: entries, m.outputOf x ∉ used) ↔
      (entries.map m.outputOf).Nodup ∧ ∀ x ∈ entries, m.outputOf x ∉ m.outputOf e :: used := by
  rw [List.map_cons, List.nodup_cons, List.forall_mem_cons]
  simp only [List.mem_map, List.mem_cons, not_or, not_exists, not_and]
  constructor
  · rintro ⟨⟨hnew, hnodup⟩, -, hfresh⟩
    exact ⟨hnodup, fun x hx => ⟨hnew x hx, hfresh x hx⟩⟩
  · rintro ⟨hnodup, hfresh⟩
    exact ⟨⟨fun x hx => (hfresh x hx).1, hnodup⟩, h, fun x hx => (hfresh x hx).2⟩

/-- **When entries become requests**: each is accepted, and their output files differ from each other and from those used
before. -/
theorem requestsFrom_ok_iff {requests : List Options} :
    m.requestsFrom scope index used entries = .ok requests ↔
      requests = entries.map (m.request scope) ∧ (∀ e ∈ entries, (m.request scope e).validate = .ok ()) ∧
        (entries.map m.outputOf).Nodup ∧ ∀ e ∈ entries, m.outputOf e ∉ used := by
  induction entries generalizing index used requests with
  | nil => simp [requestsFrom, eq_comm]
  | cons e entries ih =>
    by_cases hused : m.outputOf e ∈ used
    · simp [requestsFrom_repeated hused, hused]
    · cases hvalid : (m.request scope e).validate with
      | error fault => simp [requestsFrom_invalid hused hvalid, hvalid]
      | ok =>
        rw [requestsFrom_accepted hused hvalid, outputs_cons_iff hused, List.forall_mem_cons, List.map_cons]
        constructor
        · intro h
          cases hmore : m.requestsFrom scope (index + 1) (m.outputOf e :: used) entries with
          | error why =>
            rw [hmore] at h
            exact absurd h (by simp)
          | ok more =>
            rw [hmore] at h
            obtain rfl := Except.ok.inj h
            obtain ⟨rfl, hall, houtputs⟩ := ih.1 hmore
            exact ⟨rfl, ⟨hvalid, hall⟩, houtputs⟩
        · rintro ⟨rfl, ⟨-, hall⟩, houtputs⟩
          rw [ih.2 ⟨rfl, hall, houtputs⟩]

/-- what holds once the run has passed the entries `before`: the used output files are theirs, and none of them is at
fault -/
structure Passed (m : Manifest) (scope : FlagScope) (before : List Entry) (used : List String) : Prop where
  used : ∀ path, path ∈ used ↔ path ∈ before.map m.outputOf
  fine : ∀ i < before.length, ¬ m.FaultAt scope i

theorem Passed.start (m : Manifest) (scope : FlagScope) : m.Passed scope [] [] := ⟨by simp, by simp⟩

section

variable {before rest : List Entry} (h : m.Passed scope before used) (hsplit : m.entries = before ++ e :: rest)

include h

theorem Passed.isLeast (hfault : m.FaultAt scope before.length) : IsLeast {i | m.FaultAt scope i} before.length := by
  refine ⟨hfault, ?_⟩
  intro i hi
  by_contra hlt
  exact h.fine i (not_le.1 hlt) hi

include hsplit

theorem Passed.repeatsAt_iff : m.RepeatsAt before.length ↔ m.outputOf e ∈ used := by
  rw [h.used]
  simp [RepeatsAt, hsplit]

omit h in
theorem invalidAt_iff : m.InvalidAt scope before.length ↔ ∃ fault, (m.request scope e).validate = .error fault := by
  simp [InvalidAt, hsplit]

/-- **An entry without a fault is passed.** -/
theorem Passed.next (hfresh : m.outputOf e ∉ used) (hvalid : (m.request scope e).validate = .ok ()) :
    m.Passed scope (before ++ [e]) (m.outputOf e :: used) := by
  constructor
  · intro path
    simp [h.used, or_comm, eq_comm]
  · intro i hi
    rw [List.length_append, List.length_singleton, Nat.lt_succ_iff_lt_or_eq] at hi
    rcases hi with hi | rfl
    · exact h.fine i hi
    · rintro (hrepeats | hinvalid)
      · exact hfresh ((h.repeatsAt_iff hsplit).1 hrepeats)
      · obtain ⟨fault, hfault⟩ := (invalidAt_iff hsplit).1 hinvalid
        exact absurd (hvalid.symm.trans hfault) (by simp)

end

/-- **The first entry at fault is blamed.** The induction is on the entries to come; those before are passed. -/
theorem requestsFrom_error {before : List Entry} {why : RequestError} (hpassed : m.Passed scope before used)
    (hsplit : m.entries = before ++ entries) (h : m.requestsFrom scope before.length used entries = .error why) :
    ∃ i, IsLeast {i | m.FaultAt scope i} i ∧ m.Blames scope i why := by
  induction entries generalizing before used with
  | nil => exact absurd h (by simp [requestsFrom])
  | cons e entries ih =>
    have hat : m.entries[before.length]? = some e := by simp [hsplit]
    by_cases hused : m.outputOf e ∈ used
    · have hrepeats : m.RepeatsAt before.length := (hpassed.repeatsAt_iff hsplit).2 hused
      rw [requestsFrom_repeated hused] at h
      obtain rfl := Except.error.inj h
      exact ⟨before.length, hpassed.isLeast (.inl hrepeats), .repeated e hat hrepeats rfl rfl⟩
    · have hrepeats : ¬ m.RepeatsAt before.length := mt (hpassed.repeatsAt_iff hsplit).1 hused
      cases hvalid : (m.request scope e).validate with
      | error fault =>
        have hinvalid : m.InvalidAt scope before.length := (invalidAt_iff hsplit).2 ⟨fault, hvalid⟩
        rw [requestsFrom_invalid hused hvalid] at h
        obtain rfl := Except.error.inj h
        exact ⟨before.length, hpassed.isLeast (.inr hinvalid), .invalid e fault hat hrepeats hvalid rfl rfl⟩
      | ok =>
        have hlength : before.length + 1 = (before ++ [e]).length := by simp
        rw [requestsFrom_accepted hused hvalid, hlength] at h
        have hnext : m.entries = (before ++ [e]) ++ entries := by simp [hsplit]
        cases hmore : m.requestsFrom scope (before ++ [e]).length (m.outputOf e :: used) entries with
        | error why' =>
          rw [hmore] at h
          obtain rfl := Except.error.inj h
          exact ih (hpassed.next hsplit hused hvalid) hnext hmore
        | ok more =>
          rw [hmore] at h
          exact absurd h (by simp)

end

theorem options_of_scope {m : Manifest} {scope : FlagScope} (h : (m.scopeName, scope) ∈ scopeNames) :
    m.options = m.requestsFrom scope 0 [] m.entries := by
  rw [options, FlagScope.ofName_iff.2 h]

theorem options_of_unknown {m : Manifest} (h : ∀ scope, (m.scopeName, scope) ∉ scopeNames) :
    m.options = .error (.scope ⟨m.scopeName⟩) := by
  have hpattern : m.scopeName ≠ "" ∧ m.scopeName ≠ "pattern" := by
    constructor <;> intro hname <;> exact h .pattern (by simp [scopeNames, hname])
  have hpositional : m.scopeName ≠ "positional" := fun hname => h .positional (by simp [scopeNames, hname])
  simp [options, FlagScope.ofName, hpattern, hpositional]

theorem scope_of_options {m : Manifest} {requests : List Options} (h : m.options = .ok requests) :
    ∃ scope, (m.scopeName, scope) ∈ scopeNames := by
  unfold options at h
  split at h
  · exact absurd h (by simp)
  · rename_i scope hscope
    exact ⟨scope, FlagScope.ofName_iff.1 hscope⟩

/-- the requests of a manifest -/
theorem options_ok_iff {m : Manifest} {requests : List Options} :
    m.options = .ok requests ↔
      ∃ scope, (m.scopeName, scope) ∈ scopeNames ∧ requests = m.entries.map (m.request scope) ∧
        (∀ e ∈ m.entries, (m.request scope e).validate = .ok ()) ∧ (m.entries.map m.outputOf).Nodup := by
  constructor
  · intro h
    obtain ⟨scope, hscope⟩ := scope_of_options h
    rw [options_of_scope hscope, requestsFrom_ok_iff] at h
    obtain ⟨hrequests, hvalid, hnodup, -⟩ := h
    exact ⟨scope, hscope, hrequests, hvalid, hnodup⟩
  · rintro ⟨scope, hscope, hrequests, hvalid, hnodup⟩
    rw [options_of_scope hscope, requestsFrom_ok_iff]
    exact ⟨hrequests, hvalid, hnodup, fun _ _ => List.not_mem_nil⟩

end Manifest

/-- **A manifest becomes its requests, or its first fault is named.** For every manifest: there are requests if and only if
its scope has a name that is known, the request of every entry is accepted, and the output files differ. Then there is one
request for each entry, in order, with what the entry says and what the manifest says for all. Otherwise, if the scope is
known, the error names the first entry that repeats an output file or makes a request that is turned down, and of the two
the repeated file; if it is not, the error names the scope. -/
theorem manifest_expands (m : Manifest) :
    ((∃ requests, m.options = .ok requests) ↔
      ∃ scope, (m.scopeName, scope) ∈ scopeNames ∧ (∀ e ∈ m.entries, (m.request scope e).validate = .ok ()) ∧
        (m.entries.map m.outputOf).Nodup) ∧
    (∀ requests, m.options = .ok requests →
      ∃ scope, (m.scopeName, scope) ∈ scopeNames ∧ List.Forall₂ (m.Expands scope) m.entries requests) ∧
    (∀ scope why, (m.scopeName, scope) ∈ scopeNames → m.options = .error why →
      ∃ i, IsLeast {i | m.FaultAt scope i} i ∧ m.Blames scope i why) ∧
    ((∀ scope, (m.scopeName, scope) ∉ scopeNames) → m.options = .error (.scope ⟨m.scopeName⟩)) := by
  refine ⟨?_, ?_, ?_, Manifest.options_of_unknown⟩
  · simp only [Manifest.options_ok_iff]
    constructor
    · rintro ⟨-, scope, hscope, -, hvalid, hnodup⟩
      exact ⟨scope, hscope, hvalid, hnodup⟩
    · rintro ⟨scope, hscope, hvalid, hnodup⟩
      exact ⟨_, scope, hscope, rfl, hvalid, hnodup⟩
  · intro requests h
    obtain ⟨scope, hscope, rfl, -, -⟩ := Manifest.options_ok_iff.1 h
    refine ⟨scope, hscope, ?_⟩
    rw [List.forall₂_map_right_iff, List.forall₂_same]
    exact fun e _ => m.expands_request scope e
  · intro scope why hscope h
    rw [Manifest.options_of_scope hscope] at h
    exact Manifest.requestsFrom_error (Manifest.Passed.start m scope) rfl h

/-- two entries, one of which overrules the manifest and has a file of its own -/
def fineManifest : Manifest :=
  { Manifest.empty with
    scopeName := "positional"
    strict := true
    outputDir := "gen"
    entries := [⟨"Email", Text.ofString "x", "", none⟩, ⟨"Date", Text.ofString "y", "../gen//dates.go", some false⟩] }

/-- the second entry has the file of the first, written in another way, and a name that would be turned down -/
def clashingManifest : Manifest :=
  { Manifest.empty with
    outputDir := "gen"
    entries := [⟨"A", Text.ofString "x", "", none⟩, ⟨"b-c", Text.ofString "y", "../gen//a.go", some true⟩] }

/-- requests for the first, and the repeated file for the second -/
theorem sampleManifests_expand :
    (∃ scope requests, fineManifest.options = .ok requests ∧
      List.Forall₂ (fineManifest.Expands scope) fineManifest.entries requests) ∧
    clashingManifest.options = .error (.repeatedOutput 1 "b-c" "gen/a.go") ∧
    IsLeast {i | clashingManifest.FaultAt .pattern i} 1 := by
  have hfine : fineManifest.options = .ok
      [⟨Text.ofString "x", "Email", "gen/email.go", "main", "", .positional, false, true, false⟩,
        ⟨Text.ofString "y", "Date", "gen/dates.go", "main", "", .positional, false, false, false⟩] := by decide +kernel
  have hclash : clashingManifest.options = .error (.repeatedOutput 1 "b-c" "gen/a.go") := by decide +kernel
  obtain ⟨scope, -, hexpands⟩ := (manifest_expands fineManifest).2.1 _ hfine
  obtain ⟨i, hleast, hblames⟩ := (manifest_expands clashingManifest).2.2.1 .pattern _ List.mem_cons_self hclash
  refine ⟨⟨scope, _, hfine, hexpands⟩, hclash, ?_⟩
  cases hblames with
  | repeated e he hrepeats hwhy =>
    obtain ⟨rfl, -, -⟩ := RequestError.repeatedOutput.inj hwhy
    exact hleast
  | invalid e fault he hrepeats hfault hwhy => exact absurd hwhy (by simp)

end MatcherGen
