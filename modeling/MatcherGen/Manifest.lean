/-
Manifests: a batch of matchers described in one document. `Manifest.read` takes a document apart, `Manifest.options` turns
every entry into a request, or names the first entry that cannot be one. Entries may not share an output file.
-/
import MatcherGen.Options
import MatcherGen.Storage.Disk
import MatcherGen.Text.CaseMap
import MatcherGen.Yaml.Record

namespace MatcherGen

/-- one matcher of a manifest -/
structure Entry where
  name : String
  pattern : Text
  /-- the output file; empty for the name in lower case -/
  output : String
  /-- whether stubs are strict here, if the entry settles it -/
  strict : Option Bool

/-- a batch of matchers in one package -/
structure Manifest where
  package : String
  runtime : String
  outputDir : String
  scopeName : String
  legacy : Bool
  strict : Bool
  entries : List Entry
  /-- the directory that output files are below -/
  dir : String

/-- an entry without anything -/
def Entry.empty : Entry := ⟨"", [], "", none⟩

/-- a manifest without anything -/
def Manifest.empty : Manifest := ⟨"", "", "", "", false, false, [], ""⟩

/-! ## Reading -/

open Yaml in
/-- set a text field, unless nothing stands there -/
def setText {α : Type} (d : Document) (set : α → Text → α) (n : Yaml.Node) (record : α) : Extract α := do
  match ← textAt d n with
  | some t => return set record t
  | none => return record

open Yaml in
/-- set a switch, unless nothing stands there -/
def setSwitch {α : Type} (d : Document) (set : α → Bool → α) (n : Yaml.Node) (record : α) : Extract α := do
  match ← switchAt d n with
  | .set b => return set record b
  | _ => return record

/-- text as a string -/
def Text.string (t : Text) : String := String.ofList t.chars

open Yaml in
/-- how an entry is read -/
def Entry.recordType : RecordType Entry where
  label := "regcps.ManifestPattern"
  assign d field :=
    match field with
    | "name" => some (setText d fun e t => { e with name := t.string })
    | "pattern" => some (setText d fun e t => { e with pattern := t })
    | "output" => some (setText d fun e t => { e with output := t.string })
    | "strictStubs" => some fun n e => do
      match ← switchAt d n with
      | .set b => return { e with strict := some b }
      | .unset => return { e with strict := none }
      | .mistaken => return e
    | _ => none

open Yaml in
/-- how a manifest is read -/
def Manifest.recordType : RecordType Manifest where
  label := "regcps.Manifest"
  assign d field :=
    match field with
    | "package" => some (setText d fun m t => { m with package := t.string })
    | "runtime" => some (setText d fun m t => { m with runtime := t.string })
    | "outputDir" => some (setText d fun m t => { m with outputDir := t.string })
    | "flagScope" => some (setText d fun m t => { m with scopeName := t.string })
    | "legacyAlternation" => some (setSwitch d fun m b => { m with legacy := b })
    | "strictStubs" => some (setSwitch d fun m b => { m with strict := b })
    | "patterns" => some fun n m => do
      match ← recordsAt Entry.recordType Entry.empty d n with
      | some entries => return { m with entries := entries }
      | none => return m
    | _ => none

/-- why a text is no manifest -/
inductive ManifestError where
  | noDocument
  | fault (f : Yaml.Fault)
  | mistakes (ms : List Yaml.Mistake)
  | noEntries

/-- the wording of a manifest error -/
def ManifestError.message : ManifestError → Text
  | .noDocument => Text.ofString "failed to parse manifest: EOF"
  | .fault f => Text.ofString ("failed to parse manifest: yaml: " ++ f.message)
  | .mistakes ms =>
    Text.ofString "failed to parse manifest: yaml: unmarshal errors:" ++
      ms.flatMap fun m => Text.ofString "\n  " ++ m.message
  | .noEntries => Text.ofString "manifest has no patterns"

/-- read a manifest -/
def Manifest.read (s : List Char) : Except ManifestError Manifest :=
  match Yaml.Document.read s with
  | .error f => .error (.fault f)
  | .ok none => .error .noDocument
  | .ok (some d) =>
    match (Yaml.recordAt recordType empty d d.root).run [] with
    | .error f => .error (.fault f)
    | .ok (m, []) =>
      let m := m.getD empty
      if m.entries.isEmpty then .error .noEntries else .ok m
    | .ok (_, ms) => .error (.mistakes ms)

/-! ## Requests -/

/-- why a manifest gives no requests -/
inductive RequestError where
  | scope (e : UnknownScopeName)
  | repeatedOutput (index : Nat) (name output : String)
  | invalid (index : Nat) (name : String) (e : OptionsError)
deriving DecidableEq, Repr

/-- the wording of a request error -/
def RequestError.message : RequestError → String
  | .scope e => e.message
  | .repeatedOutput index name output =>
    "pattern " ++ decimalString index ++ " (" ++ name ++ "): output " ++ output ++ " is used twice"
  | .invalid index name e => "pattern " ++ decimalString index ++ " (" ++ name ++ "): " ++ e.message

/-- a string in lower case -/
def lowerString (s : String) : String := String.ofList (s.toList.map lowerChar)

/-- the output file of an entry -/
def Manifest.outputOf (m : Manifest) (e : Entry) : String :=
  joinPaths [m.dir, m.outputDir, if e.output == "" then lowerString e.name ++ ".go" else e.output]

/-- the package of a manifest -/
def Manifest.packageName (m : Manifest) : String := if m.package == "" then "main" else m.package

/-- the request of an entry -/
def Manifest.request (m : Manifest) (scope : FlagScope) (e : Entry) : Options :=
  { pattern := e.pattern, name := e.name, output := m.outputOf e, package := m.packageName, runtime := m.runtime
    scope := scope, legacy := m.legacy, strict := e.strict.getD m.strict, verbose := false }

/-- the requests of entries from `index` on; `used` are the output files before them -/
def Manifest.requestsFrom (m : Manifest) (scope : FlagScope) : Nat → List String → List Entry →
    Except RequestError (List Options)
  | _, _, [] => .ok []
  | index, used, e :: r =>
    let o := m.request scope e
    if used.contains o.output then .error (.repeatedOutput index e.name o.output)
    else
      match o.validate with
      | .error why => .error (.invalid index e.name why)
      | .ok () =>
        match m.requestsFrom scope (index + 1) (o.output :: used) r with
        | .error why => .error why
        | .ok more => .ok (o :: more)

/-- the requests of a manifest, one per entry in order -/
def Manifest.options (m : Manifest) : Except RequestError (List Options) :=
  match FlagScope.ofName m.scopeName with
  | .error e => .error (.scope e)
  | .ok scope => m.requestsFrom scope 0 [] m.entries

/-! ## Loading -/

/-- why a manifest file cannot be loaded -/
inductive LoadError where
  | unreadable (e : FileError)
  | invalid (path : String) (e : ManifestError)

/-- the wording of a load error -/
def LoadError.message : LoadError → Text
  | .unreadable e => Text.ofString ("failed to read manifest: " ++ e.message)
  | .invalid path e => Text.ofString (path ++ ": ") ++ e.message

/-- read the manifest at a path; its output files are below its directory -/
def Manifest.load (d : Disk) (path : String) : Except LoadError Manifest :=
  match d.read path with
  | .error e => .error (.unreadable e)
  | .ok s =>
    match Manifest.read s.toList with
    | .error e => .error (.invalid path e)
    | .ok m => .ok { m with dir := parentPath path }

end MatcherGen
