/-
The command line: one pattern to one matcher, or manifests to many. A run is a function of the arguments and the store. It
gives what is printed, what is said on the side, the store after it, and the reason if it failed.
-/
import MatcherGen.Batch
import MatcherGen.CommandLine.Flags
import MatcherGen.Manifest
import MatcherGen.Pattern.Listing
import MatcherGen.Pattern.Sexp
import MatcherGen.Storage.Glob

namespace MatcherGen

/-- why a run failed -/
inductive CommandError where
  | flags (e : FlagError)
  | flagWithManifest (name : String)
  | patternWithManifest (pattern : String)
  | jobsWithoutManifest
  | noPattern
  | scope (e : UnknownScopeName)
  | compile (e : CompileError)
  | glob (e : GlobError)
  | load (e : LoadError)
  | requests (path : String) (e : RequestError)
  | batch (e : BatchError)

/-- the wording of a failed run -/
def CommandError.message : CommandError → Text
  | .flags e => Text.ofString e.message
  | .flagWithManifest name => Text.ofString ("-" ++ name ++ " cannot be used with -manifest")
  | .patternWithManifest pattern => Text.ofString ("unexpected pattern " ++ quotedString pattern ++ " with -manifest")
  | .jobsWithoutManifest => Text.ofString "-jobs requires -manifest"
  | .noPattern => Text.ofString "a pattern is required"
  | .scope e => Text.ofString e.message
  | .compile e => Text.ofString e.message
  | .glob e => Text.ofString e.message
  | .load e => e.message
  | .requests path e => Text.ofString (path ++ ": " ++ e.message)
  | .batch e => Text.ofString e.message

/-- was help asked for? -/
def CommandError.isHelp : CommandError → Bool
  | .flags .help => true
  | _ => false

/-- what a run leaves behind -/
structure RunResult where
  /-- what is printed -/
  stdout : List Char
  /-- what is said on the side -/
  stderr : Text
  disk : Disk
  error : Option CommandError

namespace RunResult

/-- a run that has said something and changed nothing -/
def failed (d : Disk) (e : CommandError) (stderr : Text) : RunResult := ⟨[], stderr, d, some e⟩

end RunResult

/-! ## Reports -/

/-- a line that reports a problem of a reading -/
def diagnosticLine (front : String) (d : Diagnostic) : Text :=
  Text.ofString (front ++ if d.stub then "stub: " else "error: ") ++ Text.ofChars d.line ++ Text.ofString "\n"

/-- the problems of a reading, one line each -/
def Reading.report (r : Reading) (front : String) : Text :=
  r.diagnostics.flatMap (diagnosticLine front) ++
    if r.complete then []
    else
      Text.ofString (front ++ "error: unconsumed input at offset " ++ decimalString r.offset ++ ": " ++
        String.ofList (quoted r.leftover) ++ "\n")

/-- an analysis, one line each -/
def Analysis.report (a : Analysis) : List Char :=
  let line (label value : String) : String := label ++ ": " ++ value ++ "\n"
  (line "features" (", ".intercalate (a.features.map Feature.label)) ++
    line "nested quantifiers" (String.ofList (truth a.nested)) ++
    line "captures" (decimalString a.captures) ++
    line "stubs" (decimalString a.stubs) ++
    line "min match length" (decimalString a.minLength.toInt)).toList

/-- a tree, on one line and as a listing -/
def Node.report (n : Node) : Text := Text.ofChars (n.sexp ++ '\n' :: n.listingText)

/-! ## One pattern -/

/-- the request that the arguments make for a pattern -/
def Arguments.request (a : Arguments) (scope : FlagScope) (pattern : Text) : Options :=
  { pattern := pattern, name := a.name, output := a.output, package := a.package, runtime := a.runtime, scope := scope
    legacy := a.legacy, strict := a.strict, verbose := a.verbose }

/-- make a matcher of one pattern -/
def runPattern (a : Arguments) (pattern : Text) (d : Disk) : RunResult :=
  match FlagScope.ofName a.scopeName with
  | .error e => .failed d (.scope e) []
  | .ok scope =>
    let reading := Reading.ofPattern pattern
    let tree := if a.dumpTree then reading.root.report else []
    if a.analyze then ⟨reading.root.analysis.report, tree, d, none⟩
    else
      let t := (a.request scope pattern).compile d
      match t.outcome with
      | .error e => .failed d (.compile e) (tree ++ t.log)
      | .ok (code, d) =>
        let wrote := if a.output == "" then [] else Text.ofString ("wrote " ++ a.output ++ "\n")
        ⟨code, tree ++ t.log ++ reading.report "" ++ wrote, d, none⟩

/-! ## Manifests -/

/-- the flags that make no sense with manifests -/
def patternFlags : List String :=
  ["pattern", "name", "package", "output", "runtime", "flag-scope", "legacy-alternation", "strict-stubs", "dump-ast",
    "analyze"]

/-- the requests of one manifest file -/
def loadRequests (d : Disk) (verbose : Bool) (path : String) : Except CommandError (List Options) :=
  match Manifest.load d path with
  | .error e => .error (.load e)
  | .ok m =>
    match m.options with
    | .error e => .error (.requests path e)
    | .ok requests => .ok (requests.map fun o => { o with verbose := verbose })

/-- the requests of manifest files, one file after the other -/
def loadAllRequests (d : Disk) (verbose : Bool) : List String → Except CommandError (List Options)
  | [] => .ok []
  | path :: r =>
    match loadRequests d verbose path with
    | .error e => .error e
    | .ok requests =>
      match loadAllRequests d verbose r with
      | .error e => .error e
      | .ok more => .ok (requests ++ more)

/-- the requests of the manifests that globs name -/
def manifestRequests (a : Arguments) (d : Disk) : Except CommandError (List Options) :=
  match expandGlobs d a.manifests with
  | .error e => .error (.glob e)
  | .ok paths => loadAllRequests d a.verbose paths

/-- the line that reports a file -/
def Report.wroteLine (r : Report) : List Char := ("wrote " ++ r.options.output ++ " (" ++ r.options.name ++ ")\n").toList

/-- make matchers of the patterns of manifests -/
def runManifests (a : Arguments) (d : Disk) : RunResult :=
  match manifestRequests a d with
  | .error e => .failed d e []
  | .ok requests =>
    let b := compileAll requests false d
    match b.reports requests with
    | .error e => ⟨b.printed, b.log, b.disk, some (.batch e)⟩
    | .ok reports =>
      ⟨b.printed ++ reports.flatMap Report.wroteLine,
        b.log ++ reports.flatMap fun r => r.reading.report (r.options.name ++ ": "), b.disk, none⟩

/-! ## Runs -/

/-- run with the arguments read -/
def Arguments.run (a : Arguments) (d : Disk) : RunResult :=
  if !a.manifests.isEmpty then
    match patternFlags.find? a.given.contains with
    | some name => .failed d (.flagWithManifest name) []
    | none =>
      match a.rest with
      | p :: _ => .failed d (.patternWithManifest p) []
      | [] => runManifests a d
  else if a.given.contains "jobs" then .failed d .jobsWithoutManifest []
  else if a.given.contains "pattern" then runPattern a (Text.ofString a.pattern) d
  else
    match a.rest with
    | [] => .failed d .noPattern (Text.ofString usage)
    | p :: _ => runPattern a (Text.ofString p) d

/-- run the command line -/
def runCommand (args : List String) (d : Disk) : RunResult :=
  match readArguments .default args with
  | .error e => .failed d (.flags e) (Text.ofString e.report)
  | .ok a => a.run d

end MatcherGen
