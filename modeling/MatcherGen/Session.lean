/-
Making code from a request. A session reads the pattern once, logs what it found, and generates as often as it is asked;
every time adds one more part to the same file. `Options.compile` is the whole of it: the request is checked, a session
is opened and generates once, to its output file or as text.
-/
import MatcherGen.Code.File
import MatcherGen.Log
import MatcherGen.Options
import MatcherGen.Pattern.Reader
import MatcherGen.Storage.Disk
import MatcherGen.Text.CaseMap

namespace MatcherGen

/-- a matcher in the making -/
structure Session where
  options : Options
  reading : Reading
  analysis : Analysis
  /-- how often code was generated -/
  generated : Nat

/-- why no code came out -/
inductive GenerateError where
  | render (e : RenderError)
  /-- the code for a file could not be rendered -/
  | saveRender (e : RenderError)
  /-- the file could not be written -/
  | saveWrite (e : FileError)
deriving DecidableEq, Repr

/-- the wording of a generation error -/
def GenerateError.message : GenerateError → String
  | .render e => "failed to render code: " ++ String.ofList e.message
  | .saveRender e => "failed to save file: " ++ String.ofList e.message
  | .saveWrite e => "failed to save file: " ++ e.message

/-- the notes at the top of a file: input left over, problems that were only remarked on, and a warning -/
def Reading.notes (r : Reading) (nested : Bool) : List Text :=
  (if r.complete then []
    else [Text.ofChars ("unconsumed input at offset ".toList ++ decimal r.offset ++ ": ".toList ++ quoted r.leftover)]) ++
  (r.diagnostics.filter (fun d => !d.stub)).map (fun d => commentText (Text.ofChars d.line)) ++
  if nested then [Text.ofString "warning: nested quantifiers may backtrack exponentially"] else []

namespace Session

/-- open a session on a pattern that was read -/
def start (o : Options) (reading : Reading) : Session :=
  { options := { o with runtime := if o.runtime == "" then defaultRuntime else o.runtime }
    reading := reading
    analysis := reading.root.analysis
    generated := 0 }

/-- how the session emits -/
def style (s : Session) : Style :=
  { scope := s.options.scope, legacy := s.options.legacy, strict := s.options.strict, flags := s.reading.flags }

/-- who writes the session's log -/
def logger (s : Session) : Logger := ⟨s.options.verbose, s.options.name⟩

/-- what opening the session has to say, one message for each entry of the log -/
def openingMessages (s : Session) : List Text :=
  let title (t : String) : Text := sectionTitle (Text.ofString t)
  let number (n : Int) : String := decimalString n
  let bool (b : Bool) : String := if b then "true" else "false"
  [title "Parse",
    Text.ofString "Pattern: " ++ s.options.pattern,
    Text.ofString
      ("Consumed: " ++ number s.reading.offset ++ " of " ++ number s.reading.pattern.length ++ " characters"),
    Text.ofString ("Flags after parse: fold=" ++ bool s.reading.flags.fold ++ " dotall=" ++ bool s.reading.flags.dotAll)] ++
  s.reading.diagnostics.map (fun d => Text.ofString "Diagnostic: " ++ Text.ofChars d.line) ++
  [title "Pattern Analysis",
    Text.ofString ("Features: " ++ ", ".intercalate (s.analysis.features.map Feature.label)),
    Text.ofString ("Has nested quantifiers: " ++ bool s.analysis.nested),
    Text.ofString ("Stubs: " ++ number s.analysis.stubs),
    Text.ofString ("Minimum match length: " ++ number s.analysis.minLength.toInt),
    title "Emission",
    Text.ofString ("Flag scope: " ++ s.options.scope.label),
    Text.ofString (if s.options.legacy then "Alternation: legacy (outer continuation dropped in arms)"
      else "Alternation: outer continuation threaded into every arm"),
    Text.ofString (if s.options.strict then "Stubs: panic at run time" else "Stubs: comment and fall through")]

/-- what opening the session writes to the log, entry by entry -/
def openingWrites (s : Session) : List Text := s.openingMessages.map s.logger.entry

/-- what opening the session writes to the log -/
def openingLog (s : Session) : Text := s.openingWrites.flatten

/-- the statements that match the pattern -/
def body (s : Session) : Block := s.reading.root.body s.style

/-- one matcher -/
def part (s : Session) : FilePart :=
  let pattern := commentText s.options.pattern
  { header := Text.ofString "Code generated by regcps for pattern: " ++ pattern ++ Text.ofString ". DO NOT EDIT."
    notes := s.reading.notes s.analysis.nested
    typeName := upperFirst s.options.name.toList
    doc := Text.ofString "MatchString reports whether input matches " ++ pattern ++ Text.ofString "."
    body := s.body }

/-- the file after `n` times of generating -/
def file (s : Session) (n : Nat) : SourceFile :=
  { package := s.options.package.toList, runtime := s.options.runtime.toList, parts := List.replicate n s.part }

/-- the code after `n` times of generating -/
def render (s : Session) (n : Nat) : Except GenerateError (List Char) :=
  match (s.file n).render with
  | .error e => .error (if s.options.output == "" then .render e else .saveRender e)
  | .ok code => .ok code

/-- hand over code: as text, or to the output file -/
def deliver (s : Session) (code : List Char) (d : Disk) : Except GenerateError (List Char × Disk) :=
  if s.options.output == "" then .ok (code, d)
  else
    match d.write s.options.output (String.ofList code) with
    | .error e => .error (.saveWrite e)
    | .ok d => .ok ([], d)

/-- generate once more: the session after it, and the text or the store with the output file in it -/
def generate (s : Session) (d : Disk) : Session × Except GenerateError (List Char × Disk) :=
  let n := s.generated + 1
  let outcome :=
    match s.render n with
    | .error e => .error e
    | .ok code => s.deliver code d
  ({ s with generated := n }, outcome)

end Session

/-- why a request came to nothing -/
inductive CompileError where
  | options (e : OptionsError)
  | generate (e : GenerateError)
deriving DecidableEq, Repr

/-- the wording of a failed request -/
def CompileError.message : CompileError → String
  | .options e => "invalid options: " ++ e.message
  | .generate e => "failed to generate code: " ++ e.message

/-- what a request leaves behind: its log, the reading if the request was accepted, and the code and the store, or the
reason for having none -/
structure Compiled where
  log : Text
  reading : Option Reading
  outcome : Except CompileError (List Char × Disk)

/-- carry out a request, to the output file or, without one, as text -/
def Options.compile (o : Options) (d : Disk) : Compiled :=
  match o.validate with
  | .error e => ⟨[], none, .error (.options e)⟩
  | .ok () =>
    let reading := Reading.ofPattern o.pattern
    let s := Session.start o reading
    match (s.generate d).2 with
    | .error e => ⟨s.openingLog, some reading, .error (.generate e)⟩
    | .ok r => ⟨s.openingLog, some reading, .ok r⟩

/-- carry out a request as text, whatever the output file -/
def Options.compileText (o : Options) (d : Disk) : Compiled := { o with output := "" }.compile d

end MatcherGen
