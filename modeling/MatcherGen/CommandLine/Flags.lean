/-
The flags of the command line. A flag begins with one or two dashes; its value follows an equals sign or is the next
argument, and a switch needs none. Flags end at the first argument that is none, or after two dashes alone.
-/
import MatcherGen.Text.Number
import MatcherGen.Text.Quoted

namespace MatcherGen

/-- what the command line asks for -/
structure Arguments where
  pattern : String
  name : String
  package : String
  output : String
  runtime : String
  scopeName : String
  legacy : Bool
  strict : Bool
  verbose : Bool
  dumpTree : Bool
  analyze : Bool
  manifests : List String
  /-- the flags that were given -/
  given : List String
  /-- the arguments after the flags -/
  rest : List String
deriving DecidableEq

/-- nothing asked for yet -/
def Arguments.default : Arguments :=
  { pattern := "", name := "Pattern", package := "main", output := "", runtime := "", scopeName := "pattern"
    legacy := false, strict := false, verbose := false, dumpTree := false, analyze := false
    manifests := [], given := [], rest := [] }

/-- what kind of value a flag has, and how it is set -/
inductive FlagKind where
  /-- a text, with its usual value -/
  | text (usual : String) (set : Arguments → String → Arguments)
  | switch (set : Arguments → Bool → Arguments)
  /-- a number that changes nothing but how fast the work is done -/
  | number
  /-- a text that may be given again -/
  | several (set : Arguments → String → Arguments)

/-- a flag -/
structure Flag where
  name : String
  kind : FlagKind
  usage : String

/-- all flags, in alphabetical order -/
def flags : List Flag :=
  [⟨"analyze", .switch fun a b => { a with analyze := b }, "print the pattern analysis and exit"⟩,
    ⟨"dump-ast", .switch fun a b => { a with dumpTree := b }, "print the parsed tree to stderr"⟩,
    ⟨"flag-scope", .text "pattern" fun a s => { a with scopeName := s }, "inline flag scope: pattern or positional"⟩,
    ⟨"jobs", .number, "concurrent manifest translations (default GOMAXPROCS)"⟩,
    ⟨"legacy-alternation", .switch fun a b => { a with legacy := b },
      "drop the rest of the pattern inside alternation arms"⟩,
    ⟨"manifest", .several fun a s => { a with manifests := a.manifests ++ [s] }, "yaml manifest glob (repeatable)"⟩,
    ⟨"name", .text "Pattern" fun a s => { a with name := s }, "generated type name"⟩,
    ⟨"output", .text "" fun a s => { a with output := s }, "output file (default stdout)"⟩,
    ⟨"package", .text "main" fun a s => { a with package := s }, "generated package name"⟩,
    ⟨"pattern", .text "" fun a s => { a with pattern := s },
      "regular expression to translate (or the first argument)"⟩,
    ⟨"runtime", .text "" fun a s => { a with runtime := s }, "import path of the matching runtime"⟩,
    ⟨"strict-stubs", .switch fun a b => { a with strict := b }, "panic at match time on unsupported constructs"⟩,
    ⟨"verbose", .switch fun a b => { a with verbose := b }, "log parse and analysis decisions to stderr"⟩]

/-! ## Usage -/

/-- the name of a kind of value; switches have none -/
def FlagKind.valueName : FlagKind → String
  | .text _ _ => " string"
  | .switch _ => ""
  | .number => " int"
  | .several _ => " value"

/-- the usual value in brackets, if there is one -/
def FlagKind.usualText : FlagKind → String
  | .text usual _ => if usual == "" then "" else " (default " ++ quotedString usual ++ ")"
  | _ => ""

/-- how a flag is used, on two lines -/
def Flag.help (f : Flag) : String :=
  "  -" ++ f.name ++ f.kind.valueName ++ "\n    \t" ++ f.usage ++ f.kind.usualText ++ "\n"

/-- how all flags are used -/
def usage : String := "Usage of regcps:\n" ++ String.join (flags.map Flag.help)

/-! ## Reading arguments -/

/-- why arguments cannot be read -/
inductive FlagError where
  | help
  | malformed (argument : String)
  | unknown (name : String)
  | badSwitch (name value : String)
  | badNumber (name value : String) (problem : NumberProblem)
  | missingValue (name : String)
deriving DecidableEq, Repr

/-- the wording of a flag error -/
def FlagError.message : FlagError → String
  | .help => "flag: help requested"
  | .malformed argument => "bad flag syntax: " ++ argument
  | .unknown name => "flag provided but not defined: -" ++ name
  | .badSwitch name value => "invalid boolean value " ++ quotedString value ++ " for -" ++ name ++ ": parse error"
  | .badNumber name value problem =>
    "invalid value " ++ quotedString value ++ " for flag -" ++ name ++ ": " ++
      match problem with
      | .malformed => "parse error"
      | .outOfRange => "value out of range"
  | .missingValue name => "flag needs an argument: -" ++ name

/-- what is printed for a flag error: its wording, unless help was asked for, and how the flags are used -/
def FlagError.report (e : FlagError) : String :=
  match e with
  | .help => usage
  | e => e.message ++ "\n" ++ usage

/-- a truth value as it is written for a switch -/
def readSwitch (s : String) : Option Bool :=
  if ["1", "t", "T", "TRUE", "true", "True"].contains s then some true
  else if ["0", "f", "F", "FALSE", "false", "False"].contains s then some false
  else none

/-- an argument: a flag with the value after its equals sign, the end of the flags, or something else -/
inductive Argument where
  | flag (name : String) (value : Option String)
  | flagsEnd
  | plain
  | malformed

/-- the name and the value of a flag without its dashes; a name has a character at least -/
def splitFlag (s : List Char) : Argument :=
  match s with
  | [] => .malformed
  | c :: r =>
    if c == '-' || c == '=' then .malformed
    else
      let name := c :: r.takeWhile (· != '=')
      match r.dropWhile (· != '=') with
      | [] => .flag (String.ofList name) none
      | _ :: value => .flag (String.ofList name) (some (String.ofList value))

/-- what an argument is -/
def Argument.ofString (s : String) : Argument :=
  match s.toList with
  | ['-', '-'] => .flagsEnd
  | '-' :: '-' :: r => splitFlag r
  | '-' :: c :: r => splitFlag (c :: r)
  | _ => .plain

/-- set a flag that was given a value -/
def Flag.set (f : Flag) (a : Arguments) (value : String) : Except FlagError Arguments :=
  let a := { a with given := f.name :: a.given }
  match f.kind with
  | .text _ set => .ok (set a value)
  | .several set => .ok (set a value)
  | .switch set =>
    match readSwitch value with
    | some b => .ok (set a b)
    | none => .error (.badSwitch f.name value)
  | .number =>
    match readInt64 value.toList with
    | .ok _ => .ok a
    | .error p => .error (.badNumber f.name value p)

/-- is a flag a switch, which takes no value from the next argument? -/
def Flag.isSwitch (f : Flag) : Bool :=
  match f.kind with
  | .switch _ => true
  | _ => false

/-- the flag with a name; two names ask for help instead -/
def findFlag (name : String) : Except FlagError Flag :=
  match flags.find? fun f => f.name == name with
  | some f => .ok f
  | none => .error (if name == "help" || name == "h" then .help else .unknown name)

/-- read arguments, on top of what was read -/
def readArguments (a : Arguments) : List String → Except FlagError Arguments
  | [] => .ok a
  | s :: r =>
    match Argument.ofString s with
    | .plain => .ok { a with rest := s :: r }
    | .flagsEnd => .ok { a with rest := r }
    | .malformed => .error (.malformed s)
    | .flag name value =>
      match findFlag name, value with
      | .error e, _ => .error e
      | .ok f, some v =>
        match f.set a v with
        | .error e => .error e
        | .ok a => readArguments a r
      | .ok f, none =>
        if f.isSwitch then
          match f.set a "true" with
          | .error e => .error e
          | .ok a => readArguments a r
        else
          match r with
          | [] => .error (.missingValue name)
          | v :: r =>
            match f.set a v with
            | .error e => .error e
            | .ok a => readArguments a r

end MatcherGen
