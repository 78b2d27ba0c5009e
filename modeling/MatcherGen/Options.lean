/-
A request for a matcher, and which requests are accepted. The checks are made in a fixed order and the first that
fails is reported.
-/
import MatcherGen.Emission.Emit
import MatcherGen.Text.Letters
import MatcherGen.Text.Quoted

namespace MatcherGen

/-- the number of a flag scope -/
def FlagScope.ofCode (n : Int) : FlagScope :=
  if n = 0 then .pattern else if n = 1 then .positional else .other n

/-- the name of a flag scope -/
def FlagScope.label : FlagScope → String
  | .pattern => "pattern"
  | .positional => "positional"
  | .other n => "FlagScope(" ++ decimalString n ++ ")"

/-- the number of a flag scope -/
def FlagScope.code : FlagScope → Int
  | .pattern => 0
  | .positional => 1
  | .other n => n

/-- a flag scope name that nobody knows -/
structure UnknownScopeName where
  name : String
deriving DecidableEq, Repr

/-- the wording for an unknown flag scope name -/
def UnknownScopeName.message (e : UnknownScopeName) : String :=
  "unknown flag scope " ++ quotedString e.name ++ " (want pattern or positional)"

/-- the flag scope with a name; the empty name is the default -/
def FlagScope.ofName (name : String) : Except UnknownScopeName FlagScope :=
  if name == "" || name == "pattern" then .ok .pattern
  else if name == "positional" then .ok .positional
  else .error ⟨name⟩

/-- a request for one matcher -/
structure Options where
  pattern : Text
  /-- the name of the generated type -/
  name : String
  /-- the file to write; empty for none -/
  output : String
  /-- the package of the generated code -/
  package : String
  /-- the import path of the runtime; empty for the default -/
  runtime : String
  scope : FlagScope
  legacy : Bool
  strict : Bool
  verbose : Bool
deriving DecidableEq

/-- the runtime that generated code uses by default -/
def defaultRuntime : String := "github.com/KromDaniel/backtrack"

/-- the words that no Go identifier may be -/
def goKeywords : List String :=
  ["break", "case", "chan", "const", "continue", "default", "defer", "else", "fallthrough", "for", "func", "go", "goto",
    "if", "import", "interface", "map", "package", "range", "return", "select", "struct", "switch", "type", "var"]

/-- a Go identifier: a letter or an underscore, then letters, digits and underscores, and no keyword -/
def isGoIdentifier (s : String) : Bool :=
  match s.toList with
  | [] => false
  | c :: r => (c == '_' || isLetter c) && r.all isNameChar && !goKeywords.contains s

/-- why a request is turned down -/
inductive OptionsError where
  | emptyName
  | badName (name : String)
  | emptyPackage
  | badPackage (package : String)
  | unknownScope (code : Int)
deriving DecidableEq, Repr

/-- the wording of an options error -/
def OptionsError.message : OptionsError → String
  | .emptyName => "name cannot be empty"
  | .badName name => "name " ++ quotedString name ++ " is not a Go identifier"
  | .emptyPackage => "package cannot be empty"
  | .badPackage package => "package " ++ quotedString package ++ " is not a Go identifier"
  | .unknownScope code => "unknown flag scope " ++ decimalString code

/-- accept a request or say what is wrong with it -/
def Options.validate (o : Options) : Except OptionsError Unit :=
  if o.name == "" then .error .emptyName
  else if !isGoIdentifier o.name || o.name == "_" then .error (.badName o.name)
  else if o.package == "" then .error .emptyPackage
  else if !isGoIdentifier o.package then .error (.badPackage o.package)
  else
    match o.scope with
    | .other code => .error (.unknownScope code)
    | _ => .ok ()

end MatcherGen
