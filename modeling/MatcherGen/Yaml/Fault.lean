/-
What can be wrong with a document before anyone asks what it means: a character that may not occur, characters that form
no token, tokens that form no tree, a name that nothing bears. Each fault has its cause and the lines it is reported with;
`Fault.message` has the wording.
-/
import MatcherGen.Text.Quoted

namespace MatcherGen.Yaml

/-- characters that form no token -/
inductive LexicalProblem where
  | tokenStart
  | valueHere
  | keyHere
  | entryHere
  | missingColon
  | tooDeep
  | directiveName
  | directiveNameEnd
  | unknownDirective
  | lineEnd
  | versionDot
  | versionLong
  | versionNumber
  | handleEnd
  | anchorName
  | tagEnd
  | tagClose
  | tagMark
  | tagAddress
  | tagOctet
  | tagLeadOctet
  | tagTailOctet
  | zeroIndent
  | tabInBlock
  | tabInPlain
  | documentMark
  | unclosedQuote
  | unknownEscape
  | escapeDigits
  | escapeCode
deriving DecidableEq, Repr

/-- the wording of a lexical problem -/
def LexicalProblem.message : LexicalProblem → String
  | .tokenStart => "found character that cannot start any token"
  | .valueHere => "mapping values are not allowed in this context"
  | .keyHere => "mapping keys are not allowed in this context"
  | .entryHere => "block sequence entries are not allowed in this context"
  | .missingColon => "could not find expected ':'"
  | .tooDeep => "exceeded max depth of 10000"
  | .directiveName => "could not find expected directive name"
  | .directiveNameEnd => "found unexpected non-alphabetical character"
  | .unknownDirective => "found unknown directive name"
  | .lineEnd => "did not find expected comment or line break"
  | .versionDot => "did not find expected digit or '.' character"
  | .versionLong => "found extremely long version number"
  | .versionNumber => "did not find expected version number"
  | .handleEnd => "did not find expected whitespace"
  | .anchorName => "did not find expected alphabetic or numeric character"
  | .tagEnd => "did not find expected whitespace or line break"
  | .tagClose => "did not find the expected '>'"
  | .tagMark => "did not find expected '!'"
  | .tagAddress => "did not find expected tag URI"
  | .tagOctet => "did not find URI escaped octet"
  | .tagLeadOctet => "found an incorrect leading UTF-8 octet"
  | .tagTailOctet => "found an incorrect trailing UTF-8 octet"
  | .zeroIndent => "found an indentation indicator equal to 0"
  | .tabInBlock => "found a tab character where an indentation space is expected"
  | .tabInPlain => "found a tab character that violates indentation"
  | .documentMark => "found unexpected document indicator"
  | .unclosedQuote => "found unexpected end of stream"
  | .unknownEscape => "found unknown escape character"
  | .escapeDigits => "did not find expected hexdecimal number"
  | .escapeCode => "found invalid Unicode character escape code"

/-- tokens that form no tree -/
inductive StructuralProblem where
  | documentStart
  | nodeContent
  | entryMark
  | key
  | sequenceClose
  | mappingClose
  | tagHandle
  | repeatedVersion
  | otherVersion
  | repeatedHandle
deriving DecidableEq, Repr

/-- the wording of a structural problem -/
def StructuralProblem.message : StructuralProblem → String
  | .documentStart => "did not find expected <document start>"
  | .nodeContent => "did not find expected node content"
  | .entryMark => "did not find expected '-' indicator"
  | .key => "did not find expected key"
  | .sequenceClose => "did not find expected ',' or ']'"
  | .mappingClose => "did not find expected ',' or '\x7d'"
  | .tagHandle => "found undefined tag handle"
  | .repeatedVersion => "found duplicate %YAML directive"
  | .otherVersion => "found incompatible YAML document"
  | .repeatedHandle => "found duplicate %TAG directive"

/-- why a document cannot be read; lines count from zero, `within` is where the construct at hand began and `spot` is where
the problem shows -/
inductive Fault where
  | character
  | lexical (problem : LexicalProblem) (within spot : Nat)
  | structural (problem : StructuralProblem) (within spot : Nat)
  | unknownAnchor (name : List Char)
  | containsItself (name : List Char)
  | otherKind (found : String) (text : List Char) (wanted : String)
  | mergeWantsMapping
  | badBase64
deriving DecidableEq, Repr

/-- a problem with its line; the line of the construct is preferred, and line zero is not shown -/
def located (within spot shift : Nat) (text : String) : String :=
  let line := if within ≠ 0 then within else spot
  if line = 0 then text else "line " ++ decimalString (line + shift) ++ ": " ++ text

/-- the wording of a fault -/
def Fault.message : Fault → String
  | .character => "control characters are not allowed"
  | .lexical p within spot => located within spot 1 p.message
  | .structural p within spot => located within spot 0 p.message
  | .unknownAnchor name => "unknown anchor '" ++ String.ofList name ++ "' referenced"
  | .containsItself name => "anchor '" ++ String.ofList name ++ "' value contains itself"
  | .otherKind found text wanted => "cannot decode " ++ found ++ " `" ++ String.ofList text ++ "` as a " ++ wanted
  | .mergeWantsMapping => "map merge requires map or sequence of maps as the value"
  | .badBase64 => "!!binary value contains invalid base64 data"

end MatcherGen.Yaml
