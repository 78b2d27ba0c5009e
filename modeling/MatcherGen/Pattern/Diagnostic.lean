/-
What the reader has to say about a pattern. A problem either replaces a construct by a stub or is only noted; the wording
of all of them is in `Problem.message`.
-/
import MatcherGen.Text.Quoted

namespace MatcherGen

/-- the four kinds of look-around group -/
inductive Lookaround where
  | ahead
  | notAhead
  | behind
  | notBehind
deriving DecidableEq, Repr

/-- the words for a look-around group -/
def Lookaround.label : Lookaround → String
  | .ahead => "lookahead"
  | .notAhead => "negative lookahead"
  | .behind => "lookbehind"
  | .notBehind => "negative lookbehind"

/-- what can be wrong with a piece of a pattern; `text` is the piece as written -/
inductive Problem where
  | nothingToRepeat (c : Char)
  | malformedQuantifier (text : List Char)
  | danglingEscape
  | wordBoundary (text : List Char)
  | propertyClass (text : List Char)
  | namedBackreference (text : List Char)
  | backreference (text : List Char)
  | lookaround (kind : Lookaround) (text : List Char)
  | groupName (text : List Char)
  | scopedFlags (text : List Char)
  | groupForm (text : List Char)
  | flagNegation (text : List Char)
  | inlineFlag (c : Char) (text : List Char)
  | unterminatedGroup
  | unterminatedClass
  | invertedRange (text : List Char)
  | literalShorthand (letter : Char)
deriving DecidableEq, Repr

/-- does the problem replace its construct by a stub? -/
def Problem.isStub : Problem → Bool
  | .unterminatedGroup | .unterminatedClass | .invertedRange _ | .literalShorthand _ => false
  | _ => true

/-- the wording of a problem -/
def Problem.message : Problem → List Char
  | .nothingToRepeat c => "quantifier ".toList ++ [c] ++ " has nothing to repeat".toList
  | .malformedQuantifier text => "malformed quantifier ".toList ++ text
  | .danglingEscape => "dangling escape at end of pattern".toList
  | .wordBoundary text => "unsupported word boundary ".toList ++ text
  | .propertyClass text => "unsupported Unicode property class ".toList ++ text
  | .namedBackreference text => "unsupported named backreference ".toList ++ text
  | .backreference text => "unsupported backreference ".toList ++ text
  | .lookaround kind text => "unsupported ".toList ++ kind.label.toList ++ [' '] ++ text
  | .groupName text => "malformed group name ".toList ++ text
  | .scopedFlags text => "unsupported scoped flag group ".toList ++ text
  | .groupForm text => "unsupported group syntax ".toList ++ text
  | .flagNegation text => "unsupported flag negation ".toList ++ text
  | .inlineFlag c text => "unsupported inline flag ".toList ++ quotedCode c.toNat ++ " in ".toList ++ text
  | .unterminatedGroup => "unterminated group".toList
  | .unterminatedClass => "unterminated character class".toList
  | .invertedRange text => "inverted class range ".toList ++ text
  | .literalShorthand letter =>
    "escape class \\".toList ++ [letter] ++ " inside a character class is matched literally".toList

/-- a remark on the pattern at a character offset -/
structure Diagnostic where
  offset : Int
  message : List Char
  /-- the construct was replaced by a stub -/
  stub : Bool
deriving DecidableEq, Repr

/-- the remark for a problem found at `offset` -/
def Problem.at (p : Problem) (offset : Nat) : Diagnostic := ⟨offset, p.message, p.isStub⟩

/-- a remark as one line -/
def Diagnostic.line (d : Diagnostic) : List Char :=
  "offset ".toList ++ decimal d.offset ++ ": ".toList ++ d.message

end MatcherGen
