/-
Comments of the generated code. `commentText` makes any text fit on one comment line. A comment that stands directly above
a declaration, a `return` or an `if` is documentation and is set as such: blank lines at its ends go, a run of blank lines
inside is one, and doubled quotes become curly ones. Every comment loses the white space at its end.
-/
import MatcherGen.Text.Blank
import MatcherGen.Text.Glyph

namespace MatcherGen

/-- the text with line breaks spelled out and every comment end broken up, so that it stays inside one comment line -/
def commentText : Text → Text
  | [] => []
  | .scalar '\n' :: r => .scalar '\\' :: .scalar 'n' :: commentText r
  | .scalar '\r' :: r => .scalar '\\' :: .scalar 'r' :: commentText r
  | .scalar '*' :: .scalar '/' :: r => .scalar '*' :: .scalar '\\' :: .scalar '/' :: commentText r
  | g :: r => g :: commentText r

/-- the comment line for a text; a text that already starts with the mark is taken as it is. No comment of a matcher
starts with the mark of a block comment, and there is no rule for one here. -/
def commentLine (text : List Char) : List Char :=
  match text with
  | '/' :: '/' :: _ => text
  | _ => '/' :: '/' :: ' ' :: text

/-- the text of a comment line -/
def commentBody (line : List Char) : List Char :=
  match line.drop 2 with
  | ' ' :: r => r
  | r => r

/-- doubled quotes become curly ones; three back quotes in a row stay -/
def curlyQuotes : List Char → List Char
  | [] => []
  | '`' :: '`' :: '`' :: r => '`' :: '`' :: '`' :: curlyQuotes r
  | '`' :: '`' :: r => '“' :: curlyQuotes r
  | '\'' :: '\'' :: r => '”' :: curlyQuotes r
  | c :: r => c :: curlyQuotes r

/-- the spaces and tabs at the front -/
def indentation (s : List Char) : List Char := s.takeWhile fun c => c == ' ' || c == '\t'

/-- the longest common start of two texts -/
def commonStart : List Char → List Char → List Char
  | a :: r, b :: s => if a == b then a :: commonStart r s else []
  | _, _ => []

/-- drop blank lines at both ends -/
def trimBlankLines (lines : List (List Char)) : List (List Char) :=
  ((lines.dropWhile List.isEmpty).reverse.dropWhile List.isEmpty).reverse

/-- drop the indentation that all lines share -/
def unindent (lines : List (List Char)) : List (List Char) :=
  let filled := lines.filter fun l => !l.isEmpty
  match filled with
  | [] => []
  | first :: others =>
    let shared := others.foldl (fun acc l => commonStart acc (indentation l)) (indentation first)
    lines.map fun l => if l.all isBlank then [] else l.drop shared.length

/-- a run of blank lines counts as one -/
def squeezeBlankLines : List (List Char) → List (List Char)
  | [] :: [] :: r => squeezeBlankLines ([] :: r)
  | l :: r => l :: squeezeBlankLines r
  | [] => []

/-- comment lines set as documentation -/
def docLines (lines : List (List Char)) : List (List Char) :=
  let body := trimBlankLines (unindent (trimBlankLines (lines.map commentBody)))
  (squeezeBlankLines body).map fun l => if l.isEmpty then ['/', '/'] else commentLine (curlyQuotes l)

end MatcherGen
