/-
A place in a document: the characters to come, with the line and column reached. Lines end at a carriage return, a line
feed, both together, or one of the three Unicode line ends.
-/

namespace MatcherGen.Yaml

/-- a space or a tab -/
def isSpaceOrTab (c : Char) : Bool := c == ' ' || c == '\t'

/-- a character that ends a line -/
def isLineEnd (c : Char) : Bool := c == '\n' || c == '\r' || c == '\u0085' || c == '\u2028' || c == '\u2029'

/-- a character that ends a word -/
def isGap (c : Char) : Bool := isSpaceOrTab c || isLineEnd c

/-- a character of anchor names and tag handles -/
def isWordChar (c : Char) : Bool := c.isAlphanum || c == '_' || c == '-'

/-- a character that may occur in a document -/
def isDocumentChar (c : Char) : Bool :=
  let n := c.toNat
  n == 9 || n == 10 || n == 13 || (0x20 ≤ n && n ≤ 0x7e) || n == 0x85 || (0xa0 ≤ n && n ≤ 0xd7ff) ||
    (0xe000 ≤ n && n ≤ 0xfffd && n != 0xfeff) || 0x10000 ≤ n

/-- the line end that a character stands for in the value of a scalar -/
def lineEndText (c : Char) : Char := if c == '\u2028' || c == '\u2029' then c else '\n'

/-- is there a gap, or the end of the document, in front? -/
def gapAhead (s : List Char) : Bool :=
  match s with
  | [] => true
  | c :: _ => isGap c

/-- a place in a document -/
structure Cursor where
  rest : List Char
  index : Nat
  line : Nat
  column : Nat
  /-- has a line ended since the last character that is neither space nor tab? -/
  fresh : Bool

namespace Cursor

/-- the start of a document -/
def start (s : List Char) : Cursor := ⟨s, 0, 0, 0, false⟩

/-- the character in front; a null character at the end -/
def peek (c : Cursor) : Char := c.rest.headD '\x00'

/-- the character `n` places ahead -/
def peekAt (c : Cursor) (n : Nat) : Char := c.rest.getD n '\x00'

/-- is the document at its end? -/
def atEnd (c : Cursor) : Bool := c.rest.isEmpty

/-- pass one character; of a carriage return and a line feed, the second ends the line -/
def next (c : Cursor) : Cursor :=
  match c.rest with
  | [] => c
  | x :: r =>
    if x == '\r' && r.head? == some '\n' then { c with rest := r, index := c.index + 1 }
    else if isLineEnd x then ⟨r, c.index + 1, c.line + 1, 0, true⟩
    else ⟨r, c.index + 1, c.line, c.column + 1, c.fresh && isSpaceOrTab x⟩

/-- pass `n` characters -/
def advance : Nat → Cursor → Cursor
  | 0, c => c
  | n + 1, c => advance n c.next

/-- take the characters in front that satisfy `p` -/
def takeWhile (p : Char → Bool) (c : Cursor) : List Char × Cursor :=
  let taken := c.rest.takeWhile p
  (taken, advance taken.length c)

/-- pass the characters in front that satisfy `p` -/
def dropWhile (p : Char → Bool) (c : Cursor) : Cursor := (c.takeWhile p).2

/-- pass everything up to the end of the line -/
def toLineEnd (c : Cursor) : Cursor := c.dropWhile fun x => !isLineEnd x

/-- take one line end, if there is one -/
def lineEnd (c : Cursor) : List Char × Cursor :=
  match c.rest with
  | '\r' :: '\n' :: _ => (['\n'], advance 2 c)
  | x :: _ => if isLineEnd x then ([lineEndText x], c.next) else ([], c)
  | [] => ([], c)

/-- does a document marker stand here: three dashes or three dots at the start of a line? -/
def atMarker (c : Cursor) : Bool :=
  c.column == 0 &&
    match c.rest with
    | '-' :: '-' :: '-' :: r => gapAhead r
    | '.' :: '.' :: '.' :: r => gapAhead r
    | _ => false

end Cursor

end MatcherGen.Yaml
