/-
A generated source file: header lines, package clause, imports, and one part per time the file was generated into. A part
has notes, the matcher's type, a value of it and its method. A file is refused when its first line holds a character that
no source file may hold; the header repeats the pattern, so this is where such a character shows first. The comments below
it repeat parts of the pattern. A tree put together by hand, with such a character in a stub and none in the pattern, is not
refused.
-/
import MatcherGen.Code.Layout

namespace MatcherGen

/-- one matcher in a file -/
structure FilePart where
  header : Text
  notes : List Text
  typeName : List Char
  doc : Text
  /-- the statements that match the pattern -/
  body : Block

/-- a source file -/
structure SourceFile where
  package : List Char
  /-- the import path of the matching runtime -/
  runtime : List Char
  parts : List FilePart

/-- characters that no source file may hold -/
inductive IllegalGlyph where
  | nul
  | byteOrderMark
  | encoding
deriving DecidableEq, Repr

/-- the wording for an illegal character -/
def IllegalGlyph.message : IllegalGlyph → String
  | .nul => "illegal character NUL"
  | .byteOrderMark => "illegal byte order mark"
  | .encoding => "illegal UTF-8 encoding"

/-- is the glyph illegal, and why? -/
def Glyph.illegal? : Glyph → Option IllegalGlyph
  | .stray _ => some .encoding
  | .scalar c =>
    if c.toNat = 0 then some .nul else if c.toNat = 0xfeff then some .byteOrderMark else none

/-- the first illegal character of a line with its column, counted in bytes from `column` -/
def firstIllegal (column : Nat) : Text → Option (Nat × IllegalGlyph)
  | [] => none
  | g :: r =>
    match g.illegal? with
    | some why => some (column, why)
    | none => firstIllegal (column + g.bytes.length) r

/-- a file that cannot be rendered: the column in its first line, and the reason -/
structure RenderError where
  column : Nat
  cause : IllegalGlyph
deriving DecidableEq, Repr

/-- the wording of a rendering error -/
def RenderError.message (e : RenderError) : List Char :=
  "Error 1:".toList ++ decimal e.column ++ ": ".toList ++ e.cause.message.toList

/-- the alias under which the runtime is imported -/
def runtimeAlias : List Char := "backtrack".toList

/-- the package of the predicates on characters -/
def testsPath : List Char := "unicode".toList

/-- the import path that cannot take an alias -/
def foreignPath : List Char := "C".toList

namespace SourceFile

/-- the names of the packages inside the file: a runtime that is the package of the predicates lends it its alias -/
def packageNames (f : SourceFile) : PackageNames :=
  { runtime := if f.runtime == foreignPath then foreignPath else runtimeAlias
    tests := if f.runtime == testsPath then runtimeAlias else testsPath }

/-- the import of the runtime -/
def runtimeImport (f : SourceFile) : List Char :=
  (if f.runtime == foreignPath then [] else runtimeAlias ++ [' ']) ++ quoted f.runtime

/-- does the file need the package of the predicates besides the runtime? -/
def needsTests (f : SourceFile) : Bool :=
  f.runtime != testsPath && f.parts.any fun p => Stmt.anyUsesTests p.body

/-- the imports; two of them stand in a block in the order of their paths -/
def imports (f : SourceFile) : List Char :=
  if f.needsTests then
    let tests := quoted testsPath
    let lines := if f.runtime < testsPath then [f.runtimeImport, tests] else [tests, f.runtimeImport]
    "import (\n".toList ++ lines.flatMap (fun l => '\t' :: (l ++ ['\n'])) ++ ")\n".toList
  else "import ".toList ++ f.runtimeImport ++ ['\n']

/-- the blank line under comment lines; a form feed in the last of them takes its place -/
def gapUnder (lines : List (List Char)) : List Char :=
  match lines.getLast? with
  | some l => if (trimEnd l).contains '\x0c' then [] else ['\n']
  | none => []

/-- a part of the file -/
def partText (names : PackageNames) (p : FilePart) : List Char :=
  let notes := p.notes.map fun t => commentLine t.chars
  let call : Stmt := .ret (.method .runMatch [.thunk p.body])
  let create : Stmt := .define [.matcher] (.newMatcher (.name .input))
  commentLines 0 notes ++ gapUnder notes ++
    "type ".toList ++ p.typeName ++ " struct\x7b\x7d\n\n".toList ++
    "var Compiled".toList ++ p.typeName ++ " = ".toList ++ p.typeName ++ "\x7b\x7d\n\n".toList ++
    commentLines 0 (docLines [commentLine p.doc.chars]) ++
    "func (".toList ++ p.typeName ++ ") MatchString(input string) bool \x7b\n".toList ++
    Block.text names 1 [create] ++ ['\n'] ++ Block.text names 1 [call] ++ "\x7d\n".toList

/-- the text of the file, whatever its characters -/
def text (f : SourceFile) : List Char :=
  let headers := f.parts.map fun p => commentLine p.header.chars
  commentLines 0 headers ++ gapUnder headers ++
    "package ".toList ++ f.package ++ "\n\n".toList ++ f.imports ++
    f.parts.flatMap fun p => '\n' :: partText f.packageNames p

/-- the first line of the file as it is checked -/
def firstLine (f : SourceFile) : Text :=
  match f.parts with
  | [] => []
  | p :: _ => Text.ofString "// " ++ p.header

/-- the text of the file, unless its first line holds an illegal character -/
def render (f : SourceFile) : Except RenderError (List Char) :=
  match firstIllegal 1 f.firstLine with
  | some (column, cause) => .error ⟨column, cause⟩
  | none => .ok f.text

end SourceFile

/-- a function `body` with the given statements, as it stands alone -/
def bodyFunction (body : Block) : List Char :=
  "func body() bool \x7b\n".toList ++ Block.text ⟨runtimeAlias, testsPath⟩ 1 body ++ "\x7d".toList

end MatcherGen
