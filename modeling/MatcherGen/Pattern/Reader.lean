/-
Reading a pattern. The reader is a machine: its state holds the characters to come, the term being read, and the groups
that are still open; a step takes one atom with its quantifier, an arm boundary or a parenthesis. Every step takes at
least one character, so as many steps as there are characters reach the end. Reading never fails: it stops at the end of
the pattern or at a closing parenthesis that nothing opened, and groups still open at the end are closed there.
-/
import MatcherGen.Pattern.Piece

namespace MatcherGen

/-- an expression being read: the finished arms and the factors of the arm at hand -/
structure Branches where
  arms : List Node
  term : List Node

/-- the expression so far; a single arm stands alone -/
def Branches.node (b : Branches) : Node :=
  match b.arms with
  | [] => .seq b.term
  | arms => .alt (arms ++ [.seq b.term])

/-- add factors to the arm at hand -/
def Branches.push (b : Branches) (factors : List Node) : Branches := { b with term := b.term ++ factors }

/-- start the next arm -/
def Branches.nextArm (b : Branches) : Branches := ⟨b.arms ++ [.seq b.term], []⟩

/-- an open group: where it started, what it is, and the expression it stands in -/
structure OpenGroup where
  start : Nat
  capturing : Bool
  name : List Char
  outer : Branches

/-- the state of the reader -/
structure Reader where
  pos : Nat
  rest : List Char
  flags : Flags
  remarks : List Diagnostic
  /-- the open groups, the innermost first -/
  opened : List OpenGroup
  /-- the expression at hand, inside the innermost open group -/
  here : Branches

namespace Reader

/-- the state before the first character -/
def start (s : List Char) : Reader := ⟨0, s, ⟨false, false⟩, [], [], ⟨[], []⟩⟩

/-- move the cursor -/
def advance (r : Reader) (n : Nat) : Reader := { r with pos := r.pos + n, rest := r.rest.drop n }

/-- add an atom with the quantifier that follows it; a malformed quantifier leaves the atom and a stub -/
def addAtom (r : Reader) (atom : Node) : Reader :=
  match suffix r.rest with
  | .none => { r with here := r.here.push [atom] }
  | .quantity q size => { r with here := r.here.push [.rep atom q] }.advance size
  | .malformed size =>
    let p := Problem.malformedQuantifier (r.rest.take size)
    { r with here := r.here.push [atom, .stub p.message], remarks := r.remarks ++ [p.at r.pos] }.advance size

/-- take a piece and what follows it -/
def addPiece (r : Reader) (p : Piece) : Reader :=
  addAtom ({ r with flags := p.flags, remarks := r.remarks ++ p.remarks }.advance p.size) p.node

/-- open a group -/
def openGroup (r : Reader) (capturing : Bool) (name : List Char) (size : Nat) : Reader :=
  { r with opened := ⟨r.pos, capturing, name, r.here⟩ :: r.opened, here := ⟨[], []⟩ }.advance size

/-- one step, or nothing at the end and at a closing parenthesis that nothing opened -/
def step (r : Reader) : Option Reader :=
  match r.rest with
  | [] => none
  | '|' :: _ => some ({ r with here := r.here.nextArm }.advance 1)
  | ')' :: _ =>
    match r.opened with
    | [] => none
    | g :: outer =>
      some (addAtom ({ r with opened := outer, here := g.outer }.advance 1) (.group r.here.node g.capturing g.name))
  | '(' :: _ =>
    match groupStart r.flags r.pos r.rest with
    | .opens capturing name size => some (r.openGroup capturing name size)
    | .whole p => some (r.addPiece p)
  | c :: s => some (r.addPiece (atomPiece r.flags r.pos c s))

/-- at most `n` steps -/
def run : Nat → Reader → Reader
  | 0, r => r
  | n + 1, r =>
    match r.step with
    | none => r
    | some r' => run n r'

/-- close the groups still open, from the innermost out -/
def closeAll : List OpenGroup → Branches → List Diagnostic → Branches × List Diagnostic
  | [], here, remarks => (here, remarks)
  | g :: outer, here, remarks =>
    closeAll outer (g.outer.push [.group here.node g.capturing g.name])
      (remarks ++ [Problem.unterminatedGroup.at g.start])

end Reader

/-- what reading a pattern gives -/
structure Reading where
  pattern : Text
  root : Node
  diagnostics : List Diagnostic
  /-- the switches in force at the end -/
  flags : Flags
  /-- the offset at which reading stopped -/
  offset : Nat
  /-- the number of characters that were there to read -/
  length : Nat

/-- read a pattern -/
def Reading.ofPattern (pattern : Text) : Reading :=
  let s := pattern.chars
  let r := (Reader.start s).run s.length
  let (here, remarks) := Reader.closeAll r.opened r.here r.remarks
  { pattern := pattern, root := here.node, diagnostics := remarks, flags := r.flags, offset := r.pos, length := s.length }

namespace Reading

/-- was the whole pattern read? -/
def complete (r : Reading) : Bool := r.length ≤ r.offset

/-- the characters after the place where reading stopped -/
def leftover (r : Reading) : List Char := r.pattern.chars.drop r.offset

/-- the remarks that put a stub in the tree -/
def stubs (r : Reading) : List Diagnostic := r.diagnostics.filter (·.stub)

end Reading

end MatcherGen
