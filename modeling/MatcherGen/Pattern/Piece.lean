/-
The pieces of a pattern: escapes, classes, literal runs, quantifiers and the fronts of groups. Each is read off the front
of the remaining characters and says how many of them it takes, so the text of a piece is that many characters and the
rest follows after them. Nothing here fails: what cannot be rendered becomes a stub and a remark.
-/
import MatcherGen.Pattern.Diagnostic
import MatcherGen.Pattern.Node
import MatcherGen.Text.Letters

namespace MatcherGen

/-- an atom read off the front: its node, the remarks made on it in order, the switches in force after it and the number
of characters it takes -/
structure Piece where
  node : Node
  remarks : List Diagnostic
  flags : Flags
  size : Nat

/-- a piece without remarks that leaves the switches alone -/
def Piece.plain (flags : Flags) (node : Node) (size : Nat) : Piece := ⟨node, [], flags, size⟩

/-- a piece replaced by a stub -/
def Piece.stub (flags : Flags) (pos : Nat) (p : Problem) (size : Nat) : Piece :=
  ⟨.stub p.message, [p.at pos], flags, size⟩

/-! ## Characters -/

/-- the characters that end a literal run -/
def isMeta (c : Char) : Bool :=
  c ∈ ['^', '$', '.', '*', '+', '?', '(', ')', '[', ']', '{', '}', '\\', '|']

/-- the characters that start a quantifier -/
def isQuantifierStart (c : Char) : Bool :=
  c == '*' || c == '+' || c == '?' || c == '{'

/-- the letters of the shorthand classes -/
def isShorthand (c : Char) : Bool :=
  c == 'd' || c == 'D' || c == 'w' || c == 'W' || c == 's' || c == 'S'

/-- the control character that a letter stands for after a backslash -/
def controlEscape : Char → Option Char
  | 'n' => some '\n'
  | 't' => some '\t'
  | 'r' => some '\r'
  | 'f' => some '\x0c'
  | 'v' => some '\x0b'
  | _ => none

/-! ## Literal runs -/

/-- the number of characters of the literal run at the front: up to the next metacharacter, without the last one if a
quantifier follows, which then binds to that one alone -/
def runSize (s : List Char) : Nat :=
  let run := s.takeWhile fun c => !isMeta c
  match s.drop run.length with
  | c :: _ => if 1 < run.length && isQuantifierStart c then run.length - 1 else run.length
  | [] => run.length

/-! ## Escapes -/

/-- the number of characters up to and with the first `close`, or all of them -/
def sizeThrough (close : Char) : List Char → Nat
  | [] => 0
  | c :: r => if c == close then 1 else sizeThrough close r + 1

/-- the number of characters of an escape's argument: a name between `opener` and `close`, or a single character -/
def argumentSize (opener close : Char) : List Char → Nat
  | [] => 0
  | c :: r => if c == opener then sizeThrough close (c :: r) else 1

/-- the escape at the front of `'\\' :: s` -/
def escapePiece (flags : Flags) (pos : Nat) (s : List Char) : Piece :=
  match s with
  | [] => .stub flags pos .danglingEscape 1
  | c :: r =>
    let text (size : Nat) : List Char := ('\\' :: s).take size
    if isShorthand c then .plain flags (.esc c) 2
    else if c == 'A' then .plain flags (.anchor .textStart) 2
    else if c == 'z' then .plain flags (.anchor .textEnd) 2
    else if c == 'b' || c == 'B' then .stub flags pos (.wordBoundary (text 2)) 2
    else if c == 'p' || c == 'P' then
      let size := 2 + argumentSize '{' '}' r
      .stub flags pos (.propertyClass (text size)) size
    else if c == 'k' then
      let size := 2 + argumentSize '<' '>' r
      .stub flags pos (.namedBackreference (text size)) size
    else if '1' ≤ c && c ≤ '9' then
      let size := 2 + (r.takeWhile isAsciiDigit).length
      .stub flags pos (.backreference (text size)) size
    else .plain flags (.lit [(controlEscape c).getD c] flags.fold) 2

/-! ## Classes -/

/-- the member that an escaped character stands for inside a class -/
def classMember (c : Char) : Char := (controlEscape c).getD c

/-- the remark on a shorthand class inside a class, where it is an ordinary letter -/
def shorthandRemarks (pos : Nat) (c : Char) : List Diagnostic :=
  if isShorthand c then [(Problem.literalShorthand c).at pos] else []

/-- the remark on a range whose ends are the wrong way round -/
def rangeRemarks (pos : Nat) (lo hi : Char) (text : List Char) : List Diagnostic :=
  if hi < lo then [(Problem.invertedRange text).at pos] else []

/-- the body of a class: the class, the remarks, the number of characters taken and whether a bracket closed it -/
structure ClassBody where
  cls : CharClass
  remarks : List Diagnostic
  size : Nat
  closed : Bool

/-- read class members up to the closing bracket -/
def classBody (acc : ClassBody) (pos : Nat) : List Char → ClassBody
  | [] => acc
  | ']' :: _ => { acc with size := acc.size + 1, closed := true }
  | ['\\'] => { acc with cls := acc.cls.addSingle '\\'.toNat, size := acc.size + 1 }
  | '\\' :: c :: r =>
    classBody
      { acc with
        cls := acc.cls.addSingle (classMember c).toNat
        remarks := acc.remarks ++ shorthandRemarks pos c
        size := acc.size + 2 }
      (pos + 2) r
  | [lo, '-', '\\'] =>
    { acc with
      cls := acc.cls.addRange lo.toNat '\\'.toNat
      remarks := acc.remarks ++ rangeRemarks pos lo '\\' [lo, '-', '\\']
      size := acc.size + 3 }
  | lo :: '-' :: '\\' :: c :: r =>
    classBody
      { acc with
        cls := acc.cls.addRange lo.toNat (classMember c).toNat
        remarks :=
          acc.remarks ++ shorthandRemarks (pos + 2) c ++ rangeRemarks pos lo (classMember c) [lo, '-', '\\', c]
        size := acc.size + 4 }
      (pos + 4) r
  | lo :: '-' :: hi :: r =>
    if hi == ']' then
      -- the hyphen is a member of its own
      { acc with cls := (acc.cls.addSingle lo.toNat).addSingle '-'.toNat, size := acc.size + 3, closed := true }
    else
      classBody
        { acc with
          cls := acc.cls.addRange lo.toNat hi.toNat
          remarks := acc.remarks ++ rangeRemarks pos lo hi [lo, '-', hi]
          size := acc.size + 3 }
        (pos + 3) r
  | lo :: r => classBody { acc with cls := acc.cls.addSingle lo.toNat, size := acc.size + 1 } (pos + 1) r

/-- the class at the front of `'[' :: s`; a missing bracket is only remarked on -/
def classPiece (flags : Flags) (pos : Nat) (s : List Char) : Piece :=
  let body :=
    match s with
    | '^' :: r => classBody ⟨⟨true, [], []⟩, [], 2, false⟩ (pos + 2) r
    | r => classBody ⟨⟨false, [], []⟩, [], 1, false⟩ (pos + 1) r
  let remarks := if body.closed then body.remarks else body.remarks ++ [Problem.unterminatedClass.at pos]
  ⟨.cls body.cls, remarks, flags, body.size⟩

/-! ## Groups -/

/-- the number of characters from an opening parenthesis past the one that closes it, and whether there is one; an
escaped parenthesis does not count -/
def balanced (depth : Nat) : List Char → Nat × Bool
  | [] => (0, false)
  | ['\\'] => (1, false)
  | '\\' :: _ :: r => let (n, ok) := balanced depth r; (n + 2, ok)
  | '(' :: r => let (n, ok) := balanced (depth + 1) r; (n + 1, ok)
  | ')' :: r => if depth ≤ 1 then (1, true) else let (n, ok) := balanced (depth - 1) r; (n + 1, ok)
  | _ :: r => let (n, ok) := balanced depth r; (n + 1, ok)

/-- skip the whole group `s` and put a stub in its place -/
def skippedGroup (flags : Flags) (pos : Nat) (problem : List Char → Problem) (s : List Char) : Piece :=
  let (size, closed) := balanced 0 s
  let p := problem (s.take size)
  let note := if closed then [] else [Problem.unterminatedGroup.at pos]
  ⟨.stub p.message, note ++ [p.at pos], flags, size⟩

/-- what an opening parenthesis starts: a group whose body follows after `size` characters, or a piece -/
inductive GroupStart where
  | opens (capturing : Bool) (name : List Char) (size : Nat)
  | whole (piece : Piece)

/-- the front of a named group; `s` is the group, and its name starts after `skip` characters -/
def namedGroup (flags : Flags) (pos skip : Nat) (s : List Char) : GroupStart :=
  let name := (s.drop skip).takeWhile isNameChar
  match name, s.drop (skip + name.length) with
  | _ :: _, '>' :: _ => .opens true name (skip + name.length + 1)
  | _, _ => .whole (skippedGroup flags pos .groupName s)

/-- the letters accepted in a flag group -/
def isFlagLetter (c : Char) : Bool := c == 'i' || c == 'm' || c == 's'

/-- the switches after a flag group with the given letters -/
def Flags.set (flags : Flags) (letters : List Char) : Flags :=
  { fold := flags.fold || letters.contains 'i', dotAll := flags.dotAll || letters.contains 's' }

/-- a group of the form `(?letters)`: it turns switches on for the rest of the pattern and matches nothing -/
def flagGroup (flags : Flags) (pos : Nat) (s : List Char) : Piece :=
  let letters := (s.drop 2).takeWhile fun c => isLetter c || c == '-'
  let skipped (problem : List Char → Problem) := skippedGroup flags pos problem s
  match letters, s.drop (2 + letters.length) with
  | _ :: _, ':' :: _ => skipped .scopedFlags
  | _ :: _, ')' :: _ =>
    if letters.contains '-' then skipped .flagNegation
    else
      match letters.find? fun c => !isFlagLetter c with
      | some c => skipped (.inlineFlag c)
      | none => .plain (flags.set letters) (.seq []) (2 + letters.length + 1)
  | _, _ => skipped .groupForm

/-- what the parenthesis at the front of `s` starts -/
def groupStart (flags : Flags) (pos : Nat) (s : List Char) : GroupStart :=
  match s.drop 1 with
  | '?' :: ':' :: _ => .opens false [] 3
  | '?' :: '=' :: _ => .whole (skippedGroup flags pos (.lookaround .ahead) s)
  | '?' :: '!' :: _ => .whole (skippedGroup flags pos (.lookaround .notAhead) s)
  | '?' :: '<' :: '=' :: _ => .whole (skippedGroup flags pos (.lookaround .behind) s)
  | '?' :: '<' :: '!' :: _ => .whole (skippedGroup flags pos (.lookaround .notBehind) s)
  | '?' :: 'P' :: '<' :: _ => namedGroup flags pos 4 s
  | '?' :: '<' :: _ => namedGroup flags pos 3 s
  | '?' :: _ => .whole (flagGroup flags pos s)
  | _ => .opens true [] 1

/-! ## Atoms other than groups -/

/-- the atom at the front of `c :: s`, where `c` opens no group and ends no term -/
def atomPiece (flags : Flags) (pos : Nat) (c : Char) (s : List Char) : Piece :=
  if c == '^' then .plain flags (.anchor .lineStart) 1
  else if c == '$' then .plain flags (.anchor .lineEnd) 1
  else if c == '.' then .plain flags (.dot flags.dotAll) 1
  else if c == '[' then classPiece flags pos s
  else if c == '\\' then escapePiece flags pos s
  else if c == '*' || c == '+' || c == '?' then .stub flags pos (.nothingToRepeat c) 1
  else if c == '{' || c == '}' || c == ']' then .plain flags (.lit [c] flags.fold) 1
  else
    let size := runSize (c :: s)
    .plain flags (.lit ((c :: s).take size) flags.fold) size

/-! ## Quantifiers -/

/-- the value of a run of decimal digits -/
def digitsValue (s : List Char) : Nat := s.foldl (fun n c => n * 10 + (c.toNat - '0'.toNat)) 0

/-- a repetition bound: a non-empty run of digits with a value that fits a signed 64-bit word -/
def bound? (digits : List Char) : Option Nat :=
  if digits.isEmpty || Nat.pow 2 63 ≤ digitsValue digits then none else some (digitsValue digits)

/-- the number of characters up to and with the next closing brace, unless a group or arm boundary comes first -/
def sizeToBrace : List Char → Option Nat
  | [] => none
  | c :: r =>
    if c == '}' then some 1
    else if c == '(' || c == ')' || c == '|' then none
    else (sizeToBrace r).map (· + 1)

/-- what follows an atom -/
inductive Suffix where
  | none
  | quantity (q : Quantity) (size : Nat)
  | malformed (size : Nat)

/-- the braces at the front of `'{' :: s`: operator and bounds if they are well formed, and the number of characters
taken -/
def braces (s : List Char) : Option (RepeatOp × Nat × Option Nat) × Nat :=
  let lo := s.takeWhile isAsciiDigit
  let afterLo := s.drop lo.length
  let bad (size : Nat) (rest : List Char) : Option (RepeatOp × Nat × Option Nat) × Nat :=
    (.none, size + (sizeToBrace rest).getD 0)
  match bound? lo with
  | .none => bad (1 + lo.length) afterLo
  | some n =>
    match afterLo with
    | '}' :: _ => (some (.exact, n, some n), 1 + lo.length + 1)
    | ',' :: '}' :: _ => (some (.atLeast, n, .none), 1 + lo.length + 2)
    | ',' :: r =>
      let hi := r.takeWhile isAsciiDigit
      let afterHi := r.drop hi.length
      let size := 1 + lo.length + 1 + hi.length
      match bound? hi, afterHi with
      | some m, '}' :: _ => if m < n then (.none, size + 1) else (some (.between, n, some m), size + 1)
      | _, _ => bad size afterHi
    | _ => bad (1 + lo.length) afterLo

/-- a quantifier of `size` characters, with the question mark after it that makes it lazy -/
def Suffix.withLaziness (op : RepeatOp) (min max : Int64) (size : Nat) (rest : List Char) : Suffix :=
  match rest with
  | '?' :: _ => .quantity ⟨op, min, max, false⟩ (size + 1)
  | _ => .quantity ⟨op, min, max, true⟩ size

/-- the quantifier at the front, if there is one -/
def suffix (s : List Char) : Suffix :=
  match s with
  | '*' :: r => .withLaziness .star 0 0 1 r
  | '+' :: r => .withLaziness .plus 0 0 1 r
  | '?' :: r => .withLaziness .quest 0 0 1 r
  | '{' :: r =>
    match braces r with
    | (some (op, lo, hi), size) =>
      .withLaziness op (Int64.ofNat lo) (match hi with | some n => Int64.ofNat n | .none => -1) size (s.drop size)
    | (.none, size) => .malformed size
  | _ => .none

end MatcherGen
