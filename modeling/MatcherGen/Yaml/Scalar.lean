/-
The text of scalars: plain, quoted and block. White space inside a scalar is a `Gap`; a gap that crosses one line end folds
into a space, one that crosses more keeps the line ends after the first.
-/
import MatcherGen.Yaml.Cursor
import MatcherGen.Yaml.Fault

namespace MatcherGen.Yaml

/-- white space inside a scalar -/
structure Gap where
  /-- the spaces and tabs before the first line end -/
  blanks : List Char
  /-- the line ends -/
  ends : List Char
  /-- was the first line end escaped, so that it does not count? -/
  escaped : Bool

/-- what a gap is worth in the value -/
def Gap.text (g : Gap) : List Char :=
  if g.escaped then g.ends
  else
    match g.ends with
    | [] => g.blanks
    | ['\n'] => [' ']
    | '\n' :: more => more
    | ends => ends

/-- has a gap crossed a line end? -/
def Gap.crossed (g : Gap) : Bool := g.escaped || !g.ends.isEmpty

/-- the spaces, tabs and line ends in front; at the start of a line, a tab to the left of `indent` is refused where it
stands -/
def gapFrom (indent : Nat) : Nat → Gap → Cursor → Except Cursor (Gap × Cursor)
  | 0, g, c => .ok (g, c)
  | fuel + 1, g, c =>
    if isSpaceOrTab c.peek then
      if g.crossed then
        if c.column < indent && c.peek == '\t' then .error c else gapFrom indent fuel g c.next
      else gapFrom indent fuel { g with blanks := g.blanks ++ [c.peek] } c.next
    else if isLineEnd c.peek then
      let (brk, c) := c.lineEnd
      gapFrom indent fuel { g with ends := g.ends ++ brk } c
    else .ok (g, c)

/-! ## Plain scalars -/

/-- a character that ends a plain scalar inside brackets -/
def endsPlainInFlow (c : Char) : Bool :=
  c == ',' || c == '?' || c == '[' || c == ']' || c == '\x7b' || c == '\x7d'

/-- the word in front: up to a gap, a colon before a gap, or, inside brackets, punctuation -/
def plainWord (flow : Bool) : List Char → List Char
  | [] => []
  | c :: r =>
    if isGap c || (c == ':' && gapAhead r) || (flow && endsPlainInFlow c) then []
    else c :: plainWord flow r

/-- a scalar as it was read: its text, whether a line end stands after it, and the place behind it -/
structure PlainScalar where
  text : List Char
  crossed : Bool
  after : Cursor

/-- the rest of a plain scalar, after `text` and a gap -/
def plainFrom (flow : Bool) (indent : Nat) : Nat → List Char → Gap → Cursor → Except Cursor PlainScalar
  | 0, text, gap, c => .ok ⟨text, gap.crossed, c⟩
  | fuel + 1, text, gap, c =>
    if c.atMarker || c.peek == '#' then .ok ⟨text, gap.crossed, c⟩
    else
      let word := plainWord flow c.rest
      if word.isEmpty then .ok ⟨text, gap.crossed, c⟩
      else
        let text := text ++ gap.text ++ word
        let c := Cursor.advance word.length c
        match gapFrom indent (c.rest.length + 1) ⟨[], [], false⟩ c with
        | .error spot => .error spot
        | .ok (gap, c) =>
          if !flow && c.column < indent then .ok ⟨text, gap.crossed, c⟩
          else plainFrom flow indent fuel text gap c

/-- a plain scalar -/
def plainScalar (flow : Bool) (indent : Nat) (c : Cursor) : Except Fault PlainScalar :=
  match plainFrom flow indent (c.rest.length + 1) [] ⟨[], [], false⟩ c with
  | .ok s => .ok s
  | .error spot => .error (.lexical .tabInPlain c.line spot.line)

/-! ## Quoted scalars -/

/-- the character that an escape letter stands for -/
def escapeValue : Char → Option Char
  | '0' => some '\x00'
  | 'a' => some '\x07'
  | 'b' => some '\x08'
  | 't' => some '\t'
  | '\t' => some '\t'
  | 'n' => some '\n'
  | 'v' => some '\x0b'
  | 'f' => some '\x0c'
  | 'r' => some '\r'
  | 'e' => some '\x1b'
  | ' ' => some ' '
  | '"' => some '"'
  | '\'' => some '\''
  | '\\' => some '\\'
  | 'N' => some '\u0085'
  | '_' => some '\u00a0'
  | 'L' => some '\u2028'
  | 'P' => some '\u2029'
  | _ => none

/-- how many hexadecimal digits follow an escape letter -/
def escapeWidth : Char → Option Nat
  | 'x' => some 2
  | 'u' => some 4
  | 'U' => some 8
  | _ => none

/-- the value of a hexadecimal digit -/
def hexValue (c : Char) : Option Nat :=
  let n := c.toNat
  if 0x30 ≤ n && n ≤ 0x39 then some (n - 0x30)
  else if 0x41 ≤ n && n ≤ 0x46 then some (n - 0x37)
  else if 0x61 ≤ n && n ≤ 0x66 then some (n - 0x57)
  else none

/-- the number that hexadecimal digits spell -/
def hexNumber (s : List Char) : Option Nat :=
  s.foldl (fun acc c => acc.bind fun n => (hexValue c).map fun d => 16 * n + d) (some 0)

/-- the character of an escape with a number -/
def codeEscape (width : Nat) (s : List Char) : Except LexicalProblem Char :=
  match if s.length < width then none else hexNumber (s.take width) with
  | none => .error .escapeDigits
  | some n => if n.isValidChar then .ok (Char.ofNat n) else .error .escapeCode

/-- what stands between two gaps of a quoted scalar: its text, whether an escaped line end came after it, and the place
behind it -/
structure QuotedPart where
  text : List Char
  escapedEnd : Bool
  after : Cursor

/-- the characters up to the closing quote or a gap -/
def quotedPart (single : Bool) : Nat → List Char → Cursor → Except (LexicalProblem × Cursor) QuotedPart
  | 0, text, c => .ok ⟨text, false, c⟩
  | fuel + 1, text, c =>
    match c.rest with
    | [] => .ok ⟨text, false, c⟩
    | x :: r =>
      if isGap x then .ok ⟨text, false, c⟩
      else if single then
        if x == '\'' then
          if r.head? == some '\'' then quotedPart single fuel (text ++ ['\'']) (Cursor.advance 2 c)
          else .ok ⟨text, false, c⟩
        else quotedPart single fuel (text ++ [x]) c.next
      else if x == '"' then .ok ⟨text, false, c⟩
      else if x == '\\' then
        match r with
        | [] => .error (.unknownEscape, c)
        | e :: _ =>
          if isLineEnd e then .ok ⟨text, true, c.next.lineEnd.2⟩
          else
            match escapeValue e with
            | some v => quotedPart single fuel (text ++ [v]) (Cursor.advance 2 c)
            | none =>
              match escapeWidth e with
              | none => .error (.unknownEscape, c)
              | some width =>
                let c := Cursor.advance 2 c
                match codeEscape width c.rest with
                | .error p => .error (p, c)
                | .ok v => quotedPart single fuel (text ++ [v]) (Cursor.advance width c)
      else quotedPart single fuel (text ++ [x]) c.next

/-- the rest of a quoted scalar, up to its closing quote -/
def quotedFrom (single : Bool) : Nat → List Char → Cursor → Except (LexicalProblem × Cursor) (List Char × Cursor)
  | 0, _, c => .error (.unclosedQuote, c)
  | fuel + 1, text, c =>
    if c.atMarker then .error (.documentMark, c)
    else if c.atEnd then .error (.unclosedQuote, c)
    else
      match quotedPart single (c.rest.length + 1) text c with
      | .error e => .error e
      | .ok part =>
        let c := part.after
        if c.peek == (if single then '\'' else '"') then .ok (part.text, c.next)
        else
          match gapFrom 0 (c.rest.length + 1) ⟨[], [], part.escapedEnd⟩ c with
          | .error spot => .error (.tabInPlain, spot)
          | .ok (gap, c) => quotedFrom single fuel (part.text ++ gap.text) c

/-- a quoted scalar, from its opening quote -/
def quotedScalar (single : Bool) (c : Cursor) : Except Fault (List Char × Cursor) :=
  match quotedFrom single (c.rest.length + 1) [] c.next with
  | .ok s => .ok s
  | .error (p, spot) => .error (.lexical p c.line spot.line)

/-! ## Block scalars -/

/-- what to do with the line ends at the end of a block scalar -/
inductive Chomping where
  | clip
  | strip
  | keep

/-- the chomping that a sign asks for -/
def Chomping.ofSign : Char → Option Chomping
  | '+' => some .keep
  | '-' => some .strip
  | _ => none

/-- the digit in front, as an indentation -/
def indentDigit (c : Cursor) : Except LexicalProblem (Option Nat × Cursor) :=
  if c.peek.isDigit then
    if c.peek == '0' then .error .zeroIndent else .ok (some (c.peek.toNat - 0x30), c.next)
  else .ok (none, c)

/-- the signs after the bar or the angle: chomping and indentation, in either order -/
def blockHeader (c : Cursor) : Except LexicalProblem (Chomping × Option Nat × Cursor) :=
  match Chomping.ofSign c.peek with
  | some chomping =>
    match indentDigit c.next with
    | .error p => .error p
    | .ok (indent, c) => .ok (chomping, indent, c)
  | none =>
    match indentDigit c with
    | .error p => .error p
    | .ok (none, c) => .ok (.clip, none, c)
    | .ok (some indent, c) =>
      match Chomping.ofSign c.peek with
      | some chomping => .ok (chomping, some indent, c.next)
      | none => .ok (.clip, some indent, c)

/-- the line ends before the next line of a block, with the indentation in front of it passed; without an indentation
`widest` collects the widest of the lines passed -/
def blockGap (indent : Option Nat) : Nat → Nat → List Char → Cursor → Except Cursor (List Char × Nat × Cursor)
  | 0, widest, ends, c => .ok (ends, widest, c)
  | fuel + 1, widest, ends, c =>
    let spaces := c.rest.takeWhile (· == ' ')
    let room := match indent with
      | none => spaces.length
      | some n => min spaces.length (n - c.column)
    let c := Cursor.advance room c
    let widest := max widest c.column
    let short := match indent with
      | none => true
      | some n => c.column < n
    if short && c.peek == '\t' then .error c
    else if isLineEnd c.peek then
      let (brk, c) := c.lineEnd
      blockGap indent fuel widest (ends ++ brk) c
    else .ok (ends, widest, c)

/-- the state of reading a block: its text, the line end after the last line, the line ends after that, and whether the last
line began with a blank -/
structure BlockText where
  text : List Char
  lastEnd : List Char
  ends : List Char
  leadingBlank : Bool

/-- the lines of a block at an indentation -/
def blockLines (literal : Bool) (indent : Nat) : Nat → BlockText → Cursor → Except Cursor (BlockText × Cursor)
  | 0, b, c => .ok (b, c)
  | fuel + 1, b, c =>
    if c.column != indent || c.atEnd then .ok (b, c)
    else
      let blank := isSpaceOrTab c.peek
      let joint :=
        if !literal && !b.leadingBlank && !blank && b.lastEnd == ['\n'] then
          if b.ends.isEmpty then [' '] else []
        else b.lastEnd
      let (line, c) := c.takeWhile fun x => !isLineEnd x
      let (brk, c) := c.lineEnd
      match blockGap (some indent) (c.rest.length + 1) 0 [] c with
      | .error spot => .error spot
      | .ok (ends, _, c) => blockLines literal indent fuel ⟨b.text ++ joint ++ b.ends ++ line, brk, ends, blank⟩ c

/-- a block scalar, from its bar or angle; `outer` is the indentation around it -/
def blockScalar (literal : Bool) (outer : Int) (c : Cursor) : Except Fault (List Char × Cursor) :=
  let fail (p : LexicalProblem) (spot : Cursor) : Fault := .lexical p c.line spot.line
  match blockHeader c.next with
  | .error p => .error (fail p c)
  | .ok (chomping, increment, head) =>
    let head := head.dropWhile isSpaceOrTab
    let head := if head.peek == '#' then head.toLineEnd else head
    if !(head.atEnd || isLineEnd head.peek) then .error (fail .lineEnd head)
    else
      let body := head.lineEnd.2
      let wanted := increment.map fun n => (max outer 0).toNat + n
      match blockGap wanted (body.rest.length + 1) 0 [] body with
      | .error spot => .error (fail .tabInBlock spot)
      | .ok (ends, widest, body) =>
        let indent := wanted.getD (max (max widest (outer + 1).toNat) 1)
        match blockLines literal indent (body.rest.length + 1) ⟨[], [], ends, false⟩ body with
        | .error spot => .error (fail .tabInBlock spot)
        | .ok (b, after) =>
          match chomping with
          | .strip => .ok (b.text, after)
          | .clip => .ok (b.text ++ b.lastEnd, after)
          | .keep => .ok (b.text ++ b.lastEnd ++ b.ends, after)

end MatcherGen.Yaml
