/-
Documents as tokens. A `TokenStream` reads tokens on demand: a key is only known as such at the colon after it, so a token
that may begin a key is held back until its line ends or the colon is found, and two tokens are always read ahead. Block
structure is made visible by tokens of its own, which open and close with the indentation.
-/
import MatcherGen.Text.Glyph
import MatcherGen.Yaml.Scalar

namespace MatcherGen.Yaml

/-- a kind of token, with what it carries -/
inductive TokenKind where
  | streamStart
  | streamEnd
  | version (major minor : Nat)
  | handle (name lead : List Char)
  | documentStart
  | documentEnd
  | blockSequenceStart
  | blockMappingStart
  | blockEnd
  | flowSequenceStart
  | flowSequenceEnd
  | flowMappingStart
  | flowMappingEnd
  | blockEntry
  | flowEntry
  | key
  | value
  | reference (name : List Char)
  | anchor (name : List Char)
  | tag (handle suffix : List Char)
  | scalar (text : List Char) (plain : Bool)
deriving DecidableEq, Repr

/-- a token and the line it starts on -/
structure Token where
  kind : TokenKind
  line : Nat
deriving DecidableEq, Repr

/-- a place where a key may have begun: the number of its first token, and whether only a key may stand there -/
structure Candidate where
  number : Nat
  required : Bool
  index : Nat
  line : Nat
  column : Nat

/-- a document being read as tokens -/
structure TokenStream where
  cursor : Cursor
  started : Bool
  /-- tokens read and not yet taken -/
  queue : List Token
  /-- how many tokens were taken -/
  taken : Nat
  /-- the indentation at hand, and those around it -/
  indent : Int
  indents : List Int
  /-- may a key begin here? -/
  keyAllowed : Bool
  /-- the place where a key may have begun, inside the innermost brackets -/
  candidate : Option Candidate
  /-- the same for the brackets around, innermost first -/
  outer : List (Option Candidate)

namespace TokenStream

/-- the stream before its first token -/
def start (s : List Char) : TokenStream := ⟨Cursor.start s, false, [], 0, -1, [], true, none, []⟩

/-- is the cursor inside brackets? -/
def inFlow (s : TokenStream) : Bool := !s.outer.isEmpty

/-- a lexical fault at the cursor -/
def fault (s : TokenStream) (p : LexicalProblem) (within : Nat) : Fault := .lexical p within s.cursor.line

/-- add a token at the end of the queue -/
def push (s : TokenStream) (kind : TokenKind) (line : Nat) : TokenStream := { s with queue := s.queue ++ [⟨kind, line⟩] }

/-- put a token in front of the token with a number -/
def insert (s : TokenStream) (number : Nat) (kind : TokenKind) (line : Nat) : TokenStream :=
  let n := number - s.taken
  { s with queue := s.queue.take n ++ ⟨kind, line⟩ :: s.queue.drop n }

/-- add a token of `size` characters at the cursor -/
def pushHere (s : TokenStream) (kind : TokenKind) (size : Nat) : TokenStream :=
  { s.push kind s.cursor.line with cursor := Cursor.advance size s.cursor }

/-! ## Keys -/

/-- how far from its start a key may reach -/
def keyReach : Nat := 1024

/-- how deep brackets and blocks may nest -/
def depthLimit : Nat := 10000

/-- can the candidate still be a key? A key stands on one line. It is a fault if it cannot and only a key may stand there -/
def alive (s : TokenStream) (k : Candidate) : Except Fault Bool :=
  if k.line < s.cursor.line || k.index + keyReach < s.cursor.index then
    if k.required then .error (s.fault .missingColon k.line) else .ok false
  else .ok true

/-- give up the candidate -/
def dropCandidate (s : TokenStream) : Except Fault TokenStream :=
  match s.candidate with
  | some k => if k.required then .error (s.fault .missingColon k.line) else .ok { s with candidate := none }
  | none => .ok s

/-- a key may begin at the cursor -/
def saveCandidate (s : TokenStream) : Except Fault TokenStream :=
  if s.keyAllowed then do
    let required := !s.inFlow && s.indent == (s.cursor.column : Int)
    let k : Candidate := ⟨s.taken + s.queue.length, required, s.cursor.index, s.cursor.line, s.cursor.column⟩
    let s ← s.dropCandidate
    return { s with candidate := some k }
  else .ok s

/-! ## Indentation -/

/-- open a block at a column to the right of the indentation, in front of a token or at the end -/
def openBlock (s : TokenStream) (column : Nat) (number : Option Nat) (kind : TokenKind) (line : Nat) :
    Except Fault TokenStream :=
  if s.inFlow || (column : Int) ≤ s.indent then .ok s
  else
    let s := { s with indents := s.indent :: s.indents, indent := column }
    if depthLimit < s.indents.length then
      .error (s.fault .tooDeep (match s.candidate with | some k => k.line | none => 0))
    else
      match number with
      | some n => .ok (s.insert n kind line)
      | none => .ok (s.push kind line)

/-- close the blocks to the right of a column -/
def closeBlocksFrom (line : Nat) (column : Int) : List Int → TokenStream → TokenStream
  | [], s => s
  | outer :: more, s =>
    if column < s.indent then
      closeBlocksFrom line column more { s.push .blockEnd line with indent := outer, indents := more }
    else s

/-- close the blocks to the right of a column; brackets hold all blocks around them open -/
def closeBlocks (s : TokenStream) (line : Nat) (column : Int) : TokenStream :=
  if s.inFlow then s else closeBlocksFrom line column s.indents s

/-! ## White space and comments -/

/-- how far a comment is looked for -/
def commentReach : Nat := 512

/-- pass a comment, with the comments below it -/
def passComments : Nat → Cursor → Cursor
  | 0, c => c
  | fuel + 1, c =>
    let c := c.toLineEnd
    let gap := c.rest.takeWhile isGap
    if gap.length < commentReach && (c.rest.drop gap.length).head? == some '#' then
      passComments fuel (Cursor.advance gap.length c)
    else c

/-- pass a comment behind a token on the same line -/
def passLineComment (c : Cursor) : Cursor :=
  let gap := c.rest.takeWhile isSpaceOrTab
  if !c.fresh && gap.length < commentReach && (c.rest.drop gap.length).head? == some '#' then c.toLineEnd else c

/-- pass white space and comments; a tab counts as white space where no key may begin -/
def passGap : Nat → TokenStream → TokenStream
  | 0, s => s
  | fuel + 1, s =>
    let tabs := s.inFlow || !s.keyAllowed
    let c := s.cursor.dropWhile fun x => x == ' ' || (tabs && x == '\t')
    let c := if c.peek == '#' then passComments (c.rest.length + 1) c else c
    if isLineEnd c.peek then passGap fuel { s with cursor := c.lineEnd.2, keyAllowed := s.keyAllowed || !s.inFlow }
    else { s with cursor := c }

/-! ## Directives -/

/-- one of the two numbers of a version -/
def versionNumber (c : Cursor) : Except LexicalProblem (Nat × Cursor) :=
  let (digits, after) := c.takeWhile Char.isDigit
  if 2 < digits.length then .error .versionLong
  else if digits.isEmpty then .error .versionNumber
  else .ok (digits.foldl (fun n d => 10 * n + (d.toNat - 0x30)) 0, after)

/-- the octets of one escaped character in a tag -/
def escapedOctets : Nat → List Char → Except LexicalProblem (List UInt8)
  | 0, _ => .ok []
  | n + 1, s =>
    match s with
    | '%' :: a :: b :: r =>
      match hexNumber [a, b] with
      | some octet =>
        if 0x80 ≤ octet && octet < 0xc0 then (escapedOctets n r).map (octet.toUInt8 :: ·) else .error .tagTailOctet
      | none => .error .tagOctet
    | _ => .error .tagOctet

/-- one escaped character in a tag, and how many characters spell it -/
def escapedChar (s : List Char) : Except LexicalProblem (List Char × Nat) :=
  match s with
  | '%' :: a :: b :: r =>
    match hexNumber [a, b] with
    | none => .error .tagOctet
    | some octet =>
      let width := if octet < 0x80 then 1 else if octet < 0xc0 then 0 else if octet < 0xe0 then 2
        else if octet < 0xf0 then 3 else if octet < 0xf8 then 4 else 0
      if width == 0 then .error .tagLeadOctet
      else
        match escapedOctets (width - 1) r with
        | .error p => .error p
        | .ok more => .ok (Text.chars (Text.ofBytes (octet.toUInt8 :: more)), 3 * width)
  | _ => .error .tagOctet

/-- a character of a tag's address -/
def isAddressChar (c : Char) : Bool :=
  isWordChar c || [';', '/', '?', ':', '@', '&', '=', '+', '$', ',', '.', '!', '~', '*', '\'', '(', ')', '[', ']'].contains c

/-- the address of a tag: what it reads as, and the place behind it -/
def address : Nat → List Char → Cursor → Except LexicalProblem (List Char × Cursor)
  | 0, text, c => .ok (text, c)
  | fuel + 1, text, c =>
    if c.peek == '%' then
      match escapedChar c.rest with
      | .error p => .error p
      | .ok (chars, size) => address fuel (text ++ chars) (Cursor.advance size c)
    else if isAddressChar c.peek then address fuel (text ++ [c.peek]) c.next
    else .ok (text, c)

/-- an address that begins with `head`, which may not be empty on the whole -/
def addressAfter (head : List Char) (c : Cursor) : Except LexicalProblem (List Char × Cursor) :=
  match address (c.rest.length + 1) [] c with
  | .error p => .error p
  | .ok (text, after) =>
    if head.isEmpty && after.index == c.index then .error .tagAddress else .ok (head.drop 1 ++ text, after)

/-- the handle of a tag; a directive wants a whole one -/
def tagHandle (directive : Bool) (c : Cursor) : Except LexicalProblem (List Char × Cursor) :=
  if c.peek != '!' then .error .tagMark
  else
    let (name, after) := c.next.takeWhile isWordChar
    if after.peek == '!' then .ok ('!' :: name ++ ['!'], after.next)
    else if directive && !name.isEmpty then .error .tagMark
    else .ok ('!' :: name, after)

/-- the version that a directive gives -/
def versionDirective (c : Cursor) : Except LexicalProblem (TokenKind × Cursor) := do
  let (major, c) ← versionNumber (c.dropWhile isSpaceOrTab)
  if c.peek != '.' then throw .versionDot
  let (minor, c) ← versionNumber c.next
  return (.version major minor, c)

/-- the tag handle that a directive gives -/
def handleDirective (c : Cursor) : Except LexicalProblem (TokenKind × Cursor) := do
  let (name, c) ← tagHandle true (c.dropWhile isSpaceOrTab)
  if !isSpaceOrTab c.peek then throw .handleEnd
  let (lead, c) ← addressAfter [] (c.dropWhile isSpaceOrTab)
  if !gapAhead c.rest then throw .tagEnd
  return (.handle name lead, c)

/-- a directive, from its percent sign -/
def directive (c : Cursor) : Except LexicalProblem (TokenKind × Cursor) := do
  let (name, c) := c.next.takeWhile isWordChar
  if name.isEmpty then throw .directiveName
  if !gapAhead c.rest then throw .directiveNameEnd
  let (kind, c) ←
    if name == "YAML".toList then versionDirective c
    else if name == "TAG".toList then handleDirective c
    else throw .unknownDirective
  let c := c.dropWhile isSpaceOrTab
  let c := if c.peek == '#' then c.toLineEnd else c
  if !(c.atEnd || isLineEnd c.peek) then throw .lineEnd
  return (kind, c.lineEnd.2)

/-! ## Anchors and tags -/

/-- the name after an anchor's or a reference's sign -/
def anchorName (c : Cursor) : Except LexicalProblem (List Char × Cursor) :=
  let (name, after) := c.next.takeWhile isWordChar
  if !name.isEmpty && (gapAhead after.rest || ['?', ':', ',', ']', '\x7d', '%', '@', '`'].contains after.peek) then
    .ok (name, after)
  else .error .anchorName

/-- a tag, from its exclamation mark: a whole address in angles, or a handle and a suffix -/
def tag (c : Cursor) : Except LexicalProblem (TokenKind × Cursor) := do
  let (kind, c) ←
    if c.peekAt 1 == '<' then do
      let (suffix, c) ← addressAfter [] (Cursor.advance 2 c)
      if c.peek != '>' then throw .tagClose
      pure (TokenKind.tag [] suffix, c.next)
    else do
      let (handle, c) ← tagHandle false c
      if 1 < handle.length && handle.getLast? == some '!' then
        let (suffix, c) ← addressAfter [] c
        pure (TokenKind.tag handle suffix, c)
      else
        let (suffix, c) ← addressAfter handle c
        if suffix.isEmpty then pure (TokenKind.tag [] handle, c) else pure (TokenKind.tag ['!'] suffix, c)
  if !gapAhead c.rest then throw .tagEnd
  return (kind, c)

/-! ## Reading a token -/

/-- give a lexical problem its place -/
def place {α : Type} (s : TokenStream) (r : Except LexicalProblem α) : Except Fault α :=
  r.mapError fun p => s.fault p s.cursor.line

/-- the end of the document: all blocks close -/
def readEnd (s : TokenStream) : Except Fault TokenStream := do
  let c := s.cursor
  let c := if c.column == 0 then c else { c with column := 0, line := c.line + 1 }
  let s ← ({ s with cursor := c }.closeBlocks c.line (-1)).dropCandidate
  return { s with keyAllowed := false }.push .streamEnd c.line

/-- a directive: all blocks close -/
def readDirective (s : TokenStream) : Except Fault TokenStream := do
  let s ← (s.closeBlocks s.cursor.line (-1)).dropCandidate
  let (kind, c) ← s.place (directive s.cursor)
  return { s.push kind s.cursor.line with cursor := c, keyAllowed := false }

/-- a document marker: all blocks close -/
def readMarker (s : TokenStream) (kind : TokenKind) : Except Fault TokenStream := do
  let s ← (s.closeBlocks s.cursor.line (-1)).dropCandidate
  return { s with keyAllowed := false }.pushHere kind 3

/-- an opening bracket -/
def readOpening (s : TokenStream) (kind : TokenKind) : Except Fault TokenStream := do
  let s ← s.saveCandidate
  let s := { s with outer := s.candidate :: s.outer, candidate := none, keyAllowed := true }
  if depthLimit < s.outer.length then throw (s.fault .tooDeep s.cursor.line)
  return s.pushHere kind 1

/-- a closing bracket -/
def readClosing (s : TokenStream) (kind : TokenKind) : Except Fault TokenStream := do
  let s ← s.dropCandidate
  let s := match s.outer with
    | [] => s
    | k :: more => { s with candidate := k, outer := more }
  return { s with keyAllowed := false }.pushHere kind 1

/-- a comma between brackets -/
def readFlowEntry (s : TokenStream) : Except Fault TokenStream := do
  let s ← s.dropCandidate
  return { s with keyAllowed := true }.pushHere .flowEntry 1

/-- a dash -/
def readBlockEntry (s : TokenStream) : Except Fault TokenStream := do
  if !s.inFlow && !s.keyAllowed then throw (s.fault .entryHere s.cursor.line)
  let s ← s.openBlock s.cursor.column none .blockSequenceStart s.cursor.line
  let s ← s.dropCandidate
  return { s with keyAllowed := true }.pushHere .blockEntry 1

/-- a question mark -/
def readKey (s : TokenStream) : Except Fault TokenStream := do
  if !s.inFlow && !s.keyAllowed then throw (s.fault .keyHere s.cursor.line)
  let s ← s.openBlock s.cursor.column none .blockMappingStart s.cursor.line
  let s ← s.dropCandidate
  return { s with keyAllowed := !s.inFlow }.pushHere .key 1

/-- a colon: the candidate turns out to be a key, or a key was marked before -/
def readValue (s : TokenStream) : Except Fault TokenStream := do
  let key ← match s.candidate with
    | none => pure none
    | some k => do if ← s.alive k then pure (some k) else pure none
  match key with
  | some k =>
    let s := s.insert k.number .key k.line
    let s ← s.openBlock k.column (some k.number) .blockMappingStart k.line
    return { s with candidate := none, keyAllowed := false }.pushHere .value 1
  | none =>
    if !s.inFlow && !s.keyAllowed then throw (s.fault .valueHere s.cursor.line)
    let s ← s.openBlock s.cursor.column none .blockMappingStart s.cursor.line
    return { s with candidate := none, keyAllowed := !s.inFlow }.pushHere .value 1

/-- an anchor or a reference -/
def readAnchor (s : TokenStream) (kind : List Char → TokenKind) : Except Fault TokenStream := do
  let s ← s.saveCandidate
  let (name, c) ← s.place (anchorName s.cursor)
  return { s.push (kind name) s.cursor.line with cursor := c, keyAllowed := false }

/-- a tag -/
def readTag (s : TokenStream) : Except Fault TokenStream := do
  let s ← s.saveCandidate
  let (kind, c) ← s.place (tag s.cursor)
  return { s.push kind s.cursor.line with cursor := c, keyAllowed := false }

/-- a block scalar -/
def readBlockScalar (s : TokenStream) (literal : Bool) : Except Fault TokenStream := do
  let s ← s.dropCandidate
  let (text, c) ← blockScalar literal s.indent s.cursor
  return { s.push (.scalar text false) s.cursor.line with cursor := c, keyAllowed := true }

/-- a quoted scalar -/
def readQuoted (s : TokenStream) (single : Bool) : Except Fault TokenStream := do
  let s ← s.saveCandidate
  let (text, c) ← quotedScalar single s.cursor
  return { s.push (.scalar text false) s.cursor.line with cursor := c, keyAllowed := false }

/-- a plain scalar -/
def readPlain (s : TokenStream) : Except Fault TokenStream := do
  let s ← s.saveCandidate
  let p ← plainScalar s.inFlow (s.indent + 1).toNat s.cursor
  return { s.push (.scalar p.text true) s.cursor.line with cursor := p.after, keyAllowed := p.crossed }

/-- can a plain scalar begin with `c`, before `r`? -/
def startsPlain (flow : Bool) (c : Char) (r : List Char) : Bool :=
  if c == '-' then
    match r with
    | x :: _ => !isSpaceOrTab x
    | [] => true
  else if c == '?' || c == ':' then !flow && !gapAhead r
  else !(isGap c ||
    [',', '[', ']', '\x7b', '\x7d', '#', '&', '*', '!', '|', '>', '\'', '"', '%', '@', '`'].contains c)

/-- the token at the cursor, which is not at the end and not at a marker -/
def readInner (s : TokenStream) (c : Char) (r : List Char) : Except Fault TokenStream :=
  if c == '[' then s.readOpening .flowSequenceStart
  else if c == '\x7b' then s.readOpening .flowMappingStart
  else if c == ']' then s.readClosing .flowSequenceEnd
  else if c == '\x7d' then s.readClosing .flowMappingEnd
  else if c == ',' then s.readFlowEntry
  else if c == '-' && gapAhead r then s.readBlockEntry
  else if c == '?' && (s.inFlow || gapAhead r) then s.readKey
  else if c == ':' && (s.inFlow || gapAhead r) then s.readValue
  else if c == '*' then s.readAnchor .reference
  else if c == '&' then s.readAnchor .anchor
  else if c == '!' then s.readTag
  else if c == '|' && !s.inFlow then s.readBlockScalar true
  else if c == '>' && !s.inFlow then s.readBlockScalar false
  else if c == '\'' then s.readQuoted true
  else if c == '"' then s.readQuoted false
  else if startsPlain s.inFlow c r then s.readPlain
  else .error (s.fault .tokenStart s.cursor.line)

/-- pass the comment behind the token just read; a dash has none -/
def finish (s : TokenStream) : TokenStream :=
  match s.queue.getLast? with
  | some ⟨.blockEntry, _⟩ => s
  | _ => { s with cursor := passLineComment s.cursor }

/-- read on by one step, which adds tokens to the queue -/
def readMore (s : TokenStream) : Except Fault TokenStream :=
  if !s.started then .ok { s.push .streamStart 0 with started := true }
  else
    let line := s.cursor.line
    let s := passGap (s.cursor.rest.length + 1) s
    let s := s.closeBlocks line s.cursor.column
    match s.cursor.rest with
    | [] => s.readEnd
    | c :: r =>
      if s.cursor.column == 0 && c == '%' then s.readDirective
      else if s.cursor.atMarker then s.readMarker (if c == '-' then .documentStart else .documentEnd)
      else (s.readInner c r).map finish

/-! ## Taking tokens -/

/-- is the first token of the queue settled? Two more have to be known, and no key may begin with it any more -/
def settled (s : TokenStream) : Except Fault Bool :=
  if s.queue.length < 3 then .ok false
  else
    match (s.candidate :: s.outer).findSome? fun k => k.filter fun k => k.number == s.taken with
    | none => .ok true
    | some k => (s.alive k).map (!·)

/-- read until the first token is settled -/
def settle : Nat → TokenStream → Except Fault TokenStream
  | 0, s => .ok s
  | fuel + 1, s => do
    if ← s.settled then return s
    settle fuel (← s.readMore)

/-- the next token, which stays in the queue; every step but the last few takes a character -/
def peek (s : TokenStream) : Except Fault (TokenKind × Nat × TokenStream) := do
  let s ← settle (s.cursor.rest.length + 8) s
  match s.queue with
  | t :: _ => return (t.kind, t.line, s)
  | [] => return (.streamEnd, s.cursor.line, s)

/-- take the next token from the queue -/
def skip (s : TokenStream) : TokenStream := { s with queue := s.queue.drop 1, taken := s.taken + 1 }

end TokenStream

end MatcherGen.Yaml
