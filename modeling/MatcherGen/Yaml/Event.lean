/-
Tokens as events: scalars, references, and the starts and ends of collections, in document order. The reader is a machine
that knows what it expects next and what it expects after that; a step takes tokens and gives one event. Only the first
document of a stream is read.
-/
import MatcherGen.Yaml.Token

namespace MatcherGen.Yaml

/-- what may stand in front of a node's content -/
structure Properties where
  anchor : Option (List Char)
  /-- the tag, empty for none -/
  tag : List Char
  line : Nat
deriving DecidableEq, Repr

/-- an event -/
inductive Event where
  | documentStart
  | documentEnd
  | streamEnd
  | reference (name : List Char) (line : Nat)
  | scalar (properties : Properties) (text : List Char) (plain : Bool)
  | sequenceStart (properties : Properties)
  | sequenceEnd
  | mappingStart (properties : Properties)
  | mappingEnd
deriving DecidableEq, Repr

/-- what is expected next -/
inductive Expect where
  | documentStart
  | documentContent
  | documentEnd
  | blockNode
  | blockEntry (first : Bool)
  | indentlessEntry
  | blockKey (first : Bool)
  | blockValue
  | flowEntry (first : Bool)
  | pairKey
  | pairValue
  | pairEnd
  | flowKey (first : Bool)
  | flowValue
  | emptyFlowValue
  | nothing
deriving DecidableEq, Repr

/-- a document being read as events -/
structure EventStream where
  tokens : TokenStream
  expect : Expect
  /-- what is expected after the node at hand, innermost first -/
  pending : List Expect
  /-- the lines where the open collections began, innermost first -/
  opened : List Nat
  /-- the tag handles of the document -/
  handles : List (List Char × List Char)

/-- one step: an event and the stream after it -/
abbrev EventStep := Except Fault (Event × EventStream)

/-- the tag handles that every document has -/
def defaultHandles : List (List Char × List Char) :=
  [("!".toList, "!".toList), ("!!".toList, "tag:yaml.org,2002:".toList)]

namespace EventStream

/-- the stream before its first document -/
def start (s : List Char) : EventStream := ⟨TokenStream.start s, .documentStart, [], [], []⟩

/-- the next token -/
def peek (s : EventStream) : Except Fault (TokenKind × Nat × EventStream) := do
  let (kind, line, tokens) ← s.tokens.peek
  return (kind, line, { s with tokens := tokens })

/-- take the next token -/
def skip (s : EventStream) : EventStream := { s with tokens := s.tokens.skip }

/-- a node is finished: go on with what was pending -/
def resume (s : EventStream) : EventStream :=
  match s.pending with
  | e :: more => { s with expect := e, pending := more }
  | [] => { s with expect := .nothing }

/-- a collection is finished -/
def close (s : EventStream) : EventStream := { s.resume with opened := s.opened.drop 1 }

/-- expect `e` after the node that comes -/
def after (s : EventStream) (e : Expect) : EventStream := { s with pending := e :: s.pending }

/-- a structural fault inside the innermost open collection -/
def fault (s : EventStream) (p : StructuralProblem) (spot : Nat) : Fault := .structural p (s.opened.headD 0) spot

/-- a scalar that is not there -/
def absent (s : EventStream) (line : Nat) (next : Expect) : EventStep :=
  .ok (.scalar ⟨none, [], line⟩ [] true, { s with expect := next })

/-! ## Nodes -/

/-- an anchor and a tag, in either order -/
structure RawProperties where
  anchor : Option (List Char)
  tag : Option (List Char × List Char × Nat)
  line : Nat

/-- the properties in front -/
def rawProperties (s : EventStream) : Except Fault (RawProperties × EventStream) := do
  let (kind, line, s) ← s.peek
  match kind with
  | .anchor name =>
    let (kind, tagLine, s) ← s.skip.peek
    match kind with
    | .tag handle suffix => return (⟨some name, some (handle, suffix, tagLine), line⟩, s.skip)
    | _ => return (⟨some name, none, line⟩, s)
  | .tag handle suffix =>
    let (kind, _, s) ← s.skip.peek
    match kind with
    | .anchor name => return (⟨some name, some (handle, suffix, line), line⟩, s.skip)
    | _ => return (⟨none, some (handle, suffix, line), line⟩, s)
  | _ => return (⟨none, none, line⟩, s)

/-- the tag in full: the handle gives way to what it stands for -/
def fullTag (s : EventStream) (p : RawProperties) : Except Fault (List Char) :=
  match p.tag with
  | none => .ok []
  | some (handle, suffix, line) =>
    if handle.isEmpty then .ok suffix
    else
      match s.handles.find? fun h => h.1 == handle with
      | some (_, lead) => if (lead ++ suffix).isEmpty then .error (.structural .tagHandle p.line line) else .ok (lead ++ suffix)
      | none => .error (.structural .tagHandle p.line line)

/-- a node; `block` allows block collections, `indentless` a sequence at the indentation of its key -/
def node (s : EventStream) (block indentless : Bool) : EventStep := do
  let (kind, line, s) ← s.peek
  match kind with
  | .reference name => return (.reference name line, s.skip.resume)
  | _ =>
    let (raw, s) ← s.rawProperties
    let tag ← s.fullTag raw
    let p : Properties := ⟨raw.anchor, tag, raw.line⟩
    let (kind, line, s) ← s.peek
    match kind, block, indentless with
    | .blockEntry, _, true => return (.sequenceStart p, { s with expect := .indentlessEntry })
    | .scalar text plain, _, _ => return (.scalar p text plain, s.skip.resume)
    | .flowSequenceStart, _, _ => return (.sequenceStart p, { s with expect := .flowEntry true })
    | .flowMappingStart, _, _ => return (.mappingStart p, { s with expect := .flowKey true })
    | .blockSequenceStart, true, _ => return (.sequenceStart p, { s with expect := .blockEntry true })
    | .blockMappingStart, true, _ => return (.mappingStart p, { s with expect := .blockKey true })
    | _, _, _ =>
      if raw.anchor.isSome || !tag.isEmpty then return (.scalar p [] true, s.resume)
      else throw (.structural .nodeContent raw.line line)

/-! ## Documents -/

/-- the directives in front of a document -/
def directives : Nat → Bool → EventStream → Except Fault EventStream
  | 0, _, s => .ok s
  | fuel + 1, versioned, s => do
    let (kind, line, s) ← s.peek
    match kind with
    | .version major minor =>
      if versioned then throw (.structural .repeatedVersion 0 line)
      if major != 1 || minor != 1 then throw (.structural .otherVersion 0 line)
      directives fuel true s.skip
    | .handle name lead =>
      if s.handles.any fun h => h.1 == name then throw (.structural .repeatedHandle 0 line)
      directives fuel versioned { s.skip with handles := s.handles ++ [(name, lead)] }
    | _ => return { s with handles := s.handles ++ defaultHandles.filter fun h => !s.handles.any fun g => g.1 == h.1 }

/-- the start of the document, or the end of a stream without one -/
def documentStart (s : EventStream) : EventStep := do
  let (_, _, s) ← s.peek
  let s := s.skip
  let (kind, _, s) ← s.peek
  match kind with
  | .streamEnd => return (.streamEnd, { s with expect := .nothing })
  | .version _ _ | .handle _ _ | .documentStart =>
    let s ← directives (s.tokens.cursor.rest.length + 4) false s
    let (kind, line, s) ← s.peek
    match kind with
    | .documentStart => return (.documentStart, { s.skip.after .documentEnd with expect := .documentContent })
    | _ => throw (.structural .documentStart 0 line)
  | _ => return (.documentStart, { s.after .documentEnd with expect := .blockNode, handles := defaultHandles })

/-- the content of a document after its marker -/
def documentContent (s : EventStream) : EventStep := do
  let (kind, line, s) ← s.peek
  match kind with
  | .version _ _ | .handle _ _ | .documentStart | .documentEnd | .streamEnd =>
    let s := s.resume
    s.absent line s.expect
  | _ => s.node true false

/-- the end of the document -/
def documentEnd (s : EventStream) : EventStep := do
  let (_, _, s) ← s.peek
  return (.documentEnd, { s with expect := .nothing })

/-! ## Block collections -/

/-- an entry of a block sequence -/
def blockEntry (s : EventStream) (first : Bool) : EventStep := do
  let (_, line, s) ← s.peek
  let s := if first then { s.skip with opened := line :: s.opened } else s
  let (kind, line, s) ← s.peek
  match kind with
  | .blockEntry =>
    let (kind, _, s) ← s.skip.peek
    match kind with
    | .blockEntry | .blockEnd => s.absent line (.blockEntry false)
    | _ => (s.after (.blockEntry false)).node true false
  | .blockEnd => return (.sequenceEnd, s.skip.close)
  | _ => throw (s.fault .entryMark line)

/-- an entry of a sequence at the indentation of its key -/
def indentlessEntry (s : EventStream) : EventStep := do
  let (kind, line, s) ← s.peek
  match kind with
  | .blockEntry =>
    let (kind, _, s) ← s.skip.peek
    match kind with
    | .blockEntry | .key | .value | .blockEnd => s.absent line .indentlessEntry
    | _ => (s.after .indentlessEntry).node true false
  | _ => return (.sequenceEnd, s.resume)

/-- a key of a block mapping -/
def blockKey (s : EventStream) (first : Bool) : EventStep := do
  let (_, line, s) ← s.peek
  let s := if first then { s.skip with opened := line :: s.opened } else s
  let (kind, line, s) ← s.peek
  match kind with
  | .key =>
    let (kind, _, s) ← s.skip.peek
    match kind with
    | .key | .value | .blockEnd => s.absent line .blockValue
    | _ => (s.after .blockValue).node true true
  | .blockEnd => return (.mappingEnd, s.skip.close)
  | _ => throw (s.fault .key line)

/-- a value of a block mapping -/
def blockValue (s : EventStream) : EventStep := do
  let (kind, line, s) ← s.peek
  match kind with
  | .value =>
    let (kind, _, s) ← s.skip.peek
    match kind with
    | .key | .value | .blockEnd => s.absent line (.blockKey false)
    | _ => (s.after (.blockKey false)).node true true
  | _ => s.absent line (.blockKey false)

/-! ## Flow collections -/

/-- pass the comma in front of an entry that is not the first, or say that the collection should have ended -/
def comma (s : EventStream) (first : Bool) (p : StructuralProblem) : Except Fault EventStream := do
  let (kind, line, s) ← s.peek
  if first then return s
  match kind with
  | .flowEntry => return s.skip
  | _ => throw (s.fault p line)

/-- an entry of a flow sequence; a key in it makes a mapping of one pair -/
def flowEntry (s : EventStream) (first : Bool) : EventStep := do
  let (_, line, s) ← s.peek
  let s := if first then { s.skip with opened := line :: s.opened } else s
  let (kind, _, s) ← s.peek
  match kind with
  | .flowSequenceEnd => return (.sequenceEnd, s.skip.close)
  | _ =>
    let s ← s.comma first .sequenceClose
    let (kind, line, s) ← s.peek
    match kind with
    | .key => return (.mappingStart ⟨none, [], line⟩, { s.skip with expect := .pairKey })
    | .flowSequenceEnd => return (.sequenceEnd, s.skip.close)
    | _ => (s.after (.flowEntry false)).node false false

/-- the key of a pair in a flow sequence -/
def pairKey (s : EventStream) : EventStep := do
  let (kind, line, s) ← s.peek
  match kind with
  | .value | .flowEntry | .flowSequenceEnd => s.skip.absent line .pairValue
  | _ => (s.after .pairValue).node false false

/-- the value of a pair in a flow sequence -/
def pairValue (s : EventStream) : EventStep := do
  let (kind, line, s) ← s.peek
  match kind with
  | .value =>
    let (kind, line, s) ← s.skip.peek
    match kind with
    | .flowEntry | .flowSequenceEnd => s.absent line .pairEnd
    | _ => (s.after .pairEnd).node false false
  | _ => s.absent line .pairEnd

/-- the end of a pair in a flow sequence -/
def pairEnd (s : EventStream) : EventStep := do
  let (_, _, s) ← s.peek
  return (.mappingEnd, { s with expect := .flowEntry false })

/-- a key of a flow mapping; a key without a value has an absent one -/
def flowKey (s : EventStream) (first : Bool) : EventStep := do
  let (_, line, s) ← s.peek
  let s := if first then { s.skip with opened := line :: s.opened } else s
  let (kind, _, s) ← s.peek
  match kind with
  | .flowMappingEnd => return (.mappingEnd, s.skip.close)
  | _ =>
    let s ← s.comma first .mappingClose
    let (kind, _, s) ← s.peek
    match kind with
    | .key =>
      let (kind, line, s) ← s.skip.peek
      match kind with
      | .value | .flowEntry | .flowMappingEnd => s.absent line .flowValue
      | _ => (s.after .flowValue).node false false
    | .flowMappingEnd => return (.mappingEnd, s.skip.close)
    | _ => (s.after .emptyFlowValue).node false false

/-- a value of a flow mapping -/
def flowValue (s : EventStream) : EventStep := do
  let (kind, line, s) ← s.peek
  match kind with
  | .value =>
    let (kind, line, s) ← s.skip.peek
    match kind with
    | .flowEntry | .flowMappingEnd => s.absent line (.flowKey false)
    | _ => (s.after (.flowKey false)).node false false
  | _ => s.absent line (.flowKey false)

/-! ## Steps and runs -/

/-- one event -/
def step (s : EventStream) : EventStep :=
  match s.expect with
  | .documentStart => s.documentStart
  | .documentContent => s.documentContent
  | .documentEnd => s.documentEnd
  | .blockNode => s.node true false
  | .blockEntry first => s.blockEntry first
  | .indentlessEntry => s.indentlessEntry
  | .blockKey first => s.blockKey first
  | .blockValue => s.blockValue
  | .flowEntry first => s.flowEntry first
  | .pairKey => s.pairKey
  | .pairValue => s.pairValue
  | .pairEnd => s.pairEnd
  | .flowKey first => s.flowKey first
  | .flowValue => s.flowValue
  | .emptyFlowValue => do
    let (_, line, s) ← s.peek
    s.absent line (.flowKey false)
  | .nothing => .ok (.streamEnd, s)

end EventStream

/-- the events of a document, up to its end or to the first fault -/
structure Events where
  events : List Event
  fault : Option Fault

/-- run the machine to the end of the document -/
def Events.run : Nat → EventStream → Events
  | 0, _ => ⟨[], none⟩
  | fuel + 1, s =>
    match s.step with
    | .error f => ⟨[], some f⟩
    | .ok (.documentEnd, _) => ⟨[.documentEnd], none⟩
    | .ok (.streamEnd, _) => ⟨[.streamEnd], none⟩
    | .ok (e, s) =>
      let more := run fuel s
      ⟨e :: more.events, more.fault⟩

/-- the events of the first document; a character stands for four events at most. A leading byte order mark does not
count -/
def Events.ofText (s : List Char) : Events :=
  let s := match s with
    | '\ufeff' :: r => r
    | s => s
  if s.all isDocumentChar then run (8 * (s.length + 4)) (EventStream.start s) else ⟨[], some .character⟩

end MatcherGen.Yaml
