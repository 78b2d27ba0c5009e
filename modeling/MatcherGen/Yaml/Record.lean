/-
Documents as records. A place in a record wants a text, a switch, a list or a record; what stands there may be something
else. Such mistakes are collected with their lines and reading goes on, so that all are reported together; a `Fault` ends
the reading at once. A record may take over the fields of other mappings, those it has itself excepted.
-/
import MatcherGen.Yaml.Node

namespace MatcherGen.Yaml

/-- something in a document that is not what was wanted there -/
inductive Mistake where
  | otherKind (line : Nat) (tag : String) (value : List Char) (wanted : String)
  | unknownField (line : Nat) (field : Text) (record : String)
  | repeatedField (line : Nat) (field : Text) (record : String)
  | repeatedKey (line : Nat) (key : List Char) (first : Nat)

/-- the value in a message: back-quoted, and cut after seven bytes when it has more than ten; collections show none -/
def shownValue (tag : String) (value : List Char) : Text :=
  let bytes := Text.bytes (Text.ofChars value)
  if tag == "!!seq" || tag == "!!map" then Text.ofChars value
  else if 10 < bytes.length then Text.ofString " `" ++ Text.ofBytes (bytes.take 7) ++ Text.ofString "...`"
  else Text.ofString " `" ++ Text.ofChars value ++ Text.ofString "`"

/-- the wording of a mistake -/
def Mistake.message : Mistake → Text
  | .otherKind line tag value wanted =>
    Text.ofString ("line " ++ decimalString line ++ ": cannot unmarshal " ++ tag) ++ shownValue tag value ++
      Text.ofString (" into " ++ wanted)
  | .unknownField line field record =>
    Text.ofString ("line " ++ decimalString line ++ ": field ") ++ field ++
      Text.ofString (" not found in type " ++ record)
  | .repeatedField line field record =>
    Text.ofString ("line " ++ decimalString line ++ ": field ") ++ field ++
      Text.ofString (" already set in type " ++ record)
  | .repeatedKey line key first =>
    Text.ofString ("line " ++ decimalString line ++ ": mapping key " ++ String.ofList (quoted key) ++
      " already defined at line " ++ decimalString first)

/-- a reading that collects mistakes and may end in a fault -/
abbrev Extract := StateT (List Mistake) (Except Fault)

/-- note a mistake -/
def note (m : Mistake) : Extract Unit := modify (· ++ [m])

/-- a node that is not what was wanted -/
def noteKind (n : Node) (wanted : String) : Extract Unit := note (.otherKind n.line n.tag n.text wanted)

/-! ## Scalars -/

/-- the value of a digit of base 64 -/
def base64Digit (c : Char) : Option Nat :=
  let n := c.toNat
  if 0x41 ≤ n && n ≤ 0x5a then some (n - 0x41)
  else if 0x61 ≤ n && n ≤ 0x7a then some (n - 0x47)
  else if 0x30 ≤ n && n ≤ 0x39 then some (n + 4)
  else if c == '+' then some 62
  else if c == '/' then some 63
  else none

/-- the bytes of base 64 text, four digits for three bytes, with padding at the end -/
def base64Bytes : List Char → Option (List UInt8)
  | [] => some []
  | [a, b, '=', '='] => do
    let n := 64 * (← base64Digit a) + (← base64Digit b)
    return [(n / 16).toUInt8]
  | [a, b, c, '='] => do
    let n := 4096 * (← base64Digit a) + 64 * (← base64Digit b) + (← base64Digit c)
    return [(n / 1024).toUInt8, (n / 4).toUInt8]
  | a :: b :: c :: d :: r => do
    let n := 262144 * (← base64Digit a) + 4096 * (← base64Digit b) + 64 * (← base64Digit c) + (← base64Digit d)
    return (n / 65536).toUInt8 :: (n / 256).toUInt8 :: n.toUInt8 :: (← base64Bytes r)
  | _ => none

/-- what a scalar stands for -/
inductive ScalarValue where
  | null
  | truth (b : Bool)
  | text (t : Text)
  /-- a number or a moment, as it is written -/
  | written (s : List Char)

/-- the tags whose scalars are checked against what the text means -/
def checkedTags : List String := ["!!bool", "!!int", "!!float", "!!null", "!!timestamp"]

/-- what a scalar stands for; a checked tag has to fit the text, where a whole number may stand for a fraction -/
def scalarValue (tag : String) (s : List Char) : Except Fault ScalarValue :=
  if tag == "!!binary" then
    match base64Bytes (s.filter fun c => c != '\n' && c != '\r') with
    | some bytes => .ok (.text (Text.ofBytes bytes))
    | none => .error .badBase64
  else if !checkedTags.contains tag then .ok (.text (Text.ofChars s))
  else
    let kind := plainKind (tag == "!!timestamp") s
    if kind.tag == tag || (tag == "!!float" && kind == .whole) then
      match kind with
      | .null => .ok .null
      | .truth b => .ok (.truth b)
      | _ => .ok (.written s)
    else .error (.otherKind kind.tag s tag)

/-- note the keys that a mapping has twice -/
def noteRepeatedKeys : List (Node × Node) → Extract Bool
  | [] => return true
  | (k, _) :: r => do
    let again := r.filter fun p => k.sameKey p.1
    for (j, _) in again do
      note (.repeatedKey j.line j.text k.line)
    return (← noteRepeatedKeys r) && again.isEmpty

/-- a scalar's value, if the node is a scalar or refers to one; else a mistake, as for a mapping with a key twice -/
def valueAt (d : Document) (n : Node) (wanted : String) : Extract (Option ScalarValue) := do
  match d.target n with
  | .scalar tag s _ => return some (← scalarValue tag s)
  | .mapping tag pairs line =>
    if ← noteRepeatedKeys pairs then noteKind (.mapping tag pairs line) wanted
    return none
  | n =>
    noteKind n wanted
    return none

/-- the text at a node; none when there is nothing to set -/
def textAt (d : Document) (n : Node) : Extract (Option Text) := do
  match ← valueAt d n "string" with
  | none | some .null => return none
  | some (.text t) => return some t
  | some (.truth _) | some (.written _) => return some (Text.ofChars (d.target n).text)

/-- the words that switch on, besides the truth values -/
def onWords : List String := ["y", "Y", "yes", "Yes", "YES", "on", "On", "ON"]

/-- the words that switch off, besides the truth values -/
def offWords : List String := ["n", "N", "no", "No", "NO", "off", "Off", "OFF"]

/-- the switch that a word sets -/
def switchWord (t : Text) : Option Bool :=
  if onWords.any fun w => Text.ofString w == t then some true
  else if offWords.any fun w => Text.ofString w == t then some false
  else none

/-- a switch at a node: set, unset by nothing, or a mistake -/
inductive SwitchValue where
  | set (b : Bool)
  | unset
  | mistaken

/-- the switch at a node -/
def switchAt (d : Document) (n : Node) : Extract SwitchValue := do
  let mistaken : Extract SwitchValue := do
    noteKind (d.target n) "bool"
    return .mistaken
  match ← valueAt d n "bool" with
  | none => return .mistaken
  | some .null => return .unset
  | some (.truth b) => return .set b
  | some (.text t) =>
    match switchWord t with
    | some b => return .set b
    | none => mistaken
  | some (.written _) => mistaken

/-! ## Records -/

/-- a record that is filled field by field: what messages call it, and how a field is set; none for an unknown field -/
structure RecordType (α : Type) where
  label : String
  assign : Document → String → Option (Node → α → Extract α)

/-- the state of filling a record: the record, and the fields that are taken when others are merged in -/
structure Filling (α : Type) where
  record : α
  taken : Option (List Text)

/-- is a node the key that asks for a merge? -/
def isMergeKey : Node → Bool
  | .scalar tag text _ => text == ['<', '<'] && tag == "!!merge"
  | _ => false

/-- set the fields of one mapping, in order; `done` are those set already. The last merge asked for is given back -/
def fillFields {α : Type} (t : RecordType α) (d : Document) :
    List Text → Filling α → Option Node → List (Node × Node) → Extract (Filling α × Option Node)
  | _, f, merge, [] => return (f, merge)
  | done, f, merge, (k, v) :: r => do
    if isMergeKey k then fillFields t d done f (some v) r
    else
      match ← textAt d k with
      | none => fillFields t d done f merge r
      | some field =>
        match f.taken with
        | some taken =>
          if taken.contains field then fillFields t d done f merge r
          else
            let (done, record) ← setField done field k v f.record
            fillFields t d done ⟨record, some (field :: taken)⟩ merge r
        | none =>
          let (done, record) ← setField done field k v f.record
          fillFields t d done ⟨record, none⟩ merge r
where
  /-- set one field, or note why not -/
  setField (done : List Text) (field : Text) (k v : Node) (record : α) : Extract (List Text × α) := do
    match field.chars?.bind fun s => t.assign d (String.ofList s) with
    | none =>
      note (.unknownField k.line field t.label)
      return (done, record)
    | some assign =>
      if done.contains field then
        note (.repeatedField k.line field t.label)
        return (done, record)
      else return (field :: done, ← assign v record)

/-- the keys of a mapping that are texts -/
def textKeys (d : Document) (pairs : List (Node × Node)) : List Text :=
  pairs.filterMap fun p =>
    match d.target p.1 with
    | .scalar tag s _ => if checkedTags.contains tag then none else some (Text.ofChars s)
    | _ => none

/-- the mappings that a merge names, with the references that are followed to them -/
def mergeSources (d : Document) (n : Node) : Except Fault (List Node) :=
  let isMapping (n : Node) : Bool :=
    match d.target n with
    | .mapping _ _ _ => true
    | _ => false
  match n with
  | .sequence _ items _ => if items.all isMapping then .ok items else .error .mergeWantsMapping
  | n => if isMapping n then .ok [n] else .error .mergeWantsMapping

mutual

/-- fill a record from a mapping, and then from the mappings it merges; `opened` are the references being followed -/
def fillRecord {α : Type} (t : RecordType α) (d : Document) :
    Nat → List Nat → List (Node × Node) → Filling α → Extract (Filling α)
  | 0, _, _, f => return f
  | fuel + 1, opened, pairs, f => do
    if !(← noteRepeatedKeys pairs) then return f
    let (f, merge) ← fillFields t d [] f none pairs
    match merge with
    | none => return f
    | some n =>
      let taken := f.taken
      let f := { f with taken := some (taken.getD (textKeys d pairs)) }
      let f ← fillMerged t d fuel opened (← mergeSources d n) f
      return { f with taken := if taken.isSome then f.taken else none }

/-- fill a record from mappings that are merged, one after the other -/
def fillMerged {α : Type} (t : RecordType α) (d : Document) :
    Nat → List Nat → List Node → Filling α → Extract (Filling α)
  | 0, _, _, f => return f
  | _ + 1, _, [], f => return f
  | fuel + 1, opened, n :: r, f => do
    let opened' ← match n with
      | .reference name _ number _ =>
        if opened.contains number then throw (.containsItself name) else pure (number :: opened)
      | _ => pure opened
    let f ← match d.target n with
      | .mapping _ pairs _ => fillRecord t d fuel opened' pairs f
      | _ => pure f
    fillMerged t d fuel opened r f

end

mutual

/-- the number of nodes of a tree -/
def Node.size : Node → Nat
  | .sequence _ items _ => 1 + Node.sizes items
  | .mapping _ pairs _ => 1 + Node.pairSizes pairs
  | .scalar _ _ _ => 1
  | .reference _ _ _ _ => 1

/-- the number of nodes of trees -/
def Node.sizes : List Node → Nat
  | [] => 0
  | n :: r => n.size + Node.sizes r

/-- the number of nodes of pairs of trees -/
def Node.pairSizes : List (Node × Node) → Nat
  | [] => 0
  | (k, v) :: r => k.size + v.size + Node.pairSizes r

end

/-- how deep merging can go: between two references at most the whole document is passed -/
def Document.mergeDepth (d : Document) : Nat := 2 * (d.references + 1) * (d.root.size + 1)

/-- the record at a node, filled on from `empty`; none when nothing stands there, or something else -/
def recordAt {α : Type} (t : RecordType α) (empty : α) (d : Document) (n : Node) : Extract (Option α) := do
  match d.target n with
  | .mapping _ pairs _ =>
    let f ← fillRecord t d d.mergeDepth [] pairs ⟨empty, none⟩
    return some f.record
  | .scalar tag s line =>
    match ← scalarValue tag s with
    | .null => return none
    | _ =>
      noteKind (.scalar tag s line) t.label
      return none
  | n =>
    noteKind n t.label
    return none

/-- the records of a sequence; entries with nothing in them do not count -/
def recordsAt {α : Type} (t : RecordType α) (empty : α) (d : Document) (n : Node) : Extract (Option (List α)) := do
  let wanted := "[]" ++ t.label
  match d.target n with
  | .sequence _ items _ => return some (← items.filterMapM (recordAt t empty d))
  | .scalar tag s line =>
    match ← scalarValue tag s with
    | .null => return some []
    | _ =>
      noteKind (.scalar tag s line) wanted
      return none
  | .mapping tag pairs line =>
    if ← noteRepeatedKeys pairs then noteKind (.mapping tag pairs line) wanted
    return none
  | n =>
    noteKind n wanted
    return none

end MatcherGen.Yaml
