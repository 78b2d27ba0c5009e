/-
File patterns and the files they name. A star stands for any characters of a name, a question mark for one, brackets for one
of a set, braces for alternatives, and two stars for any directories in between; a backslash takes a character's meaning
away. Matches come in the order of the directories: the names of a directory are sorted, and what two stars reach comes in
depth-first order.
-/
import MatcherGen.Storage.Disk
import MatcherGen.Text.Quoted

namespace MatcherGen

/-! ## Well-formed patterns -/

/-- the text after the bracket that closes a set -/
def afterSet : List Char → Option (List Char)
  | [] => none
  | '\\' :: _ :: r => afterSet r
  | ']' :: r => some r
  | _ :: r => afterSet r

/-- a set without the sign that negates it -/
def unnegated : List Char → List Char
  | '^' :: r => r
  | '!' :: r => r
  | r => r

/-- is a pattern well-formed: sets not empty, sets and alternatives closed, no backslash at the end? `depth` counts the open
alternatives -/
def wellFormedFrom : Nat → Nat → List Char → Bool
  | 0, _, _ => false
  | _ + 1, depth, [] => depth == 0
  | fuel + 1, depth, c :: r =>
    if c == '\\' then
      match r with
      | _ :: r => wellFormedFrom fuel depth r
      | [] => false
    else if c == '[' then
      match unnegated r with
      | [] => false
      | ']' :: _ => false
      | inside =>
        match afterSet inside with
        | some r => wellFormedFrom fuel depth r
        | none => false
    else if c == '\x7b' then wellFormedFrom fuel (depth + 1) r
    else if c == '\x7d' then depth != 0 && wellFormedFrom fuel (depth - 1) r
    else wellFormedFrom fuel depth r

/-- is a pattern well-formed? -/
def isGlob (s : List Char) : Bool := wellFormedFrom (s.length + 1) 0 s

/-! ## Names -/

/-- a piece of a pattern for one name -/
inductive Wild where
  | many
  | one
  | exactly (c : Char)
  | oneOf (negated : Bool) (ranges : List (Char × Char))

/-- the ranges of a set up to its bracket, with the text behind it; `last` is a character that a dash may continue -/
def setRanges : Nat → Option Char → List Char → List (Char × Char) × List Char
  | 0, _, r => ([], r)
  | _ + 1, _, [] => ([], [])
  | _ + 1, _, ']' :: r => ([], r)
  | fuel + 1, last, c :: r =>
    let single (x : Char) (r : List Char) : List (Char × Char) × List Char :=
      let (more, rest) := setRanges fuel (some x) r
      ((x, x) :: more, rest)
    let range (lo hi : Char) (r : List Char) : List (Char × Char) × List Char :=
      let (more, rest) := setRanges fuel none r
      ((lo, hi) :: more, rest)
    match c, last, r with
    | '-', some lo, '\\' :: hi :: r => range lo hi r
    | '-', some lo, hi :: r' => if hi == ']' then single '-' r else range lo hi r'
    | '\\', _, x :: r => single x r
    | _, _, _ => single c r

/-- the pieces of a pattern for one name -/
def wilds : Nat → List Char → List Wild
  | 0, _ => []
  | _ + 1, [] => []
  | fuel + 1, c :: r =>
    match c, r with
    | '*', '*' :: r => .many :: wilds fuel r
    | '*', r => .many :: wilds fuel r
    | '?', r => .one :: wilds fuel r
    | '[', r =>
      let (ranges, rest) := setRanges (r.length + 1) none (unnegated r)
      .oneOf (r.head? == some '^' || r.head? == some '!') ranges :: wilds fuel rest
    | '\\', x :: r => .exactly x :: wilds fuel r
    | c, r => .exactly c :: wilds fuel r

/-- does a piece accept a character? -/
def Wild.accepts : Wild → Char → Bool
  | .many, _ => true
  | .one, _ => true
  | .exactly x, c => x == c
  | .oneOf negated ranges, c => (ranges.any fun r => r.1 ≤ c && c ≤ r.2) != negated

/-- do pieces match the whole of a name? -/
def Wild.matchName : List Wild → List Char → Bool
  | [], [] => true
  | [.many], [] => true
  | _, [] => false
  | [], _ :: _ => false
  | .many :: ws, c :: cs => matchName ws (c :: cs) || matchName (.many :: ws) cs
  | w :: ws, c :: cs => w.accepts c && matchName ws cs
termination_by ws cs => (cs.length, ws.length)

/-- does a pattern without slashes match a name? -/
def matchesName (pattern : List Char) (name : String) : Bool :=
  Wild.matchName (wilds (pattern.length + 1) pattern) name.toList

/-! ## Cutting patterns -/

/-- a character with a meaning in patterns -/
def isGlobMeta (c : Char) : Bool := c == '*' || c == '?' || c == '[' || c == '\x7b'

/-- where the first character with a meaning stands -/
def firstMeta : Nat → List Char → Option Nat
  | _, [] => none
  | i, '\\' :: _ :: r => firstMeta (i + 2) r
  | i, c :: r => if isGlobMeta c then some i else firstMeta (i + 1) r

/-- a text with the backslashes before characters with a meaning taken away -/
def unescaped : List Char → List Char
  | [] => []
  | '\\' :: c :: r => if isGlobMeta c || c == ']' || c == '\x7d' then c :: unescaped r else '\\' :: unescaped (c :: r)
  | c :: r => c :: unescaped r

/-- where the last character that satisfies `p` and has no backslash before it stands -/
def lastUnescaped (p : Char → Bool) (s : List Char) : Option Nat :=
  let marked := s.zip ('x' :: s)
  (List.range s.length).reverse.find? fun i =>
    match marked[i]? with
    | some (c, before) => p c && before != '\\'
    | none => false

/-- where the brace stands that the brace behind `s` closes -/
def openingBrace (s : List Char) : Option Nat :=
  let marked := (s.zip ('x' :: s)).zipIdx.reverse
  (marked.foldl
    (fun (acc : Nat × Option Nat) x =>
      match acc.2, x with
      | some i, _ => (acc.1, some i)
      | none, ((c, before), i) =>
        if before == '\\' then acc
        else if c == '\x7d' then (acc.1 + 1, none)
        else if c == '\x7b' then if acc.1 == 1 then (0, some i) else (acc.1 - 1, none)
        else acc)
    (1, none)).2

/-- the alternatives between braces, cut at the commas outside inner braces -/
def alternativesFrom : Nat → Int → List Char → List (List Char)
  | 0, _, _ => [[]]
  | _ + 1, _, [] => [[]]
  | fuel + 1, depth, c :: r =>
    let extend (front : List Char) (depth : Int) (r : List Char) : List (List Char) :=
      match alternativesFrom fuel depth r with
      | first :: more => (front ++ first) :: more
      | [] => [front]
    if c == '\\' then extend (c :: r.take 1) depth (r.drop 1)
    else if c == ',' && depth == 1 then [] :: alternativesFrom fuel depth r
    else extend [c] (if c == '\x7b' then depth + 1 else if c == '\x7d' then depth - 1 else depth) r

/-- the alternatives between braces; an empty one at the end does not count -/
def alternatives (s : List Char) : List (List Char) :=
  let all := alternativesFrom (s.length + 1) 1 s
  if all.getLast? == some [] then all.dropLast else all

/-- how a pattern is taken apart: at its last braces, or into a directory and the pattern of a name -/
inductive Cut where
  | braces (opening closing : Nat)
  /-- `settled` if the directory has no character with a meaning -/
  | name (dir name : List Char) (settled : Bool)

/-- cut a pattern at a slash, or not at all -/
def cutAt (pattern : List Char) (firstMeta : Nat) : Option Nat → Cut
  | some i => .name (pattern.take i) (pattern.drop (i + 1)) (i ≤ firstMeta)
  | none => .name ['.'] pattern true

/-- take apart a pattern whose first character with a meaning stands at `firstMeta` -/
def cutPattern (pattern : List Char) (firstMeta : Nat) : Cut :=
  match lastUnescaped (fun c => c == '/' || c == '\x7d') pattern with
  | none => cutAt pattern firstMeta none
  | some i =>
    if pattern[i]? == some '\x7d' then
      match openingBrace (pattern.take i) with
      | some opening => .braces opening i
      | none => cutAt pattern firstMeta (lastUnescaped (· == '/') (pattern.take i))
    else cutAt pattern firstMeta (some i)

/-- the directories in front of braces: the pattern for them, if there is one, and where the text after them starts -/
def beforeBraces (pattern : List Char) (opening : Nat) : Option (List Char) × Nat :=
  match lastUnescaped (fun c => c == '/' || c == '\x7d') (pattern.take opening) with
  | some i => if pattern[i]? == some '\x7d' then (none, 0) else (some (pattern.take i), i + 1)
  | none => (none, 0)

/-- the patterns that braces stand for below a directory -/
def unbraced (dir : String) (pattern : List Char) (start opening closing : Nat) : List (List Char) :=
  let front := if dir == "" || dir == "." then [] else dir.toList ++ ['/']
  let before := (pattern.take opening).drop start
  let inside := (pattern.take closing).drop (opening + 1)
  (alternatives inside).map fun alt => front ++ before ++ alt ++ pattern.drop (closing + 1)

/-! ## Searching -/

/-- the names in a directory, sorted, each with whether it is a directory -/
def Disk.names (d : Disk) (p : Place) : List (String × Bool) :=
  let inside (q : Place) : Option String := if q.dropLast == p then q.getLast? else none
  let dirs := d.dirs.filterMap fun q => (inside q).map (·, true)
  let files := d.files.filterMap fun f => (inside f.1).map (·, false)
  (dirs ++ files).mergeSort fun a b => !(b.1 < a.1)

/-- the places below a directory in depth-first order, each with whether it is a directory -/
def Disk.below (d : Disk) (p : Place) : List (Place × Bool) :=
  let inside (q : Place) : Bool := p.isPrefixOf q && q != p
  let dirs := (d.dirs.filter inside).map (·, true)
  let files := (d.files.filter fun f => inside f.1).map fun f => (f.1, false)
  (dirs ++ files).mergeSort fun a b => !(b.1 < a.1)

/-- a search below a directory -/
structure Search where
  disk : Disk
  base : String

namespace Search

/-- may a path be searched for: names only, or the directory itself? -/
def isPlainPath (path : String) : Bool :=
  path == "." || (pathNames path).all fun name => name != "" && name != "." && name != ".."

/-- the place of a path below the base, if something stands there, with whether it is a directory -/
def find? (s : Search) (path : String) : Option (Place × Bool) :=
  if !isPlainPath path then none
  else
    let full := s.base ++ "/" ++ path
    match s.disk.stat full, s.disk.resolve full with
    | .ok content, .ok p => some (p, content.isNone)
    | _, _ => none

/-- the place of a directory below the base -/
def dir? (s : Search) (path : String) : Option Place :=
  match s.find? path with
  | some (p, true) => some p
  | _ => none

/-- a name below a directory -/
def child (dir name : String) : String := if dir == "." then name else dir ++ "/" ++ name

/-- does something stand at a path? A slash at the end does not count -/
def holds (s : Search) (path : String) : Bool :=
  let cs := path.toList
  let trimmed := if 1 < cs.length && cs.getLast? == some '/' then String.ofList cs.dropLast else path
  (s.find? trimmed).isSome

/-- what the pattern of a name matches in a directory; only directories, unless `files` -/
def inDir (s : Search) (files : Bool) (name : List Char) (dir : String) : List String :=
  match s.dir? dir with
  | none => []
  | some p =>
    if name.isEmpty then [dir]
    else if name == ['*', '*'] then
      dir :: (s.disk.below p).filterMap fun q =>
        if files || q.2 then some ((q.1.drop p.length).foldl child dir) else none
    else
      (s.disk.names p).filterMap fun n =>
        if matchesName name n.1 && (files || n.2) then some (child dir n.1) else none

/-- merge the matches of two alternatives. For sorted ones this is the sorted union -/
def mergeMatches : List String → List String → List String
  | [], right => right
  | left, [] => left
  | x :: left, y :: right =>
    if x < y then x :: mergeMatches left (y :: right)
    else if y < x then y :: mergeMatches left (right.takeWhile (· < x) ++ x :: right.dropWhile (· < x))
    else x :: mergeMatches left right

/-- add a match where it belongs in a sorted list, unless it is there -/
def insertMatch (x : String) (sorted : List String) : List String :=
  if sorted.contains x then sorted else sorted.takeWhile (· < x) ++ x :: sorted.dropWhile (· < x)

/-- what a pattern matches, after `found`; the matches of alternatives are merged one by one -/
def matchesAfter (s : Search) : Nat → Bool → List Char → List String → List String
  | 0, _, _, found => found
  | fuel + 1, files, pattern, found =>
    match firstMeta 0 pattern with
    | none =>
      let path := String.ofList (unescaped pattern)
      if s.holds path then found ++ [path] else found
    | some first =>
      match cutPattern pattern first with
      | .name dir name settled =>
        let dirs := if settled then [String.ofList dir] else s.matchesAfter fuel false dir found
        found ++ dirs.flatMap (s.inDir files name)
      | .braces opening closing =>
        let (front, start) := beforeBraces pattern opening
        let dirs := match front with
          | some front => s.matchesAfter fuel false front found
          | none => [""]
        dirs.foldl
          (fun found dir =>
            found ++ (unbraced dir pattern start opening closing).foldl
              (fun merged alt =>
                let more := (s.matchesAfter fuel files alt (found ++ merged)).drop (found.length + merged.length)
                mergeMatches merged more)
              [])
          found

/-- what a pattern matches; the matches of alternatives are sorted -/
def matchesOf (s : Search) : Nat → Bool → List Char → List String
  | 0, _, _ => []
  | fuel + 1, files, pattern =>
    match firstMeta 0 pattern with
    | none =>
      let path := String.ofList (unescaped pattern)
      if s.holds path then [path] else []
    | some first =>
      match cutPattern pattern first with
      | .name dir name settled =>
        let dirs := if settled then [String.ofList dir] else s.matchesOf fuel false dir
        dirs.flatMap (s.inDir files name)
      | .braces opening closing =>
        let (front, start) := beforeBraces pattern opening
        let dirs := match front with
          | some front => s.matchesOf fuel false front
          | none => [""]
        let found := dirs.flatMap fun dir =>
          (unbraced dir pattern start opening closing).flatMap (s.matchesOf fuel files)
        found.foldl (fun sorted x => insertMatch x sorted) []

/-- do two stars stand in a pattern with at least two bytes after them? -/
def hasInnerStars : List Char → Bool
  | [] => false
  | '\\' :: _ :: r => hasInnerStars r
  | '*' :: '*' :: r => 2 ≤ (String.ofList r).utf8ByteSize || hasInnerStars ('*' :: r)
  | _ :: r => hasInnerStars r

/-- what a pattern matches below the base -/
def run (s : Search) (pattern : List Char) : List String :=
  let fuel := (pattern.length + 2) * (pattern.length + 2)
  if hasInnerStars pattern then s.matchesOf fuel true pattern else s.matchesAfter fuel true pattern []

end Search

/-! ## Globs -/

/-- where the last slash before any character with a meaning stands -/
def lastPlainSlash : Nat → Option Nat → List Char → Option Nat
  | _, last, [] => last
  | i, last, '\\' :: _ :: r => lastPlainSlash (i + 2) last r
  | i, last, c :: r =>
    if c == '/' then lastPlainSlash (i + 1) (some i) r
    else if isGlobMeta c then last
    else lastPlainSlash (i + 1) last r

/-- a pattern as a plain directory and the pattern below it -/
def splitGlob (pattern : List Char) : String × List Char :=
  match lastPlainSlash 0 none pattern with
  | none => (".", pattern)
  | some 0 => ("/", pattern.drop 1)
  | some i => (String.ofList (unescaped (pattern.take i)), pattern.drop (i + 1))

/-- why a glob names no files -/
inductive GlobError where
  | malformed (glob : String)
  | malformedPart (glob : String)
  | noMatch (glob : String)
deriving DecidableEq, Repr

/-- the wording of a glob error -/
def GlobError.message : GlobError → String
  | .malformed glob => "invalid manifest glob " ++ quotedString glob
  | .malformedPart glob => "failed to expand " ++ quotedString glob ++ ": syntax error in pattern"
  | .noMatch glob => "no manifest matches " ++ quotedString glob

/-- the paths that a well-formed glob matches; none if it is no longer well-formed once cleaned -/
def globMatches (d : Disk) (glob : String) : Option (List String) :=
  if glob == "" then some []
  else
    let cleaned := (cleanPath glob).toList
    let (base, pattern) := splitGlob cleaned
    if pattern.isEmpty || pattern == ['.'] || pattern == ['.', '.'] then
      if !isGlob cleaned then none
      else
        let path := String.ofList (unescaped cleaned)
        match d.stat path with
        | .ok _ => some [path]
        | .error _ => some []
    else if !isGlob pattern then none
    else some (((Search.mk d base).run pattern).map fun m => joinPaths [base, m])

/-- the paths that one glob matches -/
def expandGlob (d : Disk) (glob : String) : Except GlobError (List String) :=
  if !isGlob glob.toList then .error (.malformed glob)
  else
    match globMatches d glob with
    | none => .error (.malformedPart glob)
    | some [] => .error (.noMatch glob)
    | some paths => .ok paths

/-- the paths that globs match, each once, at its first place -/
def expandGlobs (d : Disk) (globs : List String) : Except GlobError (List String) :=
  globs.foldlM
    (fun found glob => do
      let paths ← expandGlob d glob
      return paths.foldl (fun found p => if found.contains p then found else found ++ [p]) found)
    []

end MatcherGen
