/-
Paths as text: slash-separated names. `cleanPath` gives the shortest text for the same place, `joinPaths` puts paths one
below the other, `parentPath` drops the last name.
-/

namespace MatcherGen

/-- cut a text at every `sep` -/
def splitChars (sep : Char) : List Char → List (List Char)
  | [] => [[]]
  | c :: r =>
    if c == sep then [] :: splitChars sep r
    else
      match splitChars sep r with
      | first :: others => (c :: first) :: others
      | [] => [[c]]

/-- the names of a path, in order -/
def pathNames (s : String) : List String := (splitChars '/' s.toList).map String.ofList

/-- does the path start at the root? -/
def isRooted (s : String) : Bool := s.toList.head? == some '/'

/-- one more name on a cleaned path, given from its end -/
def pushName (rooted : Bool) (names : List String) (name : String) : List String :=
  if name == "" || name == "." then names
  else if name == ".." then
    match names with
    | top :: below => if top == ".." then ".." :: names else below
    | [] => if rooted then [] else [".."]
  else name :: names

/-- the shortest text for the same place -/
def cleanPath (s : String) : String :=
  let rooted := isRooted s
  let names := ((pathNames s).foldl (pushName rooted) []).reverse
  let body := "/".intercalate names
  if rooted then "/" ++ body else if names.isEmpty then "." else body

/-- paths one below the other; empty ones do not count -/
def joinPaths (parts : List String) : String :=
  let parts := parts.filter (· != "")
  if parts.isEmpty then "" else cleanPath ("/".intercalate parts)

/-- the path without its last name -/
def parentPath (s : String) : String :=
  cleanPath (String.ofList (s.toList.reverse.dropWhile (· != '/')).reverse)

end MatcherGen
