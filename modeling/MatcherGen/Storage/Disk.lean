/-
The file store as a value: directories and files by place, with a working directory. Operations follow the rules of a Unix
file system as far as the program can see them: which of them fail, with what error, and what they leave behind.
-/
import MatcherGen.Storage.Path

namespace MatcherGen

/-- a place in the store: names from the root -/
abbrev Place := List String

/-- why the system refuses an operation -/
inductive SystemError where
  | notFound
  | notDirectory
  | isDirectory
  | exists
  | invalid
  | nameTooLong
deriving DecidableEq, Repr

/-- the longest name of a file or directory, in bytes -/
def maxNameBytes : Nat := 255

/-- the longest path, in bytes -/
def maxPathBytes : Nat := 4095

/-- the system's wording -/
def SystemError.message : SystemError → String
  | .notFound => "no such file or directory"
  | .notDirectory => "not a directory"
  | .isDirectory => "is a directory"
  | .exists => "file exists"
  | .invalid => "invalid argument"
  | .nameTooLong => "file name too long"

/-- a failed operation on a path -/
structure FileError where
  operation : String
  path : String
  cause : SystemError
deriving DecidableEq, Repr

/-- the wording of a failed operation -/
def FileError.message (e : FileError) : String := e.operation ++ " " ++ e.path ++ ": " ++ e.cause.message

/-- the store -/
structure Disk where
  /-- the directories besides the root -/
  dirs : List Place
  files : List (Place × String)
  /-- the working directory -/
  cwd : Place

namespace Disk

/-- is there a directory? -/
def isDir (d : Disk) (p : Place) : Bool := p.isEmpty || d.dirs.contains p

/-- the content of a file -/
def content? (d : Disk) (p : Place) : Option String := (d.files.find? fun f => f.1 == p).map Prod.snd

/-- does a path end in a slash or a dot, so that it can only name a directory? -/
def namesDirectory (path : String) : Bool :=
  match (pathNames path).getLast? with
  | some name => name == "" || name == "." || name == ".."
  | none => true

/-- follow names from a directory; every place passed through has to be a directory -/
def walk (d : Disk) : Place → List String → Except SystemError Place
  | p, [] => .ok p
  | p, name :: r =>
    if name == "" then d.walk p r
    else if !d.isDir p then .error (if (d.content? p).isSome then .notDirectory else .notFound)
    else if name == "." then d.walk p r
    else if name == ".." then d.walk p.dropLast r
    else if maxNameBytes < name.utf8ByteSize then .error .nameTooLong
    else d.walk (p ++ [name]) r

/-- the place that a path names; the last name need not exist -/
def resolve (d : Disk) (path : String) : Except SystemError Place :=
  if path == "" then .error .notFound
  else if path.toList.contains (Char.ofNat 0) then .error .invalid
  else if maxPathBytes < path.utf8ByteSize then .error .nameTooLong
  else d.walk (if isRooted path then [] else d.cwd) (pathNames path)

/-- what stands at a path: a directory, a file, or an error -/
def stat (d : Disk) (path : String) : Except SystemError (Option String) :=
  match d.resolve path with
  | .error e => .error e
  | .ok p =>
    if d.isDir p then .ok none
    else
      match d.content? p with
      | some c => if namesDirectory path then .error .notDirectory else .ok (some c)
      | none => .error .notFound

/-- the content of the file at a path -/
def read (d : Disk) (path : String) : Except FileError String :=
  match d.stat path with
  | .ok (some c) => .ok c
  | .ok none => .error ⟨"read", path, .isDirectory⟩
  | .error e => .error ⟨"open", path, e⟩

/-- put a file at a place -/
def setFile (d : Disk) (p : Place) (content : String) : Disk :=
  if (d.content? p).isSome then
    { d with files := d.files.map fun f => if f.1 == p then (p, content) else f }
  else { d with files := d.files ++ [(p, content)] }

/-- write a file, over one that is there -/
def write (d : Disk) (path : String) (content : String) : Except FileError Disk :=
  let fail (e : SystemError) : Except FileError Disk := .error ⟨"open", path, e⟩
  match d.resolve path with
  | .error e => fail e
  | .ok p =>
    if d.isDir p then fail .isDirectory
    else if (d.content? p).isSome then
      if namesDirectory path then fail .notDirectory else .ok (d.setFile p content)
    else if !d.isDir p.dropLast then fail .notFound
    else if namesDirectory path then fail .isDirectory
    else .ok (d.setFile p content)

/-- make one directory -/
def makeDir (d : Disk) (path : String) : Except FileError Disk :=
  let fail (e : SystemError) : Except FileError Disk := .error ⟨"mkdir", path, e⟩
  match d.resolve path with
  | .error e => fail e
  | .ok p =>
    if d.isDir p || (d.content? p).isSome then fail .exists
    else .ok { d with dirs := d.dirs ++ [p] }

/-- the path up to and with the slash before its last name -/
def upperPart (path : String) : String :=
  let s := path.toList.reverse.dropWhile (· == '/')
  String.ofList (s.dropWhile (· != '/')).reverse

/-- make one directory, unless it is there -/
def makeLast (d : Disk) (path : String) : Except FileError Disk :=
  match d.makeDir path with
  | .ok d => .ok d
  | .error e =>
    match d.stat path with
    | .ok none => .ok d
    | _ => .error e

/-- make a directory with all above it; `depth` bounds the number of names -/
def makeDirsAt (depth : Nat) (d : Disk) (path : String) : Except FileError Disk :=
  match d.stat path with
  | .ok none => .ok d
  | .ok (some _) => .error ⟨"mkdir", path, .notDirectory⟩
  | .error _ =>
    match depth with
    | 0 => d.makeLast path
    | n + 1 =>
      if upperPart path == "" then d.makeLast path
      else
        match makeDirsAt n d (upperPart path) with
        | .error e => .error e
        | .ok d => d.makeLast path

/-- make a directory with all above it -/
def makeDirs (d : Disk) (path : String) : Except FileError Disk := makeDirsAt path.length d path

/-! ## Filling and comparing -/

/-- the places on the way from the root down to a place, without the root -/
def wayTo (p : Place) : List Place := (List.range p.length).map fun i => p.take (i + 1)

/-- a store with nothing but a working directory -/
def empty (cwd : Place) : Disk := ⟨wayTo cwd, [], cwd⟩

/-- the store with every directory down to a place -/
def addDirs (d : Disk) (p : Place) : Disk :=
  { d with dirs := d.dirs ++ (wayTo p).filter fun q => !d.dirs.contains q }

/-- put a file below the working directory, with the directories it needs; a path that ends in a slash is a directory -/
def put (d : Disk) (path content : String) : Disk :=
  let p := d.cwd ++ (pathNames path).filter (· != "")
  if path.toList.getLast? == some '/' then d.addDirs p else (d.addDirs p.dropLast).setFile p content

/-- the files below the working directory, by relative path -/
def localFiles (d : Disk) : List (String × String) :=
  d.files.filterMap fun f =>
    if d.cwd.isPrefixOf f.1 then some ("/".intercalate (f.1.drop d.cwd.length), f.2) else none

/-- the files below the working directory that are new or changed since `before` -/
def changedFiles (d before : Disk) : List (String × String) :=
  d.localFiles.filter fun f => !before.localFiles.contains f

end Disk

end MatcherGen
