/-
The program. It takes a picture of the directories that a run can see, runs on the picture, and then does to the file
system what the run did to the picture.
-/
import MatcherGen.CommandLine.Run

namespace MatcherGen

/-- the place of a rooted path -/
def rootedPlace (path : String) : Place := (pathNames path).filter (· != "")

/-- the path of a place -/
def pathOf (p : Place) : String := "/" ++ "/".intercalate p

/-- add what stands below a directory; file contents are only read where they matter -/
def takeTree (d : Disk) (dir : String) (contents : Bool) : IO Disk := do
  let root ← try IO.FS.realPath dir catch _ => return d
  if !(← root.isDir) then return d
  let mut d := d.addDirs (rootedPlace root.toString)
  for path in ← root.walkDir do
    let p := rootedPlace path.toString
    if ← path.isDir then d := d.addDirs p
    else
      let bytes ← if contents then IO.FS.readBinFile path else pure ByteArray.empty
      d := d.setFile p (Text.ofBytes bytes.toList).string
  return d

/-- the directories that a run can see: the working directory, where output goes, and where manifests are looked for -/
def seenDirs (a : Arguments) : List String :=
  "." :: parentPath a.output :: a.manifests.map fun g => (splitGlob (cleanPath g).toList).1

/-- take a picture for a run -/
def takePicture (args : List String) : IO Disk := do
  let cwd ← IO.currentDir
  let d := Disk.empty (rootedPlace cwd.toString)
  match readArguments .default args with
  | .error _ => return d
  | .ok a => (seenDirs a).eraseDups.foldlM (fun d dir => takeTree d dir (!a.manifests.isEmpty)) d

/-- do to the file system what turned one store into another -/
def putBack (before after : Disk) : IO Unit := do
  for p in after.dirs do
    if !before.dirs.contains p then IO.FS.createDirAll (pathOf p)
  for f in after.files do
    if !before.files.contains f then IO.FS.writeFile (pathOf f.1) f.2

end MatcherGen

open MatcherGen in
/-- run on the arguments; the exit code says whether it went well -/
def main (args : List String) : IO UInt32 := do
  let d ← takePicture args
  let r := runCommand args d
  putBack d r.disk
  (← IO.getStdout).putStr (String.ofList r.stdout)
  let stderr ← IO.getStderr
  stderr.write ⟨r.stderr.bytes.toArray⟩
  match r.error with
  | none => return 0
  | some e =>
    if !e.isHelp then
      stderr.write ⟨(Text.ofString "regcps: " ++ e.message ++ Text.ofString "\n").bytes.toArray⟩
    return 1
