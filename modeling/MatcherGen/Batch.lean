/-
Many requests at once. A request is worked on in three steps: its directory is made, its pattern is compiled, its code is
handed over. A schedule is a list of request numbers, and each occurrence lets that request take its next step; so every
interleaving of the work is a schedule. The first failure stops all requests that have not started.
-/
import MatcherGen.Session

namespace MatcherGen

/-- how far a request has come -/
inductive Progress where
  | waiting
  /-- its directory is there -/
  | placed
  | compiled (reading : Reading) (code : List Char)
  | finished (reading : Reading)
  /-- failed, or never started -/
  | stopped

/-- why a batch failed -/
inductive BatchError where
  | canceled
  | directory (name : String) (e : FileError)
  | entry (name : String) (e : CompileError)
deriving DecidableEq, Repr

/-- the wording of a batch error -/
def BatchError.message : BatchError → String
  | .canceled => "context canceled"
  | .directory name e => name ++ ": failed to create output directory: " ++ e.message
  | .entry name e => name ++ ": " ++ e.message

/-- the outcome of one request -/
structure Report where
  options : Options
  reading : Reading

/-- the state of a batch -/
structure Batch where
  disk : Disk
  log : Text
  /-- the code of requests without an output file -/
  printed : List Char
  progress : List Progress
  /-- was the batch called off from outside? -/
  canceled : Bool
  /-- the first failure -/
  failure : Option BatchError

namespace Batch

/-- a batch of `n` requests before its first step -/
def start (n : Nat) (canceled : Bool) (d : Disk) : Batch := ⟨d, [], [], List.replicate n .waiting, canceled, none⟩

/-- a request has come to a new point -/
def reach (b : Batch) (i : Nat) (p : Progress) : Batch := { b with progress := b.progress.set i p }

/-- a request fails; only the first failure counts -/
def fail (b : Batch) (i : Nat) (e : BatchError) : Batch := { b.reach i .stopped with failure := b.failure.or (some e) }

/-- first step: make the directory of the output file, unless the batch is called off -/
def place (b : Batch) (i : Nat) (o : Options) : Batch :=
  if b.canceled || b.failure.isSome then b.fail i .canceled
  else if o.output == "" then b.reach i .placed
  else
    match b.disk.makeDirs (parentPath o.output) with
    | .error e => b.fail i (.directory o.name e)
    | .ok d => { b.reach i .placed with disk := d }

/-- second step: compile the pattern -/
def compile (b : Batch) (i : Nat) (o : Options) : Batch :=
  match o.validate with
  | .error e => b.fail i (.entry o.name (.options e))
  | .ok () =>
    let reading := Reading.ofPattern o.pattern
    let s := Session.start o reading
    let b := { b with log := b.log ++ s.openingLog }
    match s.render 1 with
    | .error e => b.fail i (.entry o.name (.generate e))
    | .ok code => b.reach i (.compiled reading code)

/-- third step: hand over the code -/
def deliver (b : Batch) (i : Nat) (o : Options) (reading : Reading) (code : List Char) : Batch :=
  match (Session.start o reading).deliver code b.disk with
  | .error e => b.fail i (.entry o.name (.generate e))
  | .ok (text, d) => { b.reach i (.finished reading) with disk := d, printed := b.printed ++ text }

/-- the next step of request `i` -/
def step (requests : List Options) (b : Batch) (i : Nat) : Batch :=
  match requests[i]?, b.progress[i]? with
  | some o, some .waiting => b.place i o
  | some o, some .placed => b.compile i o
  | some o, some (.compiled reading code) => b.deliver i o reading code
  | _, _ => b

/-- run a schedule -/
def run (requests : List Options) (schedule : List Nat) (b : Batch) : Batch := schedule.foldl (step requests) b

/-- the schedule that finishes one request after the other -/
def inOrder (n : Nat) : List Nat := (List.range n).flatMap (List.replicate 3)

/-- the reports, in the order of the requests; none after a failure -/
def reports (requests : List Options) (b : Batch) : Except BatchError (List Report) :=
  match b.failure with
  | some e => .error e
  | none =>
    .ok ((requests.zip b.progress).filterMap fun x =>
      match x.2 with
      | .finished reading => some ⟨x.1, reading⟩
      | _ => none)

end Batch

/-- run a whole batch, one request after the other -/
def compileAll (requests : List Options) (canceled : Bool) (d : Disk) : Batch :=
  (Batch.start requests.length canceled d).run requests (Batch.inOrder requests.length)

end MatcherGen
