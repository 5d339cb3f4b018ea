import LogSweep.Layers
import LogSweep.Sweep

/-! A run: the settings are loaded, the tree is swept, and the report goes to the output, a line
for each modified file, an empty line and the totals. -/
namespace LogSweep

/-- How an output stops: it takes a number of lines and refuses all further ones. -/
structure Refusal where
  cause : IoError
  /-- The number of lines taken before. -/
  taken : Nat := 0
  deriving DecidableEq, Repr

def Refusal.noSpace : Refusal := { cause := .noSpace }

/-- Where a report is written line by line. An output without a refusal takes every line. -/
structure Output where
  refusal : Option Refusal := none
  deriving DecidableEq, Repr

namespace Output

/-- Why the next line is refused after the given number of lines, if it is. -/
def refuses (out : Output) (lines : Nat) : Option IoError :=
  match out.refusal with
  | some r => if lines < r.taken then none else some r.cause
  | none => none

/-- The output as a reporter, which leaves all files alone. -/
def reporter (out : Output) : Reporter := fun earlier _ fs => (fs, out.refuses earlier.length)

/-- Lines go to the output after the given number of lines, up to the first one that is refused. -/
def print (out : Output) : Nat → List Text → List Act × Option IoError
  | _, [] => ([], none)
  | before, l :: ls =>
    match out.refuses before with
    | some e => ([.print (l ++ ['\n']) (some e)], some e)
    | none =>
      let (acts, refusal) := print out (before + 1) ls
      (.print (l ++ ['\n']) none :: acts, refusal)

end Output

/-- What a run leads to. -/
structure Run where
  files : FileSystem
  /-- What was done, in order. -/
  acts : List Act
  outcome : Except Failure Tally

namespace Run

/-- The events told of, in order. -/
def events (run : Run) : List Event := run.acts.filterMap Act.told?

/-- What was written to the output. -/
def report (run : Run) : Text := run.acts.flatMap Act.printed

/-- Sweeps the tree of a selection and reports it. -/
def sweep (out : Output) (s : Selection) (dryRun : Bool) (fs : FileSystem) : Run :=
  let w := Sweep.tree s dryRun out.reporter fs
  let acts := .tell (.sweepStarting s dryRun) :: w.acts
  match w.outcome with
  | .error e => ⟨w.files, acts, .error e⟩
  | .ok t =>
    match out.print w.reported.length [[], t.summaryLine dryRun] with
    | (closing, some e) => ⟨w.files, acts ++ closing, .error (.closing e)⟩
    | (closing, none) =>
      ⟨w.files, acts ++ closing ++ [.tell (.sweepFinished t.removed)], .ok t⟩

/-- Does what a request asks, with the local configuration of the working directory. -/
def request (out : Output) (env : Environment) (r : Request) (fs : FileSystem) : Run :=
  match Layers.setupIn fs env (Path.ofText ['.']) r with
  | (events, .error e) => ⟨fs, events.map .tell, .error e⟩
  | (events, .ok setup) =>
    let run := sweep out (Selection.ofSettings setup.settings) setup.dryRun fs
    { run with acts := events.map .tell ++ run.acts }

end Run
end LogSweep
