import LogSweep.CommandLine
import LogSweep.Run

/-! The program: it reads the command line, does what is asked, shows events and the last failure
on the error output and ends with a status. -/
namespace LogSweep

/-- What one execution of the program leads to. -/
structure Execution where
  files : FileSystem
  status : Nat
  /-- What was done, in order. -/
  acts : List Act
  /-- Why the program fails. It goes to the error output at the end. -/
  complaint : Option Text := none

namespace Execution

/-- What was written to the output. -/
def output (x : Execution) : Text := x.acts.flatMap Act.printed

/-- The lines written to the error output. -/
def errors (x : Execution) : List Text :=
  (x.acts.filterMap Act.told?).map Event.line ++ x.complaint.toList

end Execution

namespace Program

def invoke (out : Output) (env : Environment) (i : Invocation) (fs : FileSystem) : Execution :=
  let run := Run.request out env i.request fs
  let acts := (.tell .starting :: run.acts).filter (Act.doneAt (Severity.ofText i.level))
  match run.outcome with
  | .ok _ => { files := run.files, status := 0, acts }
  | .error e =>
    { files := run.files, status := 1, acts, complaint := some ("Error: ".toList ++ e.message) }

/-- Prints a text without regard to failures. -/
def showText (out : Output) (fs : FileSystem) (t : Text) : Execution :=
  { files := fs, status := 0, acts := [.print t (out.refuses 0)] }

def execute (out : Output) (env : Environment) (args : List Bytes) (fs : FileSystem) :
    Execution :=
  match CommandLine.parse env args with
  | .ok i => invoke out env i fs
  | .error .help => showText out fs (CommandLine.help env)
  | .error .version => showText out fs ("logstrip ".toList ++ version ++ ['\n'])
  | .error (.usage e) => { files := fs, status := 2, acts := [], complaint := some e.message }

/-- An accepted command line is invoked. -/
theorem execute_of_ok {env : Environment} {args : List Bytes} {i : Invocation}
    (ok : CommandLine.parse env args = .ok i) (out : Output) (fs : FileSystem) :
    execute out env args fs = invoke out env i fs := by
  rw [execute, ok]

section
variable (out : Output) (env : Environment) (i : Invocation) (fs : FileSystem)

theorem invoke_files : (invoke out env i fs).files = (Run.request out env i.request fs).files := by
  unfold invoke
  dsimp only
  split <;> rfl

/-- An invocation does what its run does. Only the telling of events depends on the level. -/
theorem invoke_acts :
    (invoke out env i fs).acts = (.tell .starting :: (Run.request out env i.request fs).acts).filter
      (Act.doneAt (Severity.ofText i.level)) := by
  unfold invoke
  dsimp only
  split <;> rfl

/-- What an invocation prints is what its run reports. -/
theorem invoke_output :
    (invoke out env i fs).output = (Run.request out env i.request fs).report := by
  rw [Execution.output, invoke_acts, Act.printed_doneAt]
  rfl

end

end Program
end LogSweep
