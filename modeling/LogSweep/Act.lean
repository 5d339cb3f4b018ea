import LogSweep.Event
import LogSweep.FileSystem.IoError
import LogSweep.Tally

/-! What a run does, act by act. The acts stand in the order in which they are done, so that all a
run shows and writes can be read off them. -/
namespace LogSweep

/-- Something that a run does. One that is refused comes with the cause. -/
inductive Act where
  | tell (e : Event)
  /-- The file at a path turns out to hold a text. -/
  | read (p : Path) (t : Text)
  | write (p : Path) (t : Text) (refusal : Option IoError)
  /-- The path of a modified file is reported. -/
  | report (p : Path) (refusal : Option IoError)
  /-- A text goes to the output. -/
  | print (t : Text) (refusal : Option IoError)
  deriving DecidableEq, Repr

namespace Act

@[simp] def told? : Act → Option Event
  | tell e => some e
  | _ => none

@[simp] def reported? : Act → Option Path
  | report p _ => some p
  | _ => none

/-- What an act puts on the output. -/
@[simp] def printed : Act → Text
  | report p none => Tally.reportLine p ++ ['\n']
  | print t none => t
  | _ => []

/-- The act is done at a level. Only the telling of events depends on it. -/
def doneAt (level : Severity) : Act → Bool
  | tell e => e.severity.shownAt level
  | _ => true

/-- The level decides which events are told of. -/
theorem told_doneAt (level : Severity) (acts : List Act) :
    (acts.filter (doneAt level)).filterMap told? = Event.shownAt level (acts.filterMap told?) := by
  rw [List.filterMap_filter, Event.shownAt, List.filter_filterMap]
  congr
  funext a
  cases a <;> rfl

/-- The level does not matter for the output. -/
theorem printed_doneAt (level : Severity) (acts : List Act) :
    (acts.filter (doneAt level)).flatMap printed = acts.flatMap printed := by
  induction acts with
  | nil => rfl
  | cons a acts ih =>
    rw [List.flatMap_cons, ← ih, List.filter_cons]
    cases a with
    | tell e => split <;> rfl
    | read p t => rfl
    | write p t refusal => rfl
    | report p refusal => rfl
    | print t refusal => rfl

end Act
end LogSweep
