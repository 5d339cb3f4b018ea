import LogSweep.Selection
import LogSweep.Severity
import LogSweep.Text.Digits

/-! What a run tells about its progress. -/
namespace LogSweep

def version : Text := "0.1.0".toList

/-- Something that happens in a run. -/
inductive Event where
  | starting
  | configLoaded (p : Path)
  | sweepStarting (s : Selection) (dryRun : Bool)
  | examining (p : Path)
  /-- A file ends inside a call that no line closes. -/
  | unterminated (p : Path)
  | cleaned (p : Path) (removed : Nat) (dryRun : Bool)
  | sweepFinished (removed : Nat)
  deriving DecidableEq, Repr

namespace Event

def severity : Event → Severity
  | unterminated _ => .warn
  | cleaned _ _ _ => .info
  | _ => .debug

/-- A named value behind the message of an event. -/
def field (name : String) (value : Text) : Text := [' '] ++ name.toList ++ ['='] ++ value

def ofBool (b : Bool) : Text := (if b then "true" else "false").toList

def message : Event → Text
  | starting => "logstrip starting".toList ++ field "version" version.quoted
  | configLoaded p => "loaded config".toList ++ field "path" p.display
  | sweepStarting s dryRun =>
    "starting strip run".toList ++ field "root" s.root.display ++
      field "extensions" (Text.quotedList s.extensions) ++
      field "exclude_dirs" (Text.quotedList s.excluded) ++ field "dry_run" (ofBool dryRun)
  | examining p => "examining".toList ++ field "path" p.display
  | unterminated p =>
    "file ends inside an unterminated logger call".toList ++ field "path" p.display
  | cleaned p removed dryRun =>
    "stripped logger calls".toList ++ field "path" p.display ++
      field "removed_lines" (Text.ofNat removed) ++ field "dry_run" (ofBool dryRun)
  | sweepFinished removed =>
    "strip run finished".toList ++ field "removed_lines" (Text.ofNat removed)

def line (e : Event) : Text := e.severity.name ++ [' '] ++ e.message

def shownAt (level : Severity) (es : List Event) : List Event :=
  es.filter (·.severity.shownAt level)

end Event
end LogSweep
