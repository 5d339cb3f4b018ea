import LogSweep.Path
import LogSweep.Text.Digits

/-! The totals of a sweep and the lines that report them. -/
namespace LogSweep

/-- What a sweep counts. -/
structure Tally where
  /-- The number of files that were read. -/
  examined : Nat := 0
  /-- The files that changed, or would change in a dry run, in order. -/
  modified : List Path := []
  /-- The number of lines removed from all of them. -/
  removed : Nat := 0
  deriving DecidableEq, Repr

namespace Tally

def reportLine (p : Path) : Text := "✓ ".toList ++ p.display

def summaryLine (t : Tally) (dryRun : Bool) : Text :=
  "Processed ".toList ++ Text.ofNat t.examined ++ " files, ".toList ++
    (if dryRun then "would modify" else "modified").toList ++ [' '] ++
    Text.ofNat t.modified.length ++ " files".toList

def examineOne (t : Tally) : Tally := { t with examined := t.examined + 1 }

/-- The totals with one more file modified, from which the given number of lines was removed. -/
def modifyOne (p : Path) (removed : Nat) (t : Tally) : Tally :=
  { t with modified := p :: t.modified, removed := removed + t.removed }

example : (summaryLine ⟨2, [], 0⟩ true) = "Processed 2 files, would modify 0 files".toList := by
  decide +kernel

end Tally
end LogSweep
