import LogSweep.Act
import LogSweep.Cleaning
import LogSweep.Failure
import LogSweep.FileSystem.Content
import LogSweep.Walk

/-! Sweeping a tree: all files to clean are collected before the first one is touched, and then
each is cleaned and, where that changes it, written back and reported. The first failure ends the
sweep, and what has been written stays. -/
namespace LogSweep

/-- What cleaning one file leads to. -/
structure FileSweep where
  files : FileSystem
  /-- What was done, in order. -/
  acts : List Act
  /-- The number of lines removed, if the file changed. -/
  outcome : Except Failure (Option Nat)

/-- What a sweep leads to. -/
structure Sweep where
  files : FileSystem
  /-- What was done, in order. -/
  acts : List Act
  outcome : Except Failure Tally

/-- A reporter is told each modified path after the paths reported before. It may change files,
and it may fail. -/
abbrev Reporter := List Path → Path → FileSystem → FileSystem × Option IoError

namespace Sweep

/-- The events told of, in order. -/
def events (w : Sweep) : List Event := w.acts.filterMap Act.told?

/-- The paths given to the reporter, in order. -/
def reported (w : Sweep) : List Path := w.acts.filterMap Act.reported?

/-- The warnings about a cleaned file. -/
def warnings (p : Path) (c : Cleaning) : List Event :=
  if c.unterminated then [.unterminated p] else []

/-- A text is read, and it is warned of if it ends inside a call. -/
def reading (p : Path) (t : Text) : List Act :=
  .read p t :: (warnings p t.clean).map .tell

/-- Cleans the file at a path. In a dry run it is not written back. -/
def file (dryRun : Bool) (p : Path) (fs : FileSystem) : FileSweep :=
  match fs.readText p with
  | .error e => ⟨fs, [], .error (.read p e)⟩
  | .ok t =>
    let c := t.clean
    let cleaned := Act.tell (.cleaned p c.removed dryRun)
    if c.changed then
      if dryRun then ⟨fs, reading p t ++ [cleaned], .ok (some c.removed)⟩
      else
        match fs.writeText p c.text with
        | .error e => ⟨fs, reading p t ++ [.write p c.text (some e)], .error (.write p e)⟩
        | .ok written =>
          ⟨written, reading p t ++ [.write p c.text none, cleaned], .ok (some c.removed)⟩
    else ⟨fs, reading p t, .ok none⟩

/-- A sweep with the acts about an unmodified file in front. -/
def afterUnmodified (acts : List Act) (s : Sweep) : Sweep :=
  { s with acts := acts ++ s.acts, outcome := s.outcome.map Tally.examineOne }

/-- A sweep with the acts about a modified file in front. -/
def afterModified (acts : List Act) (p : Path) (removed : Nat) (s : Sweep) : Sweep :=
  { s with
    acts := acts ++ s.acts
    outcome := s.outcome.map fun t => (t.modifyOne p removed).examineOne }

/-- Cleans the files at the given paths one after the other. -/
def each (dryRun : Bool) (report : Reporter) : List Path → List Path → FileSystem → Sweep
  | _, [], fs => ⟨fs, [], .ok {}⟩
  | earlier, p :: ps, fs =>
    let f := file dryRun p fs
    let acts := .tell (.examining p) :: f.acts
    match f.outcome with
    | .error e => ⟨f.files, acts, .error e⟩
    | .ok none => (each dryRun report earlier ps f.files).afterUnmodified acts
    | .ok (some removed) =>
      match report earlier p f.files with
      | (fs, some e) => ⟨fs, acts ++ [.report p (some e)], .error (.report e)⟩
      | (fs, none) =>
        (each dryRun report (earlier ++ [p]) ps fs).afterModified
          (acts ++ [.report p none]) p removed

def tree (s : Selection) (dryRun : Bool) (report : Reporter) (fs : FileSystem) : Sweep :=
  match s.collect fs with
  | .error (p, e) => ⟨fs, [], .error (.walk p e)⟩
  | .ok ps => each dryRun report [] ps fs

end Sweep
end LogSweep
