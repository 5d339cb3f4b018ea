import LogSweep.FileSystem.Locate
import LogSweep.Selection

/-! Walking a tree. A directory is visited in the order of the names of its entries, each entry
with all that lies below it before the next one. Directories of excluded names are not entered,
and links below the root are neither followed nor visited. -/
namespace LogSweep

/-- What a walk meets: a file, or a path at which it cannot go on. -/
inductive Visit where
  | file (p : Path)
  | failure (p : Path) (cause : IoError)
  deriving DecidableEq, Repr

namespace Visit

def file? : Visit → Option Path
  | .file p => some p
  | .failure _ _ => none

/-- The path at which the walk could not go on, with the cause. -/
def failure? : Visit → Option (Path × IoError)
  | .file _ => none
  | .failure p e => some (p, e)

end Visit

namespace Walk

/-- Puts something at its place in a list in the order of names. A thing of the same name makes way
for it. -/
def arrange (n : Name) (x : α) : List (Name × α) → List (Name × α)
  | [] => [(n, x)]
  | (m, y) :: rest =>
    if n < m then (n, x) :: (m, y) :: rest
    else if n = m then (n, x) :: rest
    else (m, y) :: arrange n x rest

mutual

/-- The visits to an entry with a path and to all that lies below it. A directory can be listed if
its path is not too long and can be searched, and its access permits it. -/
def visits (skip : Name → Bool) (reachable : Bool) : Entry → Path → List Visit
  | .file _ _, p => [.file p]
  | .link _, _ => []
  | .dir access entries, p =>
    if FileSystem.pathLimit ≤ p.length then [.failure p .nameTooLong]
    else if reachable && access.read then
      (visitsBelow skip access.search entries p).flatMap (·.2)
    else [.failure p .denied]

/-- The visits to the entries of a directory with a path, by name and in the order of names. -/
def visitsBelow (skip : Name → Bool) (reachable : Bool) :
    List (Name × Entry) → Path → List (Name × List Visit)
  | [], _ => []
  | (n, e) :: rest, p =>
    let here := if e.isDir && skip n then [] else visits skip reachable e (p.join n.bytes)
    arrange n here (visitsBelow skip reachable rest p)

end

/-- The visits of a walk from a path. A link to a directory is followed there, and only there. -/
def visitsFrom (skip : Bytes → Bool) (fs : FileSystem) (root : Path) : List Visit :=
  let below (e : Entry) := visits (fun n => skip n.bytes) true e root
  match fs.lstat root with
  | .error e => [.failure root e]
  | .ok (.file access content) => below (.file access content)
  | .ok (.dir access entries) => if skip root.lastName then [] else below (.dir access entries)
  | .ok (.link _) =>
    match fs.stat root with
    | .error e => [.failure root e]
    | .ok (.dir access entries) => below (.dir access entries)
    | .ok _ => []

end Walk

namespace Selection

/-- The visits of a walk from the root of a selection. -/
def visits (s : Selection) (fs : FileSystem) : List Visit := Walk.visitsFrom s.excludes fs s.root

/-- The files to clean in the order of the walk, or the first failure of the walk. -/
def collect (s : Selection) (fs : FileSystem) : Except (Path × IoError) (List Path) :=
  let vs := s.visits fs
  match vs.findSome? Visit.failure? with
  | some failure => .error failure
  | none => .ok ((vs.filterMap Visit.file?).filter s.isCandidate)

end Selection
end LogSweep
