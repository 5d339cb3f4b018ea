import LogSweep.FileSystem.Content

/-! Making and removing entries. -/
namespace LogSweep.FileSystem

/-- The place where steps to a new entry end. A link there leads on to where its target ends, for
at most the given number of links. -/
def site (root : Entry) : Nat → List Part → Place → Option Place
  | links, path, start =>
    match locateWithin root true maxLinks path.dropLast start, path.getLast?.bind Name.ofBytes? with
    | .ok here, some n =>
      match links, root.get? (here ++ [n]) with
      | links + 1, some (.link target) =>
        site root links (steps target) (if target.isAbsolute then [] else here)
      | 0, some (.link _) => none
      | _, _ => some (here ++ [n])
    | _, _ => none

/-- The file system with one more entry where steps end. Nothing changes if the name is taken,
except that a file takes the content of the new one and a link leads a file on. -/
def add (fs : FileSystem) (e : Entry) (path : List Part) (start : Place) : FileSystem :=
  match site fs.root (if e.isFile then maxLinks else 0) path start with
  | some place => { fs with root := fs.root.alter (fun old => some (e.onto old)) place }
  | none => fs

/-- The file system with the directories that steps from a place go through, each made where it is
missing, and the place that the steps lead to. -/
def addDirs (fs : FileSystem) (here : Place) : List Part → FileSystem × Option Place
  | [] => (fs, some here)
  | part :: rest =>
    let fs := fs.add (.dir {} []) [part] here
    match locateWithin fs.root true maxLinks [part] here with
    | .ok next => addDirs fs next rest
    | .error _ => (fs, none)

/-- The file system with one more entry at a path, in directories that are made where they are
missing. -/
def make (fs : FileSystem) (e : Entry) (p : Path) : FileSystem :=
  match fs.addDirs (if p.isAbsolute then [] else fs.cwd) p.parts.dropLast with
  | (fs, some here) => fs.add e p.parts.getLast?.toList here
  | (fs, none) => fs

/-- The file system without the entry that a path names, which may be a whole tree. -/
def remove (fs : FileSystem) (p : Path) : FileSystem :=
  match fs.locate false p with
  | .ok place => { fs with root := fs.root.alter (fun _ => none) place }
  | .error _ => fs

end LogSweep.FileSystem
