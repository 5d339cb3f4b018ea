import LogSweep.Path

/-! Trees of files. An entry of a directory is a file, a link or a directory, and a place is the
list of names that leads to it from the top. -/
namespace LogSweep

/-- A name that an entry can have: it is neither empty nor `.` nor `..`, and it has no slash. -/
structure Name where
  bytes : Bytes
  proper : (bytes != [] && bytes != [Path.dot] && bytes != [Path.dot, Path.dot] &&
    !bytes.contains Path.slash) = true
  deriving DecidableEq

namespace Name

/-- The name with the given bytes, if they make one. -/
def ofBytes? (b : Bytes) : Option Name :=
  if h : (b != [] && b != [Path.dot] && b != [Path.dot, Path.dot] && !b.contains Path.slash) = true
  then some ⟨b, h⟩ else none

/-- Names are in the order of their bytes. -/
instance : LT Name := ⟨fun a b => a.bytes < b.bytes⟩

instance (a b : Name) : Decidable (a < b) := inferInstanceAs (Decidable (a.bytes < b.bytes))

theorem ext_bytes {a b : Name} (h : a.bytes = b.bytes) : a = b := by
  cases a; cases b; cases h; rfl

theorem bytes_ne_nil (n : Name) : n.bytes ≠ [] := fun h => by
  have hp := n.proper
  simp [h] at hp

theorem bytes_ne_dot (n : Name) : n.bytes ≠ [Path.dot] := fun h => by
  have hp := n.proper
  simp [h] at hp

theorem bytes_ne_dot_dot (n : Name) : n.bytes ≠ [Path.dot, Path.dot] := fun h => by
  have hp := n.proper
  simp [h] at hp

theorem slash_notMem_bytes (n : Name) : Path.slash ∉ n.bytes := fun h => by
  have hp := n.proper
  simp [h] at hp

end Name

/-- What is permitted. A file can be read and written; a directory can be listed, which is reading
it, and searched, which is going through it. -/
structure Access where
  read : Bool := true
  write : Bool := true
  search : Bool := true
  deriving DecidableEq, Repr

/-- A file, a link or a directory. Where a directory has several entries of one name, the first
one counts. Each file has its own content, so two names of one file (hard links) cannot be written
down, and neither can devices, pipes and sockets. -/
inductive Entry where
  | file (access : Access) (content : Bytes)
  | link (target : Path)
  | dir (access : Access) (entries : List (Name × Entry))

/-- The names that lead to an entry from the top of a tree. -/
abbrev Place := List Name

namespace Entry

/-- The entry is a directory, and no link to one. -/
def isDir : Entry → Bool
  | .dir _ _ => true
  | _ => false

/-- The entry is a file, and no link to one. -/
def isFile : Entry → Bool
  | .file _ _ => true
  | _ => false

/-- The entry with the given bytes for its name. -/
def named? (part : Bytes) (entries : List (Name × Entry)) : Option (Name × Entry) :=
  entries.find? (·.1.bytes == part)

def child? (n : Name) (entries : List (Name × Entry)) : Option Entry :=
  (entries.find? (·.1 = n)).map (·.2)

def get? : Place → Entry → Option Entry
  | [], e => some e
  | n :: place, .dir _ entries => (child? n entries).bind (get? place)
  | _ :: _, _ => none

/-- The entries with the one of a name changed or removed, or with a new one of that name. -/
def alterChild (n : Name) (f : Option Entry → Option Entry) :
    List (Name × Entry) → List (Name × Entry)
  | [] => ((f none).map fun e => (n, e)).toList
  | (m, e) :: rest =>
    if m = n then ((f (some e)).map fun e => (n, e)).toList ++ rest
    else (m, e) :: alterChild n f rest

/-- The tree with the entry at a place changed, removed or made. Nothing changes where there is no
directory that could hold the entry. -/
def alter (f : Option Entry → Option Entry) : Place → Entry → Entry
  | [], e => (f (some e)).getD e
  | [n], .dir access entries => .dir access (alterChild n f entries)
  | n :: m :: place, .dir access entries =>
    .dir access (alterChild n (Option.map (alter f (m :: place))) entries)
  | _ :: _, e => e

/-- The entry with another content, if it is a file. -/
def withContent (content : Bytes) : Entry → Entry
  | .file access _ => .file access content
  | e => e

/-- What a new entry makes of an old one of its name. A file takes the content of a new file, and
else the old entry stays. -/
def onto : Entry → Option Entry → Entry
  | e, none => e
  | .file _ content, some old => old.withContent content
  | _, some old => old

/-- The tree with another content of the file at a place. -/
def put (content : Bytes) (place : Place) (e : Entry) : Entry :=
  alter (Option.map (withContent content)) place e

mutual

/-- The files of a tree with their places and contents. Links are not followed. -/
def files : Entry → List (Place × Bytes)
  | .file _ content => [([], content)]
  | .link _ => []
  | .dir _ entries => filesOf entries

def filesOf : List (Name × Entry) → List (Place × Bytes)
  | [] => []
  | (n, e) :: rest =>
    e.files.map (fun f => (n :: f.1, f.2)) ++ (filesOf rest).filter (·.1.head? ≠ some n)

end

end Entry
end LogSweep
