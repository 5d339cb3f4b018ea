import LogSweep.FileSystem.Locate

/-! The contents of files. A file that is written keeps its access, and a write that is refused
leaves everything as it was. -/
namespace LogSweep.FileSystem

/-- The bytes of the file that a path leads to. -/
def read (fs : FileSystem) (p : Path) : Except IoError Bytes :=
  match fs.stat p with
  | .error e => .error e
  | .ok (.file access content) => if access.read then .ok content else .error .denied
  | .ok (.dir access _) => .error (if access.read then .isDirectory else .denied)
  | .ok (.link _) => .error .linkLoop

/-- The text of the file that a path leads to. -/
def readText (fs : FileSystem) (p : Path) : Except IoError Text :=
  match fs.read p with
  | .error e => .error e
  | .ok content =>
    match Utf8.decode? content with
    | some t => .ok t
    | none => .error .invalidText

/-- The file system with another content of the file at a place. -/
def put (fs : FileSystem) (content : Bytes) (place : Place) : FileSystem :=
  { fs with root := fs.root.put content place }

/-- The file system after a write to the existing file that a path leads to. -/
def write (fs : FileSystem) (p : Path) (content : Bytes) : Except IoError FileSystem :=
  match fs.locate true p with
  | .error e => .error e
  | .ok place =>
    match fs.root.get? place with
    | some (.file access _) => if access.write then .ok (fs.put content place) else .error .denied
    | some (.dir _ _) => .error .isDirectory
    | some (.link _) => .error .linkLoop
    | none => .error .notFound

/-- The file system after a text is written to the existing file that a path leads to. -/
def writeText (fs : FileSystem) (p : Path) (t : Text) : Except IoError FileSystem :=
  fs.write p (Utf8.encode t)

/-- The files below the working directory with their paths from there and their contents. -/
def files (fs : FileSystem) : List (Path × Bytes) :=
  match fs.root.get? fs.cwd with
  | some e => e.files.map fun f => ([Path.slash].intercalate (f.1.map Name.bytes), f.2)
  | none => []

end LogSweep.FileSystem
