import LogSweep.FileSystem.Change
import LogSweep.Program

/-! The command. It takes a snapshot of the configuration files and of the tree, executes the
program on the snapshot and does in order what the program does there. -/
namespace LogSweep.Command

/-- A path in the form that the system takes. -/
def native (p : Path) := System.mkFilePath [String.ofList p.display]

/-- The path that a text of the system spells. -/
def spelled (s : String) : Path := Path.ofText s.toList

/-- The path without links that a path leads to. -/
def target (p : Path) : IO Path := return spelled (← IO.FS.realPath (native p)).toString

/-- A file, which may be read only, or not even that. -/
def file (p : Path) : IO Entry := do
  try
    let content ← IO.FS.readBinFile (native p)
    let write ← try discard (IO.FS.Handle.mk (native p) .append); pure true catch _ => pure false
    return .file { write } content.toList
  catch _ => return .file { read := false } []

/-- The entry at a path with all that lies below it, as far as files are to be read and directories
to be listed. It is reached by its path without links, because the other one may be too long. -/
partial def entry (reads : Path → Bool) (lists : Bytes → Bool) (p real : Path) : IO Entry := do
  match (← (native real).symlinkMetadata).type with
  | .dir =>
    try
      let below ← (← (native real).readDir).toList.filterMapM fun d => do
        let some n := Name.ofBytes? (spelled d.fileName) | return none
        let child := real.join n.bytes
        let empty := !lists n.bytes && (← (native child).isDir)
        let e ← if empty then pure (.dir {} []) else entry reads lists (p.join n.bytes) child
        return some (n, e)
      return .dir {} below
    catch _ => return .dir { read := false } []
  | .file => if reads p then file real else return .file {} []
  | _ => try return .link (← target real) catch _ => return .link [0]

/-- The snapshot with the directories and links that a path goes through. -/
def withWay (fs : FileSystem) (p : Path) : IO FileSystem := do
  let mut fs := fs
  let mut here : Path := if p.isAbsolute then [Path.slash] else []
  for part in p.parts do
    here := here.join part
    match (← (native here).symlinkMetadata).type with
    | .dir => fs := fs.make (.dir {} []) here
    | .symlink => fs := (fs.make (.link (← target here)) here).make (.dir {} []) (← target here)
    | _ => pure ()
  return fs

/-- The snapshot with what a path leads to, if it leads anywhere. -/
def withEntry (reads : Path → Bool) (lists : Bytes → Bool) (fs : FileSystem) (p : Path) :
    IO FileSystem := do
  try
    let real ← target p
    return ((← withWay fs p).remove real).make (← entry reads lists p real) real
  catch _ => return fs

/-- The snapshot for an invocation. The settings tell which files of the tree are to be read. -/
def snapshot (env : Environment) (i : Invocation) (fs : FileSystem) : IO FileSystem := do
  let here := Path.ofText ['.']
  let configs := env.globalConfig?.toList ++ [Layers.localConfig here] ++
    (i.request.config.map Path.ofText).toList
  let withConfigs := configs.foldlM fun fs p => withEntry (· == p) (fun _ => false) fs p
  match (Layers.setupIn (← withConfigs fs) env here i.request).2 with
  | .error _ => withConfigs fs
  | .ok setup =>
    let s := Selection.ofSettings setup.settings
    withConfigs (← withEntry s.isCandidate (!s.excludes ·) fs s.root)

/-- Does an act that is not refused. -/
def perform : Act → IO Unit
  | .tell e => IO.eprintln (String.ofList e.line)
  | .write p t none => IO.FS.writeBinFile (native p) ⟨(Utf8.encode t).toArray⟩
  | a => IO.print (String.ofList a.printed)

def run (args : List Bytes) : IO UInt32 := do
  let value (name : String) := return (← IO.getEnv name).map spelled
  let env : Environment := {
    home := ← value "HOME", configHome := ← value "XDG_CONFIG_HOME"
    config := ← value "LOGSTRIP_CONFIG", logLevel := ← value "LOGSTRIP_LOG_LEVEL" }
  let cwd := spelled (← IO.currentDir).toString
  let empty := (FileSystem.mk (.dir {} []) []).make (.dir {} []) cwd
  let fs := { empty with cwd := cwd.parts.filterMap Name.ofBytes? }
  let fs ← match CommandLine.parse env args with
    | .ok i => snapshot env i fs
    | .error _ => pure fs
  let x := Program.execute {} env args fs
  x.acts.forM perform
  if let some complaint := x.complaint then IO.eprintln (String.ofList complaint)
  return x.status.toUInt32

end LogSweep.Command

/-- Executes the program with the arguments of the command. -/
def main (args : List String) : IO UInt32 :=
  LogSweep.Command.run (args.map LogSweep.Command.spelled)
