import LogSweep.Environment
import LogSweep.Event
import LogSweep.Failure
import LogSweep.FileSystem.Content

/-! The layers of configuration. The last file with a section for the settings decides all of them,
and the first file that is none ends the run. -/
namespace LogSweep

/-- What a run is asked to do. -/
structure Request where
  /-- The path of the tree, in place of the configured one. -/
  root : Option Text := none
  /-- One more configuration file, which has to exist. -/
  config : Option Text := none
  dryRun : Bool := false
  deriving DecidableEq, Repr

/-- What a run goes by. -/
structure Setup where
  settings : Settings
  dryRun : Bool
  deriving DecidableEq, Repr

namespace Settings

/-- The settings that a request leads to. The dots in front of extensions do not count. -/
def adapted (s : Settings) (r : Request) : Settings :=
  { s with
    root := r.root.getD s.root
    extensions := s.extensions.map (·.dropWhile (· = '.')) }

end Settings

namespace Layers

def config (fs : FileSystem) (p : Path) : Except Failure Config :=
  match fs.readText p with
  | .error e => .error (.unreadableConfig p e)
  | .ok source =>
    match Config.ofText source with
    | .error e => .error (.invalidConfig p source e)
    | .ok c => .ok c

/-- The settings after the files at the given paths, with an event for each file read. -/
def merge (fs : FileSystem) : List Path → Settings → List Event × Except Failure Settings
  | [], s => ([], .ok s)
  | p :: ps, s =>
    match config fs p with
    | .error e => ([], .error e)
    | .ok c =>
      let (events, outcome) := merge fs ps (c.settings.getD s)
      (.configLoaded p :: events, outcome)

/-- What files and a request lead to. -/
def setupFrom (fs : FileSystem) (sources : List Path) (r : Request) :
    List Event × Except Failure Setup :=
  let (events, outcome) := merge fs sources {}
  (events, outcome.map fun s => ⟨s.adapted r, r.dryRun⟩)

/-- The path of the configuration file of a directory. -/
def localConfig (dir : Path) : Path := dir.join (Path.ofText ".logstrip.toml".toList)

/-- The configuration files of a run: the global one and the one of a directory, if they exist,
and the one that the request names. -/
def sources (fs : FileSystem) (env : Environment) (dir : Path) (r : Request) : List Path :=
  (env.globalConfig?.toList ++ [localConfig dir]).filter fs.exists? ++
    (r.config.map Path.ofText).toList

/-- What a run goes by whose local configuration lies in a directory. -/
def setupIn (fs : FileSystem) (env : Environment) (dir : Path) (r : Request) :
    List Event × Except Failure Setup :=
  setupFrom fs (sources fs env dir r) r

end Layers
end LogSweep
