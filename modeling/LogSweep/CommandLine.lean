import LogSweep.Environment
import LogSweep.Event
import LogSweep.Layers
import LogSweep.Text.Visible

/-! The command line. Arguments are read from left to right. The value of an option and the path of
the tree are only taken once the next argument is known, so a mistake in what is read next can
come before a mistake in them. Variables stand in for options that are not given. -/
namespace LogSweep

/-- What the command line can give a value to. -/
inductive Parameter where
  | root
  | config
  | logLevel
  | dryRun
  deriving DecidableEq, Repr

/-- A mistake in the command line. -/
inductive UsageError where
  | unexpectedArgument (shown : Text)
  | unexpectedValue (value flag : Text)
  | missingValue (p : Parameter)
  | repeated (p : Parameter)
  | invalidText
  deriving DecidableEq, Repr

/-- Why a command line starts no run. -/
inductive Halt where
  | help
  | version
  | usage (e : UsageError)
  deriving DecidableEq, Repr

/-- A request with the level at which its events are shown. -/
structure Invocation where
  request : Request
  level : Text
  deriving DecidableEq, Repr

namespace Parameter

def shown : Parameter → Text
  | root => "[ROOT]".toList
  | config => "--config <CONFIG>".toList
  | logLevel => "--log-level <LOG_LEVEL>".toList
  | dryRun => "--dry-run".toList

end Parameter

namespace UsageError

/-- The message about a mistake. Of an argument, only what is visible is shown. -/
def message : UsageError → Text
  | unexpectedArgument a =>
    "error: unexpected argument '".toList ++ Text.visible a ++ "' found".toList
  | unexpectedValue v flag =>
    "error: unexpected value '".toList ++ Text.visible v ++ "' for '".toList ++ flag ++
      "' found; no more were expected".toList
  | missingValue p =>
    "error: a value is required for '".toList ++ p.shown ++ "' but none was supplied".toList
  | repeated p =>
    "error: the argument '".toList ++ p.shown ++ "' cannot be used multiple times".toList
  | invalidText => "error: invalid UTF-8 was detected in one or more arguments".toList

end UsageError

namespace CommandLine

/-- What has been read of a command line. -/
structure Reading where
  root : Option Text := none
  config : Option Text := none
  logLevel : Option Text := none
  dryRun : Bool := false
  /-- The parameter whose value is taken next, with the value if that has been read. -/
  pending : Option (Parameter × Option Bytes) := none
  rootRead : Bool := false
  /-- All further arguments are paths. -/
  onlyPaths : Bool := false
  deriving DecidableEq, Repr

namespace Reading

def has (r : Reading) : Parameter → Bool
  | .root => r.root.isSome
  | .config => r.config.isSome
  | .logLevel => r.logLevel.isSome
  | .dryRun => r.dryRun

def set (r : Reading) (p : Parameter) (t : Text) : Reading :=
  match p with
  | .root => { r with root := some t }
  | .config => { r with config := some t }
  | .logLevel => { r with logLevel := some t }
  | .dryRun => { r with dryRun := true }

/-- The reading in which a parameter has taken a value. -/
def take (r : Reading) (p : Parameter) (value : Bytes) : Except Halt Reading :=
  if r.has p then .error (.usage (.repeated p))
  else
    match Utf8.decode? value with
    | some t => .ok (r.set p t)
    | none => .error (.usage .invalidText)

/-- The reading in which nothing is left to be taken. -/
def settle (r : Reading) : Except Halt Reading :=
  match r.pending with
  | none => .ok r
  | some (p, none) => .error (.usage (.missingValue p))
  | some (p, some value) => { r with pending := none }.take p value

def path (r : Reading) (arg : Bytes) : Except Halt Reading :=
  if r.rootRead then .error (.usage (.unexpectedArgument (Utf8.display arg)))
  else do return { ← r.settle with pending := some (.root, some arg), rootRead := true }

/-- The reading after an option with or without a value in the same argument. -/
def option (r : Reading) (p : Parameter) (value : Option Bytes) : Except Halt Reading := do
  let r ← r.settle
  match value with
  | some v => r.take p v
  | none => return { r with pending := some (p, none) }

/-- The reading after an argument that has no value, unless it has one. -/
def flag (r : Reading) (shown : String) (value : Option Bytes)
    (effect : Reading → Except Halt Reading) : Except Halt Reading :=
  match value with
  | some v => .error (.usage (.unexpectedValue (Utf8.display v) shown.toList))
  | none => r.settle >>= effect

def beDry (r : Reading) : Except Halt Reading :=
  if r.dryRun then .error (.usage (.repeated .dryRun)) else .ok { r with dryRun := true }

/-- The reading after an argument that starts with two hyphens, which are left out. -/
def long (r : Reading) (arg : Bytes) : Except Halt Reading :=
  let name := arg.takeWhile (· ≠ 0x3D)
  let value := (arg.dropWhile (· ≠ 0x3D)).tail?
  if name = Utf8.encode "config".toList then r.option .config value
  else if name = Utf8.encode "log-level".toList then r.option .logLevel value
  else if name = Utf8.encode "dry-run".toList then r.flag "--dry-run" value beDry
  else if name = Utf8.encode "help".toList then r.flag "--help" value fun _ => .error .help
  else if name = Utf8.encode "version".toList then r.flag "--version" value fun _ => .error .version
  else .error (.usage (.unexpectedArgument ("--".toList ++ Utf8.display name)))

/-- The reading after an argument that starts with one hyphen, which is left out. Only its first
letter counts, because none of the letters goes on. -/
def short (r : Reading) (arg : Bytes) : Except Halt Reading :=
  match Utf8.units none arg with
  | some 'h' :: _ => r.flag "-h" none fun _ => .error .help
  | some 'V' :: _ => r.flag "-V" none fun _ => .error .version
  | some c :: _ => .error (.usage (.unexpectedArgument ['-', c]))
  | _ => .error (.usage (.unexpectedArgument ('-' :: Utf8.display arg)))

def step (r : Reading) (arg : Bytes) : Except Halt Reading :=
  if r.onlyPaths then r.path arg
  else
    match arg, r.pending with
    | [0x2D, 0x2D], _ => .ok { r with onlyPaths := true }
    | 0x2D :: 0x2D :: name, _ => r.long name
    | 0x2D :: letter :: letters, _ => r.short (letter :: letters)
    | arg, some (p, none) => .ok { r with pending := some (p, some arg) }
    | arg, _ => r.path arg

/-- The reading in which a variable stands in for an option that is not given. -/
def orVariable (r : Reading) (p : Parameter) (value : Option Bytes) : Except Halt Reading :=
  match value with
  | some v => if r.has p then .ok r else r.take p v
  | none => .ok r

/-- The invocation at the end of the command line. Without a level, warnings are shown. -/
def finish (env : Environment) (r : Reading) : Except Halt Invocation := do
  let r ← r.settle
  let r ← r.orVariable .config env.config
  let r ← r.orVariable .logLevel env.logLevel
  return ⟨⟨r.root, r.config, r.dryRun⟩, r.logLevel.getD "warn".toList⟩

end Reading

def parse (env : Environment) (args : List Bytes) : Except Halt Invocation :=
  args.foldlM Reading.step {} >>= Reading.finish env

/-- The value of a variable as the help shows it. -/
def shownVariable (name : String) (value : Option Bytes) : Text :=
  " [env: ".toList ++ name.toList ++ ['='] ++ (value.elim [] Utf8.display).flatMap indented ++ [']']
where
  /-- The column of the help in which descriptions stand. -/
  indented (c : Char) : Text := if c = '\n' then '\n' :: List.replicate 31 ' ' else [c]

def bold (name : String) : Text := "\x1b[1m".toList ++ name.toList ++ "\x1b[0m".toList

/-- The lines of the help above the one about the level. The names of options are in bold. -/
def helpAboveLevel (config : Option Bytes) : List Text :=
  ["Strip logger.info/warn/error/debug calls from a source tree in place".toList,
    [],
    "Usage: logstrip [OPTIONS] [ROOT]".toList,
    [],
    "Arguments:".toList,
    "  [ROOT]  Directory to scan (defaults to `src`)".toList,
    [],
    "Options:".toList,
    "      ".toList ++ bold "--config" ++
      " <CONFIG>        Specify configuration file path".toList ++
      shownVariable "LOGSTRIP_CONFIG" config,
    "      ".toList ++ bold "--dry-run" ++
      "                Report files that would change without writing them".toList]

def helpOnLevel (level : Option Bytes) : Text :=
  "      ".toList ++ bold "--log-level" ++
    " <LOG_LEVEL>  Log level for diagnostics on stderr".toList ++
    shownVariable "LOGSTRIP_LOG_LEVEL" level ++ " [default: warn]".toList

def helpBelowLevel : List Text :=
  ["  ".toList ++ bold "-h" ++ ", ".toList ++ bold "--help" ++
      "                   Print help".toList,
    "  ".toList ++ bold "-V" ++ ", ".toList ++ bold "--version" ++
      "                Print version".toList,
    []]

def styledHelp (env : Environment) : Text :=
  Text.unlines (helpAboveLevel env.config ++ helpOnLevel env.logLevel :: helpBelowLevel)

/-- The help as it is printed, which is what is visible of it. A control sequence that the value
of a variable leaves open hides what follows up to the next name in bold. -/
def help (env : Environment) : Text := Text.visible (styledHelp env)

end CommandLine
end LogSweep
