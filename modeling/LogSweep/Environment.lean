import LogSweep.Path

/-! The variables of the environment that matter, and the place of the global configuration. -/
namespace LogSweep

/-- The values of the variables that are set, and the home directory that the account of the user
names. -/
structure Environment where
  home : Option Bytes := none
  /-- The directory of configurations, in place of the one in the home directory. -/
  configHome : Option Bytes := none
  /-- The configuration file, where the command line names none. -/
  config : Option Bytes := none
  /-- The least severity of shown events, where the command line gives none. -/
  logLevel : Option Bytes := none
  /-- The home directory of the account. It counts where the variable for it is not set or empty. -/
  accountHome : Option Bytes := none
  deriving DecidableEq, Repr

namespace Environment

def home? (env : Environment) : Option Path :=
  (env.home.filter (!·.isEmpty)).or (env.accountHome.filter (!·.isEmpty))

/-- The directory of configurations. Its variable counts if it is a text that is not empty. -/
def configHome? (env : Environment) : Option Path :=
  match env.configHome.filter fun p => !p.isEmpty && (Utf8.decode? p).isSome with
  | some p => some p
  | none => env.home?.map (Path.join · (Path.ofText ".config".toList))

def globalConfig? (env : Environment) : Option Path :=
  env.configHome?.map fun p =>
    (p.join (Path.ofText "logstrip".toList)).join (Path.ofText "config.toml".toList)

end Environment
end LogSweep
