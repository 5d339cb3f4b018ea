import LogSweep.Config
import LogSweep.FileSystem.IoError
import LogSweep.Path

/-! Why a sweep fails. -/
namespace LogSweep

/-- Why a sweep fails. -/
inductive Failure where
  /-- A configuration file cannot be read. -/
  | unreadableConfig (p : Path) (cause : IoError)
  /-- A configuration file, whose text is given, is no configuration. -/
  | invalidConfig (p : Path) (source : Text) (cause : Config.Error)
  /-- The walk cannot go on at a path. -/
  | walk (p : Path) (cause : IoError)
  | read (p : Path) (cause : IoError)
  | write (p : Path) (cause : IoError)
  /-- The line about a modified file cannot be written. -/
  | report (cause : IoError)
  /-- The lines that close the report cannot be written. -/
  | closing (cause : IoError)

namespace Failure

/-- The message about a path and the cause that concerns it. -/
def about (what : String) (p : Path) (cause : Text) : Text :=
  what.toList ++ p.display ++ ": ".toList ++ cause

def message : Failure → Text
  | unreadableConfig p e => about "Configuration error: Failed to read config from " p e.message
  | invalidConfig p source e =>
    about "Configuration error: Failed to parse config from " p (e.message source)
  | walk p e => about "Walk error: IO error for operation on " p e.message
  | read p e => about "Failed to read " p e.message
  | write p e => about "Failed to write " p e.message
  | report e => "Failed to write report: ".toList ++ e.message
  | closing e => e.message

end Failure

/-- An outcome with a value is a success. -/
theorem eq_ok_of_toOption {ε α : Type} {x : Except ε α} {a : α} (h : x.toOption = some a) :
    x = .ok a := by
  cases x with
  | error e => cases h
  | ok b => exact congrArg Except.ok (Option.some.inj h)

/-- A success that is mapped is one beforehand. -/
theorem map_eq_ok {ε α β : Type} {x : Except ε α} {f : α → β} {y : β} (h : x.map f = .ok y) :
    ∃ a, x = .ok a ∧ f a = y := by
  cases x with
  | error e => cases h
  | ok a => exact ⟨a, rfl, Except.ok.inj h⟩

/-- Steps one after the other succeed if each of them does. -/
theorem bind_eq_ok {ε α β : Type} {a : Except ε α} {f : α → Except ε β} {y : β}
    (h : a >>= f = .ok y) : ∃ x, a = .ok x ∧ f x = .ok y := by
  cases a with
  | error e => cases h
  | ok x => exact ⟨x, rfl, h⟩

end LogSweep
