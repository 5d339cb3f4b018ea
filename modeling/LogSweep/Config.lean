import LogSweep.Decimal.Shortest
import LogSweep.Text.Quoted
import LogSweep.Toml.Document
import LogSweep.Toml.Excerpt

/-! Configuration files: a version and the settings of a sweep. Keys of no meaning are ignored,
settings that are left out have their defaults, and the first value of a wrong kind, in the order
of the document, is the error. -/
namespace LogSweep

/-- The settings of a sweep. -/
structure Settings where
  root : Text := "src".toList
  extensions : List Text := ["ts".toList, "tsx".toList]
  /-- The names of directories and files to leave alone. -/
  excluded : List Text := ["node_modules".toList]
  deriving DecidableEq, Repr

/-- The version of configuration files, which a file without one has. -/
def Config.currentVersion : Text := "1".toList

/-- What a configuration file says. -/
structure Config where
  version : Text := Config.currentVersion
  /-- The settings, if the file has a section for them. -/
  settings : Option Settings := none
  deriving DecidableEq, Repr

namespace Config

def supportedVersions : List Text := [currentVersion]

/-- The kinds of values that fields ask for. -/
inductive Kind where
  | text
  | list
  | settings
  deriving DecidableEq, Repr

/-- A value of a wrong kind, where a field asks for another one. -/
structure Mismatch where
  found : Toml.Spanned Toml.Value
  expected : Kind

/-- Why a text is no configuration. -/
inductive Error where
  /-- The text is no TOML document. Where and why it is none is left out. -/
  | malformed
  | mismatch (m : Mismatch)
  | unsupportedVersion (version : Text)

namespace Kind

def describe : Kind → Text
  | text => "a string".toList
  | list => "a sequence".toList
  | settings => "struct StripConfig".toList

end Kind

namespace Mismatch

def describe : Toml.Value → Text
  | .string t => "string ".toList ++ t.quoted
  | .integer n => "integer `".toList ++ (toString n).toList ++ "`".toList
  | .float x => "floating point `".toList ++ x.positional ++ "`".toList
  | .boolean b => "boolean `".toList ++ (if b then "true" else "false").toList ++ "`".toList
  | .moment => "map".toList
  | .array _ => "sequence".toList
  | .table _ => "map".toList

def message (m : Mismatch) (source : Text) : Text :=
  (Toml.Excerpt.ofSpan source m.found.span).message <|
    "invalid type: ".toList ++ describe m.found.item ++ ", expected ".toList ++ m.expected.describe

end Mismatch

namespace Error

/-- The message about a source that is no configuration. About a source that is no TOML document it
is only the first words of the real one. -/
def message (source : Text) : Error → Text
  | malformed => "TOML parse error".toList
  | mismatch m => m.message source
  | unsupportedVersion v =>
    "Unsupported config version '".toList ++ v ++ "' (supported: ".toList ++
      ", ".toList.intercalate supportedVersions ++ [')']

end Error

def text (v : Toml.Spanned Toml.Value) : Except Mismatch Text :=
  match v.item with
  | .string t => .ok t
  | _ => .error ⟨v, .text⟩

/-- A value that has to be a list of texts. -/
def texts (v : Toml.Spanned Toml.Value) : Except Mismatch (List Text) :=
  match v.item with
  | .array items => items.mapM text
  | _ => .error ⟨v, .list⟩

end Config

namespace Settings
open Config

/-- The settings changed by one entry of their table. -/
def set (s : Settings) : Text × Toml.Spanned Toml.Value → Except Mismatch Settings
  | (key, v) =>
    if key = "root".toList then return { s with root := ← text v }
    else if key = "extensions".toList then return { s with extensions := ← texts v }
    else if key = "exclude_dirs".toList then return { s with excluded := ← texts v }
    else return s

/-- The settings that an array gives by position. -/
def ofItems : List (Toml.Spanned Toml.Value) → Except Mismatch Settings
  | [] => return {}
  | [r] => return { root := ← text r }
  | [r, e] => return { root := ← text r, extensions := ← texts e }
  | r :: e :: x :: _ =>
    return { root := ← text r, extensions := ← texts e, excluded := ← texts x }

/-- A value that has to hold settings. A date or a time counts as an empty table. -/
def ofValue (v : Toml.Spanned Toml.Value) : Except Mismatch Settings :=
  match v.item with
  | .table entries => entries.foldlM set {}
  | .array items => ofItems items
  | .moment => return {}
  | _ => .error ⟨v, .settings⟩

end Settings

namespace Config

/-- The configuration changed by one entry of its document. -/
def set (c : Config) : Text × Toml.Spanned Toml.Value → Except Mismatch Config
  | (key, v) =>
    if key = "version".toList then return { c with version := ← text v }
    else if key = "strip".toList then return { c with settings := some (← Settings.ofValue v) }
    else return c

/-- The configuration that the table of a document holds, of any version. -/
def ofTable (t : Toml.Table) : Except Mismatch Config := t.foldlM set {}

def supported (c : Config) : Except Error Config :=
  if c.version ∈ supportedVersions then .ok c else .error (.unsupportedVersion c.version)

def ofText (source : Text) : Except Error Config :=
  match Toml.Table.ofText? source with
  | none => .error .malformed
  | some t =>
    match ofTable t with
    | .error m => .error (.mismatch m)
    | .ok c => c.supported

end Config
end LogSweep
