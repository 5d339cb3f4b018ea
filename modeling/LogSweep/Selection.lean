import LogSweep.Config
import LogSweep.Path

/-! Which files of a tree are cleaned: those with one of the given extensions on whose path no
component has an excluded name. -/
namespace LogSweep

/-- The choice of files in a tree. -/
structure Selection where
  root : Path
  /-- The extensions, without the dot in front of them. -/
  extensions : List Text
  /-- The names of directories and files to leave alone. -/
  excluded : List Text
  deriving DecidableEq, Repr

namespace Selection

def ofSettings (s : Settings) : Selection := ⟨Path.ofText s.root, s.extensions, s.excluded⟩

/-- A name is excluded. One that is not UTF-8 never is. -/
def excludes (s : Selection) (n : Bytes) : Bool := (Utf8.decode? n).any (s.excluded.contains ·)

/-- The path has one of the extensions. An extension that is not UTF-8 is none of them. -/
def hasExtension (s : Selection) (p : Path) : Bool :=
  (p.extension?.bind Utf8.decode?).any (s.extensions.contains ·)

/-- The file at a path is to be cleaned. -/
def isCandidate (s : Selection) (p : Path) : Bool :=
  s.hasExtension p && !p.components.any fun c => s.excludes c.spelling

end Selection
end LogSweep
