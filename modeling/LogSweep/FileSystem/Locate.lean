import LogSweep.FileSystem.Entry
import LogSweep.FileSystem.IoError

/-! Finding the place that a path names. Names are looked up one by one in directories that can be
searched, `..` leads to the directory above, and links on the way are followed, at most forty of
them for one path. -/
namespace LogSweep

/-- A tree of files with the place of the working directory, where relative paths start. -/
structure FileSystem where
  root : Entry
  cwd : Place

namespace FileSystem

/-- The number of links that one path may lead through. -/
def maxLinks : Nat := 40

/-- The number of bytes that a name may have. -/
def maxNameSize : Nat := 255

/-- The number of bytes that a path has to stay below. -/
def pathLimit : Nat := 4096

/-- The steps that a path spells. One that ends in a slash has to lead to a directory. -/
def steps (p : Path) : List Part :=
  p.parts ++ if p.getLast? = some Path.slash then [[Path.dot]] else []

/-- The place that steps lead to from a directory. Links on the way are handed to `follow`, with
the directory they lie in and the steps behind them; one at the end only if it is to be followed. -/
def descend (root : Entry) (follow : Path → List Part → Place → Except IoError Place)
    (followLast : Bool) : List Part → Place → Except IoError Place
  | [], here => .ok here
  | part :: rest, here =>
    match root.get? here with
    | some (.dir access entries) =>
      if !access.search then .error .denied
      else if part = [Path.dot] then descend root follow followLast rest here
      else if part = [Path.dot, Path.dot] then descend root follow followLast rest here.dropLast
      else
        match Entry.named? part entries with
        | none => .error (if maxNameSize < part.length then .nameTooLong else .notFound)
        | some (n, .link target) =>
          if rest.isEmpty && !followLast then .ok (here ++ [n]) else follow target rest here
        | some (n, _) => descend root follow followLast rest (here ++ [n])
    | _ => .error .notDirectory

/-- The place that steps lead to if at most the given number of links is followed. -/
def locateWithin (root : Entry) (followLast : Bool) :
    Nat → List Part → Place → Except IoError Place
  | 0 => descend root (fun _ _ _ => .error .linkLoop) followLast
  | n + 1 => descend root
    (fun target rest here =>
      locateWithin root followLast n (steps target ++ rest)
        (if target.isAbsolute then [] else here))
    followLast

/-- The place that a path names. A link at its end is followed or is itself the place. -/
def locate (fs : FileSystem) (followLast : Bool) (p : Path) : Except IoError Place :=
  if p.contains 0 then .error .zeroInPath
  else if p.isEmpty then .error .notFound
  else if pathLimit ≤ p.length then .error .nameTooLong
  else locateWithin fs.root followLast maxLinks (steps p) (if p.isAbsolute then [] else fs.cwd)

def entryAt (fs : FileSystem) (place : Place) : Except IoError Entry :=
  match fs.root.get? place with
  | some e => .ok e
  | none => .error .notFound

/-- The entry that a path names, where a link at its end is itself the entry. -/
def lstat (fs : FileSystem) (p : Path) : Except IoError Entry :=
  fs.locate false p >>= fs.entryAt

/-- The entry that a path leads to. -/
def stat (fs : FileSystem) (p : Path) : Except IoError Entry :=
  fs.locate true p >>= fs.entryAt

/-- The path leads to an entry. -/
def exists? (fs : FileSystem) (p : Path) : Bool := (fs.stat p).isOk

end FileSystem
end LogSweep
