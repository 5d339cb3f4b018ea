import LogSweep.Text.Lines
import LogSweep.Toml.Value

/-! Readers, which take a value from the front of a source or refuse. Alternatives are tried in
order from the same place. -/
namespace LogSweep.Toml

/-- A place in a source. -/
structure Cursor where
  /-- The number of bytes in front. -/
  offset : Nat
  rest : Text
  deriving DecidableEq, Repr

namespace Cursor

/-- The start of a source. -/
def ofText (t : Text) : Cursor := ⟨0, t⟩

/-- The cursor behind the given text, which it stands in front of. -/
def advance (c : Cursor) (t : Text) : Cursor :=
  ⟨t.foldl (fun n x => n + x.utf8Size) c.offset, c.rest.drop t.length⟩

end Cursor

/-- A reader takes a value from the front of what follows, or refuses. -/
abbrev Reader (α : Type) := StateT Cursor Option α

namespace Reader

def satisfy (p : Char → Bool) : Reader Char
  | ⟨n, x :: rest⟩ => if p x then some (x, ⟨n + x.utf8Size, rest⟩) else none
  | _ => none

def char (x : Char) : Reader Unit := do discard (satisfy (· == x))

def exactly (t : Text) : Reader Unit := fun c =>
  if t.isPrefixOf c.rest then some ((), c.advance t) else none

/-- The characters of a class up to the first one that is not in it. -/
def takeWhile (p : Char → Bool) : Reader Text := fun c =>
  let t := c.rest.takeWhile p
  some (t, c.advance t)

/-- At least one character of a class, up to the first one that is not in it. -/
def takeWhile1 (p : Char → Bool) : Reader Text := do
  let t ← takeWhile p
  if t.isEmpty then failure else pure t

def optional (r : Reader α) : Reader (Option α) := (do return some (← r)) <|> pure none

def accepts (r : Reader α) : Reader Bool := return (← optional r).isSome

/-- The cursor stands at the end of the source. -/
def atEnd : Reader Unit := fun c => if c.rest.isEmpty then some ((), c) else none

/-- A reader with the piece of the source that it takes. -/
def spanned (r : Reader α) : Reader (Spanned α) := fun c => do
  let (item, after) ← r c
  return (⟨⟨c.offset, after.offset⟩, item⟩, after)

/-- Repeats a reader until it refuses, at most once for each character of a text. -/
def repeated (r : Reader α) : Text → List α → Reader (List α)
  | [], found => pure found.reverse
  | _ :: bound, found => fun c =>
    match r c with
    | none => some (found.reverse, c)
    | some (x, after) => repeated r bound (x :: found) after

/-- Repeats a reader until it refuses. A reader that takes at least one character each time cannot
be repeated more often than there are characters. -/
def many (r : Reader α) : Reader (List α) := fun c => repeated r c.rest [] c

/-- At least one item, with a separator between each two. -/
def separated1 (item : Reader α) (separator : Reader Unit) : Reader (List α) := do
  let x ← item
  let xs ← many (do separator; item)
  return x :: xs

/-- Any number of items, with a separator between each two. -/
def separated (item : Reader α) (separator : Reader Unit) : Reader (List α) :=
  separated1 item separator <|> pure []

end Reader
end LogSweep.Toml
