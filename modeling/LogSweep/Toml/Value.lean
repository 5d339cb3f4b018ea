import LogSweep.Decimal.Binary64
import LogSweep.Text.Blank

/-! The values of TOML documents, each with the place in the source that it comes from. -/
namespace LogSweep.Toml

/-- A piece of a source: the offset of its first byte and of the first byte after it. -/
structure Span where
  start : Nat
  stop : Nat
  deriving DecidableEq, Repr

namespace Span

def size (s : Span) : Nat := s.stop - s.start

end Span

/-- Something read from a piece of a source. -/
structure Spanned (α : Type) where
  span : Span
  item : α
  deriving DecidableEq, Repr

/-- A value. Tables list their keys in the order in which they were defined, and dates and times
are checked but not kept. -/
inductive Value where
  | string (t : Text)
  | integer (n : Int)
  | float (x : Binary64)
  | boolean (b : Bool)
  | moment
  | array (items : List (Spanned Value))
  | table (entries : List (Text × Spanned Value))

/-- The keys of a table with their values, in order. -/
abbrev Table := List (Text × Spanned Value)

end LogSweep.Toml
