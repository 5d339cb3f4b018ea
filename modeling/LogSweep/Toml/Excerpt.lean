import LogSweep.Text.Digits
import LogSweep.Text.Lines
import LogSweep.Text.Utf8
import LogSweep.Toml.Value

/-! The excerpt of a source that an error message shows: the line on which a piece of the source
starts, with marks under the piece. -/
namespace LogSweep.Toml

/-- A line of a source with a marked part. Lines and columns count from one. -/
structure Excerpt where
  line : Nat
  column : Nat
  text : Text
  marks : Nat
  deriving DecidableEq, Repr

namespace Excerpt

/-- The excerpt for a piece of a source. The marks do not reach past the line, and there is one at
least. -/
def ofSpan (source : Text) (s : Span) : Excerpt :=
  let front := Utf8.display ((Utf8.encode source).take s.start)
  let index := front.lines.length - 1
  let column := (front.lines.getLast?.getD []).length
  let text := (source.lines[index]?).getD []
  { line := index + 1
    column := column + 1
    text
    marks := max 1 (min s.size ((Utf8.encode text).length - column)) }

def message (e : Excerpt) (problem : Text) : Text :=
  let number := Text.ofNat e.line
  let gutter := List.replicate (number.length + 1) ' ' ++ ['|']
  Text.unlines
    ["TOML parse error at line ".toList ++ number ++ ", column ".toList ++ Text.ofNat e.column,
      gutter,
      number ++ " | ".toList ++ e.text,
      gutter ++ List.replicate e.column ' ' ++ List.replicate e.marks '^',
      problem,
      []]

example : ofSpan "a=1\nb = [2,\n3]".toList ⟨8, 14⟩ = ⟨2, 5, "b = [2,".toList, 3⟩ := by
  decide +kernel

end Excerpt
end LogSweep.Toml
