import LogSweep.Toml.Draft
import LogSweep.Toml.Moment
import LogSweep.Toml.Number

/-! TOML documents: keys, values, the lines that hold them, and the table that they make. -/
namespace LogSweep.Toml

/-- Arrays and inline tables lie inside each other at most this deep. -/
def maxNesting : Nat := 79

/-- A dotted key has at most this many parts. -/
def maxKeyParts : Nat := 79

namespace Reader

/-- A key: the tables on its way and its last part. -/
def key : Reader (List (Spanned Text) × Text) := do
  let parts ← separated1 (do blanks; let k ← spanned simpleKey; blanks; return k) (char '.')
  match parts.getLast? with
  | some last => if parts.length ≤ maxKeyParts then pure (parts.dropLast, last.item) else failure
  | none => failure

def pair (value : Reader (Spanned Value)) : Reader Draft.Pair := do
  let (path, k) ← key
  char '='
  blanks
  return ⟨path, k, ← value⟩

/-- An array, in which a comma may follow the last item. -/
def array (value : Reader (Spanned Value)) : Reader Value := do
  char '['
  let items ← separated (do blankLines; let v ← value; blankLines; return v) (char ',')
  unless items.isEmpty do discard (optional (char ','))
  blankLines
  char ']'
  return .array items

/-- The pairs of an inline table, in order. -/
def inlinePairs (value : Reader (Spanned Value)) : Reader (List Draft.Pair) := do
  char '\x7b'
  let pairs ← separated (do let p ← pair value; blanks; return p) (char ',')
  blanks
  char '\x7d'
  return pairs

def inlineTable (value : Reader (Spanned Value)) : Reader Value := do
  match Draft.insertAll [] (← inlinePairs value) with
  | some entries => return .table (Draft.finishAll entries)
  | none => failure

def boolean : Reader Value :=
  (do exactly "true".toList; return .boolean true) <|>
    (do exactly "false".toList; return .boolean false)

/-- A value that is neither an array nor a table. -/
def scalar : Reader Value := .string <$> string <|> boolean <|> moment <|> number

/-- A value in which arrays and tables lie inside each other at most the given number of times. -/
def value : Nat → Reader (Spanned Value)
  | 0 => spanned scalar
  | n + 1 => spanned (array (value n) <|> inlineTable (value n) <|> scalar)

/-- Lines that hold no expression. -/
def emptyLines : Reader Unit := discard <| many do
  blanks
  newline <|> (do comment; newline <|> atEnd)

def pairLine : Reader Draft.Pair := do
  emptyLines
  blanks
  let p ← pair (value maxNesting)
  lineEnd
  return p

def header : Reader (Opening × List (Spanned Text) × Text) :=
  (do exactly ['[', '[']; let k ← key; exactly [']', ']']; return (.element, k)) <|>
    (do char '['; let k ← key; char ']'; return (.table, k))

def headed : Reader Section := do
  emptyLines
  blanks
  let ⟨span, opening, path, k⟩ ← spanned header
  lineEnd
  let pairs ← many pairLine
  let stop := (pairs.getLast?.map (·.value.span.stop)).getD span.stop
  return ⟨opening, path, k, ⟨span.start, stop⟩, pairs⟩

/-- A whole document, behind a byte order mark if there is one. -/
def document : Reader (List Draft.Pair × List Section) := do
  discard (optional (char '\ufeff'))
  let pairs ← many pairLine
  let sections ← many headed
  emptyLines
  blanks
  atEnd
  return (pairs, sections)

end Reader

/-- The table that a document describes, if it is one. -/
def Table.ofText? (source : Text) : Option Table := do
  let ((pairs, sections), _) ← Reader.document (Cursor.ofText source)
  Table.ofSections pairs sections

end LogSweep.Toml
