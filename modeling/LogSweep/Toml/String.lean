import LogSweep.Text.Digits
import LogSweep.Toml.Reader

/-! Blanks, newlines, comments and strings of TOML documents. -/
namespace LogSweep.Toml

/-- Tabs and spaces are the blanks within a line. -/
def isBlank (c : Char) : Bool := c == '\t' || c == ' '

/-- No control character but the tab may stand in a comment or a string. -/
def isPlain (c : Char) : Bool := c == '\t' || (0x20 ≤ c.toNat && c.toNat ≠ 0x7F)

def isBare (c : Char) : Bool := c.isAlphanum || c == '_' || c == '-'

/-- The value of a digit, at most 15. -/
def digitValue? (c : Char) : Option Nat :=
  if c.isDigit then some (c.toNat - '0'.toNat)
  else if 'a' ≤ c ∧ c ≤ 'f' then some (c.toNat - 'a'.toNat + 10)
  else if 'A' ≤ c ∧ c ≤ 'F' then some (c.toNat - 'A'.toNat + 10)
  else none

def ofDigits (base : Nat) (ds : Text) : Nat :=
  Text.ofDigits base (ds.map fun d => (digitValue? d).getD 0)

namespace Reader

def blanks : Reader Unit := discard (takeWhile isBlank)

/-- The end of a line, with or without a carriage return. -/
def newline : Reader Unit := char '\n' <|> exactly ['\r', '\n']

/-- A comment reaches up to the end of its line. -/
def comment : Reader Unit := do
  char '#'
  discard (takeWhile isPlain)

/-- What may stand behind an expression on its line, with the end of the line. -/
def lineEnd : Reader Unit := do
  blanks
  discard (optional comment)
  newline <|> atEnd

/-- The blanks, newlines and comments between the items of an array. -/
def blankLines : Reader Unit := discard <| many <|
  discard (takeWhile1 isBlank) <|> newline <|> (do comment; newline)

/-- A character named by the given number of hexadecimal digits. -/
def codePoint (count : Nat) : Reader Text := do
  let ds ← (List.replicate count ()).mapM fun _ => satisfy (digitValue? · |>.isSome)
  let n := ofDigits 16 ds
  if n.isValidChar then pure [Char.ofNat n] else failure

def escaped : Reader Text := do
  char '\\'
  match ← satisfy fun _ => true with
  | 'b' => pure ['\x08']
  | 't' => pure ['\t']
  | 'n' => pure ['\n']
  | 'f' => pure ['\x0c']
  | 'r' => pure ['\r']
  | '"' => pure ['"']
  | '\\' => pure ['\\']
  | 'u' => codePoint 4
  | 'U' => codePoint 8
  | _ => failure

def basicString : Reader Text := do
  char '"'
  let pieces ← many (takeWhile1 (fun c => isPlain c && c != '"' && c != '\\') <|> escaped)
  char '"'
  return pieces.flatten

/-- A string on one line, which stands for itself. -/
def literalString : Reader Text := do
  char '\''
  let t ← takeWhile fun c => isPlain c && c != '\''
  char '\''
  return t

/-- A newline inside a string, whichever way it is written. -/
def innerNewline : Reader Text := do
  newline
  return ['\n']

/-- A backslash at the end of a line, with all blanks and newlines that follow it. -/
def joinedLines : Reader Text := do
  char '\\'
  blanks
  newline
  discard (many (discard (takeWhile1 isBlank) <|> newline))
  return []

/-- One or two quotation marks that do not close a string of several lines. -/
def innerQuotes (quote : Char) : Reader Text := do
  let t ← takeWhile1 (· == quote)
  if t.length ≤ 2 then pure t else failure

/-- A string of several lines between triple quotation marks. A newline right behind the opening
ones is not part of it, and up to two quotation marks in front of the closing ones are. -/
def multilineString (quote : Char) (piece : Reader Text) : Reader Text := do
  exactly [quote, quote, quote]
  discard (optional newline)
  let pieces ← many (piece <|> innerQuotes quote)
  let closing ← takeWhile (· == quote)
  if 3 ≤ closing.length ∧ closing.length ≤ 5 then
    return pieces.flatten ++ closing.drop 3
  else failure

def multilineBasicString : Reader Text := multilineString '"' <|
  takeWhile1 (fun c => isPlain c && c != '"' && c != '\\') <|> joinedLines <|> escaped
    <|> innerNewline

/-- A string of several lines which stands for itself. -/
def multilineLiteralString : Reader Text := multilineString '\'' <|
  takeWhile1 (fun c => isPlain c && c != '\'') <|> innerNewline

def string : Reader Text :=
  multilineBasicString <|> basicString <|> multilineLiteralString <|> literalString

/-- One part of a key, with or without quotation marks. -/
def simpleKey : Reader Text := takeWhile1 isBare <|> basicString <|> literalString

end Reader
end LogSweep.Toml
