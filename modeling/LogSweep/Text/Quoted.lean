import LogSweep.Text.Printable

/-! Texts in quotation marks, as messages show them. -/
namespace LogSweep.Text

/-- A character inside quotation marks. One that is not printable is written by its code point in
hexadecimal. -/
def escapeChar (c : Char) : Text :=
  if c = '\x00' then ['\\', '0']
  else if c = '\t' then ['\\', 't']
  else if c = '\r' then ['\\', 'r']
  else if c = '\n' then ['\\', 'n']
  else if c = '\\' then ['\\', '\\']
  else if c = '"' then ['\\', '"']
  else if isPrintable c then [c]
  else ['\\', 'u', '\x7b'] ++ Nat.toDigits 16 c.toNat ++ ['\x7d']

def quoted (t : Text) : Text := '"' :: t.flatMap escapeChar ++ ['"']

def quotedList (ts : List Text) : Text :=
  '[' :: ", ".toList.intercalate (ts.map quoted) ++ [']']

example : quoted ['a', '"', '\n', '\x07'] = "\"a\\\"\\n\\u\x7b7\x7d\"".toList := by
  decide +kernel
example : quotedList [['a'], []] = "[\"a\", \"\"]".toList := by decide +kernel

end LogSweep.Text
