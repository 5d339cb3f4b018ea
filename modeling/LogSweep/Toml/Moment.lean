import LogSweep.Toml.String

/-! Dates and times of TOML documents. -/
namespace LogSweep.Toml

/-- A year has a leap day. -/
def isLeap (year : Nat) : Bool := year % 4 == 0 && (year % 100 != 0 || year % 400 == 0)

def daysOf (year month : Nat) : Nat :=
  if month = 2 then if isLeap year then 29 else 28
  else if month = 4 ∨ month = 6 ∨ month = 9 ∨ month = 11 then 30
  else 31

namespace Reader

/-- A number of a fixed count of digits between two bounds. -/
def field (count least greatest : Nat) : Reader Nat := do
  let ds ← (List.replicate count ()).mapM fun _ => satisfy Char.isDigit
  let n := ofDigits 10 ds
  if least ≤ n ∧ n ≤ greatest then pure n else failure

def date : Reader Unit := do
  let year ← field 4 0 9999
  char '-'
  let month ← field 2 1 12
  char '-'
  discard (field 2 1 (daysOf year month))

/-- A time of the day, in which a leap second may occur. -/
def time : Reader Unit := do
  discard (field 2 0 23)
  char ':'
  discard (field 2 0 59)
  char ':'
  discard (field 2 0 60)
  discard <| optional do
    char '.'
    takeWhile1 Char.isDigit

def zone : Reader Unit := do
  let c ← satisfy fun c => c == 'Z' || c == 'z' || c == '+' || c == '-'
  if c = '+' ∨ c = '-' then
    discard (field 2 0 23)
    char ':'
    discard (field 2 0 59)

/-- The time behind a date, with or without a zone. -/
def timeOfDate : Reader Unit := do
  discard (satisfy fun c => c == 'T' || c == 't' || c == ' ')
  time
  discard (optional zone)

def moment : Reader Value := do
  (do date; discard (optional timeOfDate)) <|> time
  return .moment

end Reader
end LogSweep.Toml
