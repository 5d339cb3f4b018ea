import LogSweep.Toml.String

/-! Numbers of TOML documents. Underscores may stand between digits and do not count. -/
namespace LogSweep.Toml

/-- The integers that documents may hold have 64 bits. -/
def fitsInteger (n : Int) : Bool := -Int.pow 2 63 ≤ n && n < Int.pow 2 63

namespace Reader

/-- The sign in front of a number, true for a minus. -/
def sign : Reader Bool :=
  (do char '-'; return true) <|> (do char '+'; return false) <|> pure false

/-- Digits of a class, with single underscores between them. -/
def digits (p : Char → Bool) : Reader Text := do
  let first ← satisfy p
  let more ← many ((do char '_'; satisfy p) <|> satisfy p)
  return first :: more

/-- Decimal digits without a zero in front of other digits. -/
def wholeDigits : Reader Text := do
  let ds ← digits Char.isDigit
  if ds.head? = some '0' ∧ 1 < ds.length then failure else pure ds

/-- An integer, if it has at most 64 bits. -/
def boundedInteger (n : Int) : Reader Value :=
  if fitsInteger n then pure (.integer n) else failure

/-- An integer in a base other than ten, which has no sign. -/
def basedInteger (mark : Char) (base : Nat) : Reader Value := do
  exactly ['0', mark]
  let ds ← digits fun c => (digitValue? c).any (· < base)
  boundedInteger (ofDigits base ds)

def decimalInteger : Reader Value := do
  let negative ← sign
  let n := ofDigits 10 (← wholeDigits)
  boundedInteger (if negative then -n else n)

def integer : Reader Value :=
  basedInteger 'x' 16 <|> basedInteger 'o' 8 <|> basedInteger 'b' 2 <|> decimalInteger

def fraction : Reader Text := do
  char '.'
  digits Char.isDigit

/-- The power of ten that digits spell. Once it has reached `2 ^ 16`, further digits do not
count. -/
def powerOfDigits (ds : Text) : Nat :=
  ds.foldl (fun n d => if n < Nat.pow 2 16 then n * 10 + (digitValue? d).getD 0 else n) 0

def exponent : Reader Int := do
  discard (satisfy fun c => c == 'e' || c == 'E')
  let negative ← sign
  let n := powerOfDigits (← digits Char.isDigit)
  return if negative then -n else n

/-- A number with a fraction, an exponent or both. One past the greatest finite number is refused
unless it is negative. -/
def finiteFloat : Reader Value := do
  let negative ← sign
  let whole ← wholeDigits
  let part ← optional fraction
  let power ← if part.isSome then (·.getD 0) <$> optional exponent else exponent
  let places := part.getD []
  let x := Binary64.ofDecimal negative (ofDigits 10 (whole ++ places)) (power - places.length)
  if x = .infinite false then failure else pure (.float x)

/-- Infinity and what is not a number. -/
def namedFloat : Reader Value := do
  let negative ← sign
  (do exactly "inf".toList; return .float (.infinite negative)) <|>
    (do exactly "nan".toList; return .float .notANumber)

def number : Reader Value := finiteFloat <|> namedFloat <|> integer

example : powerOfDigits "65536".toList = 65536 := by decide +kernel
example : powerOfDigits "655351".toList = 655351 := by decide +kernel
example : powerOfDigits "655369".toList = 65536 := by decide +kernel

end Reader
end LogSweep.Toml
