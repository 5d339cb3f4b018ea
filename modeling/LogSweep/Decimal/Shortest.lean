import LogSweep.Decimal.Binary64
import LogSweep.Text.Blank

/-! The shortest decimal of a double-precision number: the fewest digits that read back as the
number, nearest to it among those, and their positional form. -/
namespace LogSweep

/-- The decimal `digits * 10 ^ exponent`. -/
structure Decimal where
  digits : Nat
  exponent : Int
  deriving DecidableEq, Repr

namespace Decimal

/-- The decimal without zeros at the end of its digits, of which at most the given number are
dropped. -/
def dropZeros : Nat → Decimal → Decimal
  | 0, d => d
  | n + 1, d =>
    if d.digits ≠ 0 ∧ d.digits % 10 = 0 then dropZeros n ⟨d.digits / 10, d.exponent + 1⟩ else d

/-- The positional form, with at least one digit on each side of the point. -/
def positional (d : Decimal) : Text :=
  let ds := Nat.toDigits 10 d.digits
  let point : Int := ds.length + d.exponent
  if 0 ≤ d.exponent then ds ++ List.replicate d.exponent.toNat '0' ++ ['.', '0']
  else if 0 < point then ds.take point.toNat ++ '.' :: ds.drop point.toNat
  else ['0', '.'] ++ List.replicate (-point).toNat '0' ++ ds

end Decimal

namespace Binary64

/-- The bounds of the reals that round to a positive number and the number itself, as numerators
over one denominator. Below a power of two the numbers lie closer together. -/
structure Interval where
  low : Nat
  value : Nat
  high : Nat
  denominator : Nat
  /-- The bounds themselves round to the number. -/
  closed : Bool
  deriving DecidableEq, Repr

/-- The reals that round to `significand * 2 ^ exponent`. -/
def interval (significand : Nat) (exponent : Int) : Interval :=
  let unit := Nat.pow 2 (exponent - 2).toNat
  let below := if significand = Nat.pow 2 52 ∧ minExponent < exponent then 1 else 2
  { low := (4 * significand - below) * unit
    value := 4 * significand * unit
    high := (4 * significand + 2) * unit
    denominator := Nat.pow 2 (2 - exponent).toNat
    closed := significand % 2 == 0 }

namespace Interval

/-- The decimal lies among the reals that round to the number. -/
def holds (i : Interval) (d : Decimal) : Bool :=
  let x := d.digits * Nat.pow 10 d.exponent.toNat * i.denominator
  let scale := Nat.pow 10 (-d.exponent).toNat
  if i.closed then i.low * scale ≤ x && x ≤ i.high * scale
  else i.low * scale < x && x < i.high * scale

/-- The number of digits before the point, or minus the number of zeros after it. -/
def magnitude (i : Interval) : Int :=
  (Nat.toDigits 10 (i.value * Nat.pow 10 400 / i.denominator)).length - 400

/-- The neighbours of the number on the grid of multiples of `10 ^ exponent`, the nearer first and
the greater first if both are equally near. -/
def neighbours (i : Interval) (exponent : Int) : List Decimal :=
  let num := i.value * Nat.pow 10 (-exponent).toNat
  let den := i.denominator * Nat.pow 10 exponent.toNat
  let k := num / den
  if 2 * (num % den) < den then [⟨k, exponent⟩, ⟨k + 1, exponent⟩]
  else [⟨k + 1, exponent⟩, ⟨k, exponent⟩]

/-- The first neighbour that reads back, on the coarsest grid that has one. -/
def shortest (i : Interval) : Decimal :=
  let grids := (List.range 17).map fun (n : Nat) => i.neighbours (i.magnitude - (n + 1))
  ((grids.flatten.find? i.holds).getD ⟨0, 0⟩).dropZeros 17

end Interval

/-- The shortest decimal of a number in positional form, and the names of what is not finite. -/
def positional : Binary64 → Text
  | .finite negative m e =>
    let magnitude := if m = 0 then (⟨0, 0⟩ : Decimal) else (interval m e).shortest
    (if negative then ['-'] else []) ++ magnitude.positional
  | .infinite negative => (if negative then ['-'] else []) ++ "inf".toList
  | .notANumber => "NaN".toList

example : (ofDecimal false 1 (-1)).positional = "0.1".toList := by decide +kernel
example : (ofDecimal true 0 0).positional = "-0.0".toList := by decide +kernel
example : (ofDecimal false 62320326049522275 (-2)).positional = "623203260495222.8".toList := by
  decide +kernel

end Binary64
end LogSweep
