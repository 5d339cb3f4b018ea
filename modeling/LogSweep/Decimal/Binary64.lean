/-! Double-precision numbers in exact arithmetic, and the nearest one to a decimal. -/
namespace LogSweep

/-- A double-precision number. A finite one is `significand * 2 ^ exponent` with its sign, where
the significand has at most 53 bits and the exponent is at least -1074. -/
inductive Binary64 where
  | finite (negative : Bool) (significand : Nat) (exponent : Int)
  | infinite (negative : Bool)
  | notANumber
  deriving DecidableEq, Repr

namespace Binary64

def minExponent : Int := -1074

def maxExponent : Int := 971

/-- The quotient rounded to the nearest integer, a half to the even one. -/
def roundEven (num den : Nat) : Nat :=
  let q := num / den
  let r := num % den
  if den < 2 * r || (2 * r == den && q % 2 == 1) then q + 1 else q

/-- The fraction `num / den` divided by `2 ^ e`. -/
def scaled (num den : Nat) (e : Int) : Nat × Nat :=
  (num * Nat.pow 2 (-e).toNat, den * Nat.pow 2 e.toNat)

/-- The finite number nearest to a positive fraction, or infinity past the greatest one. -/
def ofFraction (negative : Bool) (num den : Nat) : Binary64 :=
  let e₀ : Int := num.log2 - den.log2 - 53
  let s₀ := scaled num den (e₀ + 53)
  let e := max minExponent (if s₀.2 ≤ s₀.1 then e₀ + 1 else e₀)
  let s := scaled num den e
  let m := roundEven s.1 s.2
  let (m, e) := if m = Nat.pow 2 53 then (Nat.pow 2 52, e + 1) else (m, e)
  if maxExponent < e then .infinite negative else .finite negative m e

/-- The number nearest to `digits * 10 ^ exponent`. A decimal of `10 ^ 310` or more is past every
finite number, and one below `10 ^ -330` is nearest to zero. Both are told from the size in bits:
`2 ^ 10` is above `10 ^ 3`, and `2 ^ 100` is below `10 ^ 31`. -/
def ofDecimal (negative : Bool) (digits : Nat) (exponent : Int) : Binary64 :=
  let low : Int := digits.log2 * 3 / 10
  let high : Int := digits.log2 * 31 / 100 + 2
  if digits = 0 || high + exponent < -330 then .finite negative 0 minExponent
  else if 310 ≤ low + exponent then .infinite negative
  else ofFraction negative (digits * Nat.pow 10 exponent.toNat) (Nat.pow 10 (-exponent).toNat)

example : ofDecimal false 1 0 = .finite false (2 ^ 52) (-52) := by decide +kernel
example : ofDecimal false 5 (-324) = .finite false 1 (-1074) := by decide +kernel
example : ofDecimal true 2 308 = .infinite true := by decide +kernel

end Binary64
end LogSweep
