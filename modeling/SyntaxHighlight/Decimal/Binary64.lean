/-!
# Binary floating point numbers of 64 bits

A finite number is a mantissa of at most 53 bits times a power of two whose exponent is at least
-1074. A decimal number is rounded to the nearest of them, and to the one with an even mantissa if
two are equally near.
-/

namespace SyntaxHighlight

/-- A number of 64 bits in binary floating point. -/
inductive Binary64 where
  /-- The number `mantissa * 2 ^ exponent`, negated if `negative`. -/
  | finite (negative : Bool) (mantissa : Nat) (exponent : Int)
  | infinity (negative : Bool)
  | nan
deriving DecidableEq, Repr

namespace Binary64

def minExponent : Int := -1074

/-- The greatest exponent of a finite number with a mantissa of 53 bits. -/
def maxExponent : Int := 971

/-- A quotient rounded to the nearest integer, and to the even one if two are equally near. -/
def divideToEven (num den : Nat) : Nat :=
  let quotient := num / den
  let rest := 2 * (num % den)
  if rest < den then quotient
  else if den < rest then quotient + 1
  else quotient + quotient % 2

/-- The fraction `num / den` divided by a power of two, as a fraction. -/
def shift (num den : Nat) (exponent : Int) : Nat × Nat :=
  if 0 ≤ exponent then (num, den * Nat.pow 2 exponent.toNat)
  else (num * Nat.pow 2 (-exponent).toNat, den)

/-- The exponent with which the fraction `num / den`, not zero, has a mantissa of 53 bits, but not
less than the least one. -/
def exponentOf (num den : Nat) : Int :=
  let guess : Int := (Nat.log2 num : Int) - (Nat.log2 den : Int) - 52
  let (n, d) := shift num den guess
  let exact := if n / d < Nat.pow 2 52 then guess - 1 else guess
  max exact minExponent

/-- The number nearest to the fraction `num / den`. -/
def ofFraction (negative : Bool) (num den : Nat) : Binary64 :=
  if num = 0 then .finite negative 0 minExponent
  else
    let exponent := exponentOf num den
    let (n, d) := shift num den exponent
    let mantissa := divideToEven n d
    let (mantissa, exponent) :=
      if mantissa = Nat.pow 2 53 then (Nat.pow 2 52, exponent + 1) else (mantissa, exponent)
    if maxExponent < exponent then .infinity negative else .finite negative mantissa exponent

/-- The number nearest to `digits * 10 ^ scale`. Numbers that are far outside the range of finite
numbers are not computed exactly. -/
def ofDecimal (negative : Bool) (digits : Nat) (scale : Int) : Binary64 :=
  let places : Int := (Nat.log2 digits : Int) / 3 + 1
  if digits = 0 then .finite negative 0 minExponent
  else if 400 < scale then .infinity negative
  else if places + scale < -400 then .finite negative 0 minExponent
  else if 0 ≤ scale then ofFraction negative (digits * Nat.pow 10 scale.toNat) 1
  else ofFraction negative digits (Nat.pow 10 (-scale).toNat)

end Binary64

end SyntaxHighlight
