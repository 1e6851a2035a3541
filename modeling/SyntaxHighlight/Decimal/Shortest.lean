import SyntaxHighlight.Decimal.Binary64

/-!
# Shortest decimals

The decimal text of a floating point number has the fewest digits that are read back as the same
number. For each number of digits the two neighbours of the number on that decimal grid are tried;
the first grid on which one of them is read back decides, and of two that are, the nearer one.
-/

namespace SyntaxHighlight

/-- The number `digits * 10 ^ scale`. -/
structure ScaledDecimal where
  digits : Nat
  scale : Int
deriving DecidableEq, Repr

namespace Binary64

def fraction (m : Nat) (e : Int) : Nat × Nat :=
  if 0 ≤ e then (m * Nat.pow 2 e.toNat, 1) else (m, Nat.pow 2 (-e).toNat)

/-- The number of digits in front of the point of the fraction `num / den`; zero or negative if the
fraction is below one tenth or less. -/
def leadingPlaces (num den : Nat) : Int :=
  let digits (n : Nat) : Nat := (Nat.toDigits 10 n).length
  if den ≤ num then digits (num / den)
  else
    let k := digits (den / num)
    -- den / num has k digits, so the fraction lies in [10 ^ -k, 10 ^ (1 - k)]
    if num * Nat.pow 10 (k - 1) = den then 2 - (k : Int) else 1 - (k : Int)

/-- Compare `digits * 10 ^ scale` with the fraction `num / den`. -/
def compareDecimal (d : ScaledDecimal) (num den : Nat) : Ordering :=
  if 0 ≤ d.scale then compare (d.digits * Nat.pow 10 d.scale.toNat * den) num
  else compare (d.digits * den) (num * Nat.pow 10 (-d.scale).toNat)

/-- Whether a decimal number is rounded to the number with the given mantissa and exponent: it lies
between the middles towards the neighbours, and these count if the mantissa is even. -/
def readsBack (mantissa : Nat) (exponent : Int) (d : ScaledDecimal) : Bool :=
  let halfGap := if mantissa = Nat.pow 2 52 && minExponent < exponent then 1 else 2
  let (lowNum, lowDen) := fraction (4 * mantissa - halfGap) (exponent - 2)
  let (highNum, highDen) := fraction (4 * mantissa + 2) (exponent - 2)
  let low := compareDecimal d lowNum lowDen
  let high := compareDecimal d highNum highDen
  if mantissa % 2 = 0 then low != .lt && high != .gt else low == .gt && high == .lt

/-- The neighbours of the fraction `num / den` among the decimal numbers of a scale: the lower one,
and whether the upper one is not farther away. -/
def neighbours (num den : Nat) (scale : Int) : Nat × Bool :=
  let (n, d) :=
    if 0 ≤ scale then (num, den * Nat.pow 10 scale.toNat)
    else (num * Nat.pow 10 (-scale).toNat, den)
  (n / d, decide (d ≤ 2 * (n % d)))

/-- Search the grids with more and more digits. -/
def searchShortest (mantissa : Nat) (exponent : Int) (num den : Nat) (scale : Int) :
    Nat → ScaledDecimal
  | 0 => ⟨(neighbours num den scale).1, scale⟩
  | tries + 1 =>
    let (low, upperNearer) := neighbours num den scale
    let lower : ScaledDecimal := ⟨low, scale⟩
    let upper : ScaledDecimal := ⟨low + 1, scale⟩
    match readsBack mantissa exponent lower, readsBack mantissa exponent upper with
    | true, true => if upperNearer then upper else lower
    | true, false => lower
    | false, true => upper
    | false, false => searchShortest mantissa exponent num den (scale - 1) tries

/-- The decimal number with the fewest digits that is read back as `mantissa * 2 ^ exponent`. -/
def shortest (mantissa : Nat) (exponent : Int) : ScaledDecimal :=
  let (num, den) := fraction mantissa exponent
  searchShortest mantissa exponent num den (leadingPlaces num den - 1) 20

end Binary64

end SyntaxHighlight
