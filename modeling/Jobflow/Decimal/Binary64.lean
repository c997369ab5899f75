/-!
Finite double-precision numbers as exact dyadic fractions. A number is a sign,
a mantissa and an exponent of two; arithmetic computes the exact quotient of
naturals first and rounds once, to the nearest number and to the even mantissa
on a tie, so nothing depends on the machine's floating point unit.
-/

namespace Jobflow.Decimal

/-- A finite double: `± mantissa · 2 ^ exponent`. Numbers made by this module
have `mantissa < 2 ^ 53`, `-1074 ≤ exponent ≤ 971`, and a mantissa of at least
`2 ^ 52` unless the exponent is least. -/
structure Binary64 where
  negative : Bool
  mantissa : Nat
  exponent : Int
  deriving DecidableEq, Repr, Inhabited

namespace Binary64

/-- The least exponent, that of zero and of the subnormal numbers. -/
def leastExponent : Int := -1074

/-- The greatest exponent of a finite number. -/
def greatestExponent : Int := 971

def zero : Binary64 := ⟨false, 0, leastExponent⟩

/-- `num / den` rounded to a whole number, ties to even. -/
def nearestEven (num den : Nat) : Nat :=
  let q := num / den
  let r := num % den
  if den < 2 * r ∨ (2 * r = den ∧ q % 2 = 1) then q + 1 else q

/-- The fraction `num / den` divided by `2 ^ e`, again as a fraction. -/
def scaled (num den : Nat) (e : Int) : Nat × Nat :=
  if 0 ≤ e then (num, den * Nat.pow 2 e.toNat) else (num * Nat.pow 2 (-e).toNat, den)

/-- The exponent at which `num / den` has a mantissa of 53 bits, or the least
one for smaller fractions. -/
def exponentOf (num den : Nat) : Int :=
  let guess := (num.log2 : Int) - den.log2 - 52
  let (n, d) := scaled num den guess
  max leastExponent (if n / d < Nat.pow 2 52 then guess - 1 else guess)

/-- The magnitude nearest to `num / den`, as mantissa and exponent; `none` when
it is too large for a finite number. -/
def roundMagnitude (num den : Nat) : Option (Nat × Int) :=
  if num = 0 then some (0, leastExponent)
  else
    let e := exponentOf num den
    let (n, d) := scaled num den e
    let m := nearestEven n d
    let (m, e) := if m = Nat.pow 2 53 then (Nat.pow 2 52, e + 1) else (m, e)
    if greatestExponent < e then none else some (m, e)

/-- The number nearest to `± num / den`. -/
def ofFraction (negative : Bool) (num den : Nat) : Option Binary64 :=
  (roundMagnitude num den).map fun (m, e) => ⟨negative, m, e⟩

def ofNat? (n : Nat) : Option Binary64 :=
  ofFraction false n 1

/-- The number nearest to a natural number of 64 bits. -/
def ofNat (n : Nat) : Binary64 :=
  (ofNat? n).getD zero

/-- The number nearest to an integer of 64 bits. -/
def ofInt (n : Int) : Binary64 :=
  { ofNat n.natAbs with negative := n < 0 }

def isZero (x : Binary64) : Bool := x.mantissa == 0

/-- The magnitude as a fraction of naturals. -/
def fraction (x : Binary64) : Nat × Nat :=
  if 0 ≤ x.exponent then (x.mantissa * Nat.pow 2 x.exponent.toNat, 1)
  else (x.mantissa, Nat.pow 2 (-x.exponent).toNat)

/-- The product, `none` when it is too large. -/
def mul (x y : Binary64) : Option Binary64 :=
  let (a, b) := x.fraction
  let (c, d) := y.fraction
  ofFraction (x.negative != y.negative) (a * c) (b * d)

/-- The quotient by a number other than zero, `none` when it is too large. -/
def div (x y : Binary64) : Option Binary64 :=
  let (a, b) := x.fraction
  let (c, d) := y.fraction
  ofFraction (x.negative != y.negative) (a * d) (b * c)

/-- The number nearest to `± digits · 10 ^ power`. -/
def ofDecimal (negative : Bool) (digits : Nat) (power : Int) : Option Binary64 :=
  if 0 ≤ power then ofFraction negative (digits * Nat.pow 10 power.toNat) 1
  else ofFraction negative digits (Nat.pow 10 (-power).toNat)

/-- The value in units of the least positive number, a whole number. -/
def units (x : Binary64) : Int :=
  let n : Int := (x.mantissa * Nat.pow 2 (x.exponent - leastExponent).toNat : Nat)
  if x.negative then -n else n

/-- The order of values; the two zeros are equal. -/
def le (x y : Binary64) : Bool :=
  x.units ≤ y.units

def lt (x y : Binary64) : Bool :=
  x.units < y.units

end Binary64

end Jobflow.Decimal
