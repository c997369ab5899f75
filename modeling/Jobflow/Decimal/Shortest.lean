import Jobflow.Decimal.Binary64

/-!
The shortest decimal that reads back as a given double: for one digit, two
digits, and so on up to seventeen, the two neighbours of the value on that
decimal grid are tried, and the first grid with a neighbour that reads back
wins. Of two such neighbours the nearer is taken, the even one on a tie.
-/

namespace Jobflow.Decimal

/-- A decimal `digits · 10 ^ power`. -/
structure Decimal where
  digits : Nat
  power : Int
  deriving DecidableEq, Repr

namespace Binary64

def digitCount (n : Nat) : Nat :=
  (Nat.toDigits 10 n).length

/-- The `p` with `10 ^ (p - 1) ≤ num / den < 10 ^ p`, for a positive fraction. -/
def pointPosition (num den : Nat) : Int :=
  if den ≤ num then digitCount (num / den)
  else
    let k := digitCount (den / num) - 1
    if num * Nat.pow 10 k = den then 1 - (k : Int) else -(k : Int)

/-- Whether `d` reads back as the magnitude of `x`. -/
def readsBack (x : Binary64) (d : Decimal) : Bool :=
  ofDecimal false d.digits d.power == some { x with negative := false }

/-- The better of the two neighbours of `x` on the grid of `10 ^ power`, if one
of them reads back. -/
def onGrid (x : Binary64) (power : Int) : Option Decimal :=
  let (num, den) := x.fraction
  let (n, d) := if 0 ≤ power then (num, den * Nat.pow 10 power.toNat)
    else (num * Nat.pow 10 (-power).toNat, den)
  let below : Decimal := ⟨n / d, power⟩
  let above : Decimal := ⟨n / d + 1, power⟩
  match x.readsBack below, x.readsBack above with
  | true, true =>
    let r := n % d
    if 2 * r < d ∨ (2 * r = d ∧ below.digits % 2 = 0) then some below else some above
  | true, false => some below
  | false, true => some above
  | false, false => none

/-- The first hit on the grids of `count` digits and more, up to `fuel` further
grids, and the exact digits should there be none. -/
def firstHit (x : Binary64) (position : Int) : Nat → Nat → Decimal
  | 0, _ =>
    let (num, den) := x.fraction
    ⟨num * Nat.pow 10 den.log2 / den, -(den.log2 : Int)⟩
  | fuel + 1, count =>
    match x.onGrid (position - count) with
    | some d => d
    | none => firstHit x position fuel (count + 1)

/-- Drops the zeros at the end of the digits. -/
def stripZeros : Nat → Decimal → Decimal
  | 0, d => d
  | fuel + 1, d =>
    if d.digits ≠ 0 ∧ d.digits % 10 = 0 then stripZeros fuel ⟨d.digits / 10, d.power + 1⟩ else d

/-- The shortest decimal that reads back as the magnitude of `x`. -/
def shortest (x : Binary64) : Decimal :=
  if x.isZero then ⟨0, 0⟩
  else
    let (num, den) := x.fraction
    stripZeros 400 (firstHit x (pointPosition num den) 17 1)

/-- Digits with a point: plain notation for moderate sizes, an exponent with
its sign otherwise, and always a point or an exponent. -/
def text (x : Binary64) : String :=
  let d := x.shortest
  let ds := Nat.toDigits 10 d.digits
  let point := ds.length + d.power
  let body : List Char :=
    if x.isZero then ['0', '.', '0']
    else if 0 ≤ d.power ∧ point ≤ 16 then ds ++ List.replicate d.power.toNat '0' ++ ['.', '0']
    else if 0 < point ∧ point ≤ 16 then ds.take point.toNat ++ '.' :: ds.drop point.toNat
    else if -5 < point ∧ point ≤ 0 then
      ['0', '.'] ++ List.replicate (-point).toNat '0' ++ ds
    else
      let sign := if point - 1 < 0 then '-' else '+'
      let mark := 'e' :: sign :: Nat.toDigits 10 (point - 1).natAbs
      match ds with
      | [one] => one :: mark
      | first :: rest => first :: '.' :: rest ++ mark
      | [] => mark
  String.ofList (if x.negative then '-' :: body else body)

/-- Digits with a point and never an exponent. -/
def plainText (x : Binary64) : String :=
  let d := x.shortest
  let ds := Nat.toDigits 10 d.digits
  let point := ds.length + d.power
  let body : List Char :=
    if 0 ≤ d.power then ds ++ List.replicate d.power.toNat '0' ++ ['.', '0']
    else if 0 < point then ds.take point.toNat ++ '.' :: ds.drop point.toNat
    else ['0', '.'] ++ List.replicate (-point).toNat '0' ++ ds
  String.ofList (if x.negative then '-' :: body else body)

end Binary64

end Jobflow.Decimal
