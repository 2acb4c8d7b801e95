/-!
# Doubles and their text

A double is kept as sign, significand and exponent, so that all that is said of it is
exact. Its text has the fewest digits that read back as it.
-/

namespace CodeOutline

/-! ## Double precision numbers

A double is a multiple of a power of two with a 53-bit mantissa, one of the two
infinities, or no number. Doubles are held exactly, by mantissa and exponent,
and a ratio is rounded to the nearest double in whole-number arithmetic. -/

/-- A double precision number. The value of `finite negative m q` is `m * 2 ^ q`,
with its sign. -/
inductive Double where
  | nan
  | infinite (negative : Bool)
  | finite (negative : Bool) (mantissa : Nat) (exponent : Int)
deriving Repr, DecidableEq

namespace Double

/-- Mantissas are below this. -/
def mantissaBound : Nat := Nat.pow 2 53

/-- The least exponent. -/
def minExponent : Int := -1074

/-- The greatest exponent. -/
def maxExponent : Int := 971

/-- The zero of a sign. -/
def zero (negative : Bool) : Double := .finite negative 0 minExponent

/-- Whether a number is a zero, of either sign. -/
def isZero : Double → Bool
  | .finite _ mantissa _ => mantissa = 0
  | _ => false

/-- The quotient rounded to the nearest whole number, a half to the even one. -/
def roundDiv (num den : Nat) : Nat :=
  let quotient := num / den
  let twice := 2 * (num % den)
  if twice < den then quotient
  else if den < twice then quotient + 1
  else if quotient % 2 = 0 then quotient
  else quotient + 1

/-- The ratio `num / den` divided by `2 ^ k`. -/
def shiftRatio (num den : Nat) (k : Int) : Nat × Nat :=
  (num * Nat.pow 2 (-k).toNat, den * Nat.pow 2 k.toNat)

/-- The greatest `k` with `2 ^ k ≤ num / den`, for a positive ratio. -/
def floorLog (num den : Nat) : Int :=
  let k : Int := (num.log2 : Int) - (den.log2 : Int)
  let ratio := shiftRatio num den k
  if ratio.2 ≤ ratio.1 then k else k - 1

/-- The finite double of a mantissa and an exponent, or the infinity beyond them. -/
def ofMantissa (negative : Bool) (mantissa : Nat) (exponent : Int) : Double :=
  if maxExponent < exponent then .infinite negative else .finite negative mantissa exponent

/-- The double nearest to `num / den`, the one with an even mantissa if two are
equally near. -/
def ofRatio (negative : Bool) (num den : Nat) : Double :=
  if num = 0 then zero negative
  else
    let exponent := max minExponent (floorLog num den - 52)
    let ratio := shiftRatio num den exponent
    let mantissa := roundDiv ratio.1 ratio.2
    if mantissa < mantissaBound then ofMantissa negative mantissa exponent
    else ofMantissa negative (mantissa / 2) (exponent + 1)

/-- The double nearest to `digits * 10 ^ exponent`. Beyond the powers 400 and
-400 of ten the answer is infinite or zero, whatever the digits. -/
def ofDecimal (negative : Bool) (digits : Nat) (exponent : Int) : Double :=
  if digits = 0 then zero negative
  else if 400 < exponent then .infinite negative
  else if exponent + (digits.log2 + 1 : Nat) < -400 then zero negative
  else ofRatio negative (digits * Nat.pow 10 exponent.toNat) (Nat.pow 10 (-exponent).toNat)

end Double

/-! ## The shortest decimal of a double

A double is written with the fewest digits that read back as it. With `n` digits
the only candidates are the two neighbours of the value on the grid of decimals
with `n` digits; a neighbour reads back if it lies in the interval of numbers
that round to the double, whose ends belong to it when the mantissa is even. -/

/-- The number `digits * 10 ^ exponent`. -/
structure Decimal where
  digits : Nat
  exponent : Int
deriving Repr, DecidableEq

namespace Decimal

/-- The same number without zeros at the end of its digits, of which at most
`fuel` are removed. -/
def stripZerosUpTo : Nat → Decimal → Decimal
  | 0, d => d
  | fuel + 1, d =>
      if d.digits ≠ 0 ∧ d.digits % 10 = 0 then
        stripZerosUpTo fuel ⟨d.digits / 10, d.exponent + 1⟩
      else d

/-- The same number without zeros at the end of its digits. A number below
`2 ^ k` ends in fewer than `k` zeros. -/
def stripZeros (d : Decimal) : Decimal :=
  stripZerosUpTo (d.digits.log2 + 1) d

end Decimal

namespace Double

/-- The interval of numbers that round to a double, in quarters of its last
place: half a place on either side, but a quarter below a power of two, where
the places below are half as wide. -/
structure Interval where
  low : Nat
  mid : Nat
  high : Nat
  closed : Bool

/-- The interval of `m * 2 ^ q`, in units of `2 ^ (q - 2)`. -/
def interval (m : Nat) (q : Int) : Interval where
  low := if m * 2 = mantissaBound ∧ minExponent < q then 4 * m - 1 else 4 * m - 2
  mid := 4 * m
  high := 4 * m + 2
  closed := m % 2 = 0

/-- The greatest `k` with `10 ^ k ≤ m * 2 ^ q`, for `m` positive: the value times
`10 ^ 400` is at least one, and its whole part has `k + 401` digits. -/
def decimalLog (m : Nat) (q : Int) : Int :=
  let whole := m * Nat.pow 2 q.toNat * Nat.pow 10 400 / Nat.pow 2 (-q).toNat
  (Nat.toDigits 10 whole).length - 401

/-- The candidate with `n` digits for `m * 2 ^ q` of decimal logarithm `log`, if
one reads back: the nearer of two, and the even one of two equally near. -/
def candidate? (m : Nat) (q log : Int) (n : Nat) : Option Decimal :=
  let p := log - n + 1
  let i := interval m q
  -- Both sides of `c * 10 ^ p` against `x * 2 ^ (q - 2)`, made whole.
  let unit := Nat.pow 10 p.toNat * Nat.pow 2 (2 - q).toNat
  let place := Nat.pow 2 (q - 2).toNat * Nat.pow 10 (-p).toNat
  let below := i.mid * place / unit
  let above := below + 1
  let fits := fun (a b : Nat) => a < b || (i.closed && a == b)
  let belowFits := fits (i.low * place) (below * unit)
  let aboveFits := fits (above * unit) (i.high * place)
  let gapBelow := i.mid * place - below * unit
  let gapAbove := above * unit - i.mid * place
  if belowFits && aboveFits then
    if gapBelow < gapAbove || (gapBelow == gapAbove && below % 2 == 0) then some ⟨below, p⟩
    else some ⟨above, p⟩
  else if belowFits then some ⟨below, p⟩
  else if aboveFits then some ⟨above, p⟩
  else none

/-- The shortest decimal that reads back as `m * 2 ^ q`. Seventeen digits always
suffice. -/
def shortest (m : Nat) (q : Int) : Decimal :=
  if m = 0 then ⟨0, 0⟩
  else
    let log := decimalLog m q
    (((List.range 17).findSome? fun n => candidate? m q log (n + 1)).getD ⟨0, 0⟩).stripZeros

/-! ## The text of a double

The digits are the fewest that read back. Numbers from `0.0001` up to, and
without, `10 ^ 16` are written positionally, with a point and at least one digit
on either side; others have an exponent with a sign and two digits or more. -/

/-- What is written for the values that have no digits. An infinity below zero
has a minus sign before its name. -/
structure SpecialNames where
  nan : String
  infinity : String

/-- Digits with a point after the first `point` of them, zeros filling in. -/
def positional (digits : String) (point : Int) : String :=
  let zeros := fun (n : Int) => String.ofList (List.replicate n.toNat '0')
  if point ≤ 0 then "0." ++ zeros (-point) ++ digits
  else if digits.length ≤ point then digits ++ zeros (point - digits.length) ++ ".0"
  else
    String.ofList (digits.toList.take point.toNat) ++ "."
      ++ String.ofList (digits.toList.drop point.toNat)

/-- Digits with a point after the first and a power of ten. -/
def scientific (digits : String) (power : Int) : String :=
  let cs := digits.toList
  let fraction := if cs.length ≤ 1 then "" else "." ++ String.ofList (cs.drop 1)
  let size := toString power.natAbs
  String.ofList (cs.take 1) ++ fraction ++ "e" ++ (if power < 0 then "-" else "+")
    ++ (if size.length < 2 then "0" else "") ++ size

/-- The text of a finite value without its sign. -/
def magnitudeText (m : Nat) (q : Int) : String :=
  if m = 0 then "0.0"
  else
    let d := shortest m q
    let digits := toString d.digits
    let point : Int := d.exponent + digits.length
    if -4 < point ∧ point ≤ 16 then positional digits point else scientific digits (point - 1)

/-- The text of a double. -/
def text (names : SpecialNames) : Double → String
  | .nan => names.nan
  | .infinite negative => (if negative then "-" else "") ++ names.infinity
  | .finite negative m q => (if negative then "-" else "") ++ magnitudeText m q

end Double

end CodeOutline
