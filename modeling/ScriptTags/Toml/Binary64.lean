/-!
# Binary floating-point numbers as text

A TOML float is a 64-bit binary floating-point number. It is kept here as the exact number that it
is, `mantissa * 2 ^ exponent`, and both ways between it and decimal digits are exact integer
arithmetic:

* `Binary64.ofDigits` **rounds** a decimal to the nearest number, a tie to the even mantissa, and
  overflows to infinity;
* `Binary64.text` writes the **fewest digits** that round back to the number, of those the nearest
  to it, always in positional form with at least one digit on either side of the point.

A number is normalised: its mantissa is below `2 ^ 53`, and at least `2 ^ 52` unless the exponent is
the least one, `-1074`.
-/

namespace ScriptTags

/-- A **binary floating-point number** of 64 bits. -/
inductive Binary64 where
  | nan
  | infinite (negative : Bool)
  | finite (negative : Bool) (mantissa : Nat) (exponent : Int)
  deriving DecidableEq, Repr

namespace Binary64

/-- The least exponent. -/
def minExponent : Int := -1074

/-- The greatest exponent. -/
def maxExponent : Int := 971

/-- The least mantissa of a number whose exponent is not the least, `2 ^ 52`. -/
def minMantissa : Nat := 0x10000000000000

/-! ### From decimal -/

/-- `num / den` rounded to the nearest integer, a tie to the even one. -/
def roundDiv (num den : Nat) : Nat :=
  let q := num / den
  let r := num % den
  if 2 * r < den then q
  else if den < 2 * r then q + 1
  else q + q % 2

/-- The fraction `num / den` divided by `base ^ exponent`. -/
def scaleDown (num den base : Nat) (exponent : Int) : Nat × Nat :=
  if 0 ≤ exponent then (num, den * Nat.pow base exponent.toNat)
  else (num * Nat.pow base (-exponent).toNat, den)

/-- The exponent of the number nearest to `num / den`, before rounding can raise it. -/
def exponentOf (num den : Nat) : Int :=
  let guess : Int := (Nat.log2 num : Int) - Nat.log2 den - 52
  let (n, d) := scaleDown num den 2 guess
  let fitting := if n < minMantissa * d then guess - 1 else guess
  if fitting < minExponent then minExponent else fitting

/-- The number nearest to `num / den`, for a positive `num`. -/
def ofFraction (negative : Bool) (num den : Nat) : Binary64 :=
  let e := exponentOf num den
  let (n, d) := scaleDown num den 2 e
  let m := roundDiv n d
  let (m, e) := if m = 2 * minMantissa then (minMantissa, e + 1) else (m, e)
  if maxExponent < e then .infinite negative else .finite negative m e

/-- The number of decimal digits of `n`. -/
def digitCount (n : Nat) : Nat :=
  (Nat.toDigits 10 n).length

/-- The number nearest to `digits * 10 ^ exponent`. A decimal of 310 or more places before the point
is infinite, and one with more than 330 zeros after it is zero, whatever its digits. -/
def ofDecimal (negative : Bool) (digits : Nat) (exponent : Int) : Binary64 :=
  let places : Int := digitCount digits + exponent
  if digits = 0 ∨ places < -330 then .finite negative 0 minExponent
  else if 310 < places then .infinite negative
  else
    let (num, den) := scaleDown digits 1 10 (-exponent)
    ofFraction negative num den

/-- The number of digits that are looked at one by one. A number halfway between two neighbours
never has more than 767 digits. -/
def digitLimit : Nat := 800

/-- The number nearest to the decimal with these digits, the last of which counts `10 ^ exponent`.
When there are more significant digits than can decide, the others only tell whether the decimal
lies above the number that the first ones write, which one more digit says as well. -/
def ofDigits (negative : Bool) (digits : List Nat) (exponent : Int) : Binary64 :=
  let (kept, cut) := (digits.dropWhile (· == 0)).splitAt digitLimit
  let rest := if cut.any (· != 0) then [1] else []
  let n := (kept ++ rest).foldl (fun n digit => n * 10 + digit) 0
  ofDecimal negative n (exponent + cut.length - rest.length)

/-! ### To decimal -/

/-- A **decimal** `digits * 10 ^ exponent`. -/
structure Decimal where
  digits : Nat
  exponent : Int
  deriving DecidableEq, Repr

/-- The interval of reals that round to `mantissa * 2 ^ exponent`, in quarters of the last binary
place: its ends, the number itself, and whether the ends belong to it. -/
structure Interval where
  low : Nat
  mid : Nat
  high : Nat
  closed : Bool
  deriving DecidableEq, Repr

/-- The interval of a positive number. Below a power of two the numbers lie twice as close. -/
def interval (mantissa : Nat) (exponent : Int) : Interval :=
  { low :=
      if mantissa = minMantissa ∧ minExponent < exponent then 4 * mantissa - 1
      else 4 * mantissa - 2
    mid := 4 * mantissa
    high := 4 * mantissa + 2
    closed := mantissa % 2 == 0 }

/-- A quarter of the last binary place of a number with this binary exponent, in units of
`10 ^ place`, as a fraction. -/
def quarter (exponent place : Int) : Nat × Nat :=
  let (n, d) := scaleDown 1 1 2 (2 - exponent)
  scaleDown n d 10 place

/-- Whether `digits * 10 ^ place` lies in the interval, given a quarter in units of `10 ^ place`. -/
def Interval.contains (i : Interval) (unit : Nat × Nat) (digits : Nat) : Bool :=
  let low := i.low * unit.1
  let high := i.high * unit.1
  let x := digits * unit.2
  if i.closed then low ≤ x && x ≤ high else low < x && x < high

/-- The decimal at a place that is in the interval and nearest to the number, if there is one. Of
two that are equally near the upper is taken. -/
def Interval.nearest? (i : Interval) (exponent place : Int) : Option Decimal :=
  let unit := quarter exponent place
  let x := i.mid * unit.1
  let below := x / unit.2
  let above := below + 1
  let aboveNearer := above * unit.2 - x ≤ x - below * unit.2
  match i.contains unit below, i.contains unit above with
  | true, true => some ⟨if aboveNearer then above else below, place⟩
  | true, false => some ⟨below, place⟩
  | false, true => some ⟨above, place⟩
  | false, false => none

/-- The number of places before the point of a positive number, negative for a number that has zeros
after the point. -/
def places (mantissa : Nat) (exponent : Int) : Int :=
  let unit := quarter exponent (-400)
  (digitCount (4 * mantissa * unit.1 / unit.2) : Int) - 400

/-- The **shortest decimal** that rounds to a positive number. Seventeen digits always do. -/
def shortest (mantissa : Nat) (exponent : Int) : Decimal :=
  let i := interval mantissa exponent
  let top := places mantissa exponent
  ((List.range 17).findSome? fun (n : Nat) => i.nearest? exponent (top - n - 1)).getD ⟨0, 0⟩

/-- A decimal in **positional** form, without trailing zeros but for one after the point. -/
def Decimal.text (d : Decimal) : List Char :=
  let all := Nat.toDigits 10 d.digits
  let kept := (all.reverse.dropWhile (· == '0')).reverse
  let exponent := d.exponent + (all.length - kept.length : Nat)
  let point := kept.length + exponent
  if 0 ≤ exponent then kept ++ List.replicate exponent.toNat '0' ++ ['.', '0']
  else if 0 < point then kept.take point.toNat ++ '.' :: kept.drop point.toNat
  else '0' :: '.' :: List.replicate (-point).toNat '0' ++ kept

/-- The **text** of a number. -/
def text : Binary64 → List Char
  | nan => ['N', 'a', 'N']
  | infinite negative => (if negative then ['-'] else []) ++ ['i', 'n', 'f']
  | finite negative mantissa exponent =>
    (if negative then ['-'] else []) ++
      if mantissa = 0 then ['0', '.', '0'] else (shortest mantissa exponent).text

end Binary64

end ScriptTags
