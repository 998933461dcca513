import LaxJson.Decimal.Shortest
/-
# Writing a double

A double is written from its shortest digits. A format decides the rest: which decimal-point
positions are written positionally and which with an exponent, how the exponent looks, and
the texts of infinity and of not-a-number. The position of the decimal point is counted as
for `0.ddd · 10^point`, so `1.5` has point 1 and `0.015` has point -1.
-/

set_option autoImplicit false
namespace LaxJson.Decimal

/-- How doubles are written. -/
structure FloatFormat where
  /-- Points at or below this are written with an exponent. -/
  expAtOrBelow : Int
  /-- Points above this are written with an exponent. -/
  expAbove : Int
  /-- The mark before an exponent. -/
  expMark : String
  /-- The least number of exponent digits, zeros padding on the left. -/
  expDigits : Nat
  /-- The text of positive infinity. -/
  infinity : String
  /-- The text of not-a-number. -/
  notANumber : String

/-- Writes digits with the decimal point `point` places from their left: leading zeros
before, trailing zeros after, and a `.0` for a whole number. -/
def positional (ds : List Char) (point : Int) : String :=
  if point ≤ 0 then "0." ++ String.ofList (List.replicate (-point).toNat '0' ++ ds)
  else if point < ds.length then
    String.ofList (ds.take point.toNat) ++ "." ++ String.ofList (ds.drop point.toNat)
  else String.ofList (ds ++ List.replicate (point.toNat - ds.length) '0') ++ ".0"

namespace FloatFormat

/-- An exponent with its sign, padded to `expDigits` digits. -/
def exponent (fmt : FloatFormat) (e : Int) : String :=
  let ds := Nat.toDigits 10 e.natAbs
  (if e < 0 then "-" else "+") ++
    String.ofList (List.replicate (fmt.expDigits - ds.length) '0' ++ ds)

/-- The text of a finite positive double with shortest digits `ds` and point `point`. -/
def digitsText (fmt : FloatFormat) (ds : List Char) (point : Int) : String :=
  if point ≤ fmt.expAtOrBelow || fmt.expAbove < point then
    match ds with
    | [] => "0"
    | [d] => String.singleton d ++ fmt.expMark ++ fmt.exponent (point - 1)
    | d :: more =>
      String.singleton d ++ "." ++ String.ofList more ++ fmt.expMark ++ fmt.exponent (point - 1)
  else positional ds point

/-- The text of a double. -/
def render (fmt : FloatFormat) (x : Float) : String :=
  let bits := x.toBits
  let sign := if bits.toNat / Nat.pow 2 63 = 1 then "-" else ""
  if x.isNaN then fmt.notANumber
  else if x.isInf then sign ++ fmt.infinity
  else if bits.toNat % Nat.pow 2 63 = 0 then sign ++ "0.0"
  else
    let (d, t) := (Binary.ofBits bits).shortest
    let ds := Nat.toDigits 10 d
    sign ++ fmt.digitsText ds (t + ds.length)

end FloatFormat

end LaxJson.Decimal
