import LaxJson.Value
import LaxJson.Failure
/-
# Numerals

How the parts of a number literal become a number. The integer part is read exactly, unless
it has more than `digitLimit` digits. A fraction `.ddd` is read as the double nearest to
`0.ddd`, and adding it to the integer part first turns the integer into its nearest double:
the sign of the integer part never reaches the fraction, so `-1.5` is `-1 + 0.5`. A nonzero
exponent `e` then multiplies that sum, as a double, by the double that the platform's power
function gives for `10^e`; an exponent of zero leaves an integer an integer.
-/

set_option autoImplicit false
namespace LaxJson

namespace Numeral

/-- The number a string of decimal digits stands for. -/
def digitsValue (ds : List Char) : Nat :=
  ds.foldl (fun n c => 10 * n + (c.toNat - '0'.toNat)) 0

/-- The integer of a digit string with an optional leading `-`; more than `digitLimit`
digits are refused. -/
def readInteger (s : String) : Except Fault Int :=
  let (neg, ds) := match s.toList with
    | '-' :: ds => (true, ds)
    | ds => (false, ds)
  if digitLimit < ds.length then .error (.tooManyDigits ds.length)
  else
    let n : Int := digitsValue ds
    .ok (if neg then -n else n)

/-- The double nearest to `0.ddd` for the digits `ddd`. -/
def readFraction (ds : List Char) : Float :=
  Float.ofScientific (digitsValue ds) true ds.length

/-- The double nearest to an integer, ties to even; an integer whose nearest double would
be infinite is refused. -/
def toDouble (i : Int) : Except Fault Float :=
  let x := Float.ofInt i
  if x.isInf then .error .floatOverflow else .ok x

/-- The exponents at which the platform's power function misses the double nearest to
`10^e` and gives the next double up: `10^23` lies exactly halfway between two doubles, and
`10^210` within a hair of halfway. -/
def powerMisses : List Int := [23, 210]

/-- The double that the platform's power function gives for `10^e`, the exponent first
becoming a double. A power beyond the largest double is refused; one below the least
subnormal is zero. -/
def powerOfTen (e : Int) : Except Fault Float := do
  let _ ← toDouble e
  if 308 < e then .error .powerOverflow
  else if e < -400 then .ok 0
  else
    let x := if e < 0 then Float.ofScientific 1 true (-e).toNat
      else Float.ofScientific 1 false e.toNat
    .ok (if e ∈ powerMisses then Float.ofBits (x.toBits + 1) else x)

end Numeral

namespace Number

/-- The number as a double, an integer becoming its nearest double. -/
def toDouble : Number → Except Fault Float
  | .int i => Numeral.toDouble i
  | .float x => .ok x

/-- An integer plus a number: exact for two integers, a sum of doubles otherwise. -/
def addInt (i : Int) : Number → Except Fault Number
  | .int j => .ok (.int (i + j))
  | .float x => do
    let y ← Numeral.toDouble i
    .ok (.float (y + x))

/-- The number of a literal from its integer part, its fraction (the integer zero when
there is none) and its exponent (zero when there is none). -/
def ofParts (i : Int) (fraction : Number) (e : Int) : Except Fault Number := do
  let sum ← addInt i fraction
  if e = 0 then .ok sum
  else
    let p ← Numeral.powerOfTen e
    let x ← sum.toDouble
    .ok (.float (x * p))

end Number

end LaxJson
