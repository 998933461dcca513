import LaxJson.Decimal.Layout
import LaxJson.Value
/-
# Writing numbers

Integers are written in decimal with a leading `-` when negative. Doubles are written with
their shortest digits: positionally when the decimal point falls within sixteen places of
the first digit's left and no more than three zeros follow the point, keeping a `.0` on a
whole number; otherwise as the first digit, a point and the other digits when there are any,
`e`, and the exponent with its sign and at least two digits.
-/

set_option autoImplicit false
namespace LaxJson

/-- How numbers are written: `1e+16`, `1234.5`, `0.0001`, `1.5e-05`, `inf`. -/
def floatFormat : Decimal.FloatFormat where
  expAtOrBelow := -4
  expAbove := 16
  expMark := "e"
  expDigits := 2
  infinity := "inf"
  notANumber := "nan"

/-- The text of a number. -/
def Number.render : Number → String
  | .int i => toString i
  | .float x => floatFormat.render x

end LaxJson
