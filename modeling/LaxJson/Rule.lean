/-
# Rule names

The rules a scan can invoke by name. An ordered choice names the alternatives that failed
furthest, so every rule has the name under which it is known.
-/

set_option autoImplicit false
namespace LaxJson

/-- A rule known by name: three of the scanner's own operations and the rules of the
document grammar. -/
inductive Rule where
  | char | atEnd | blank
  | start | anyType | primitiveType | complexType | list | map | pair
  | null | boolean | number | integer
  | oneDigit | manyDigits | negOneDigit | negManyDigits
  | fraction | fractionDigits | exponent | exponentDigits
  | digits | digit | onenine | sign | quotedString
deriving DecidableEq, Inhabited

namespace Rule

/-- The name of a rule. -/
def name : Rule → String
  | char => "char"
  | atEnd => "assert_end"
  | blank => "eat_whitespace"
  | start => "start"
  | anyType => "any_type"
  | primitiveType => "primitive_type"
  | complexType => "complex_type"
  | list => "list"
  | map => "map"
  | pair => "pair"
  | null => "null"
  | boolean => "boolean"
  | number => "number"
  | integer => "integer"
  | oneDigit => "integer_rule_1"
  | manyDigits => "integer_rule_2"
  | negOneDigit => "integer_rule_3"
  | negManyDigits => "integer_rule_4"
  | fraction => "fraction"
  | fractionDigits => "fraction_rule_1"
  | exponent => "exponent"
  | exponentDigits => "exponent_rule_1"
  | digits => "digits"
  | digit => "digit"
  | onenine => "onenine"
  | sign => "sign"
  | quotedString => "quoted_string"

/-- Every rule, in the order of their declaration. -/
def all : List Rule :=
  [char, atEnd, blank, start, anyType, primitiveType, complexType, list, map, pair, null,
    boolean, number, integer, oneDigit, manyDigits, negOneDigit, negManyDigits, fraction,
    fractionDigits, exponent, exponentDigits, digits, digit, onenine, sign, quotedString]

/-- The rule of a name. -/
def ofName? (n : String) : Option Rule := all.find? (·.name == n)

/-- Whether a rule belongs to the scanner itself rather than to the document grammar. -/
def isPrimitive : Rule → Bool
  | char | atEnd | blank => true
  | _ => false

end Rule

end LaxJson
