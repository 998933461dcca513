import LaxJson.Grammar.Document
/-
# Rules by name

Every rule can be invoked by its name, with its result as a `Yield`: nothing, a value, or a
key and a value. The scanner's own rules (`char`, `assert_end`, `eat_whitespace`) exist in
every dialect; the rules of the document grammar exist only in the json dialect, and asking
for one elsewhere is a fault.
-/

set_option autoImplicit false
namespace LaxJson

/-- What a rule invoked by name gives. -/
inductive Yield where
  | none
  | value (v : Value)
  | pair (key : Text) (v : Value)
deriving Inhabited

namespace Yield

/-- The yield of a text. -/
def ofString (s : String) : Yield := .value (.ofString s)

/-- The yield of a character. -/
def ofChar (c : Char) : Yield := .ofString (String.singleton c)

/-- The yield of the segments of a spec: the text of each. -/
def ofSegments (segs : List Segment) : Yield :=
  .value (.list (segs.map fun g => .ofString (String.ofList g.toList)))

/-- The yield of a number. -/
def ofNumber (n : Number) : Yield := .value (.number n)

/-- The yield of an integer. -/
def ofInt (i : Int) : Yield := .ofNumber (.int i)

end Yield

namespace Grammar

/-- The rules of the document grammar, by name. -/
def grammarScan (s : Source) : Rule → Scan Yield
  | .start => Yield.value <$> start s
  | .anyType => Yield.value <$> anyType s
  | .primitiveType => Yield.value <$> primitiveType s
  | .complexType => Yield.value <$> complexType s
  | .list => Yield.value <$> list s
  | .map => Yield.value <$> map s
  | .pair => (fun kv => Yield.pair kv.1 kv.2) <$> pair s
  | .null => Yield.value <$> null s
  | .boolean => Yield.value <$> boolean s
  | .number => Yield.ofNumber <$> number s
  | .integer => Yield.ofInt <$> integer s
  | .oneDigit => Yield.ofString <$> oneDigit s
  | .manyDigits => Yield.ofString <$> manyDigits s
  | .negOneDigit => Yield.ofString <$> negOneDigit s
  | .negManyDigits => Yield.ofString <$> negManyDigits s
  | .fraction => Yield.ofNumber <$> fraction s
  | .fractionDigits => Yield.ofString <$> fractionDigits s
  | .exponent => Yield.ofInt <$> exponent s
  | .exponentDigits => Yield.ofInt <$> exponentDigits s
  | .digits => Yield.ofString <$> digits s
  | .digit => Yield.ofChar <$> digit s
  | .onenine => Yield.ofChar <$> onenine s
  | .sign => Yield.ofString <$> sign s
  | .quotedString => (fun t => Yield.value (.text t)) <$> quotedString s
  | .char => Yield.ofChar <$> s.char none
  | .atEnd => (fun _ => Yield.none) <$> s.atEnd
  | .blank => (fun _ => Yield.none) <$> s.skipBlank

end Grammar

/-- A rule by name, in the dialect of the source. -/
def Rule.scan (s : Source) (r : Rule) : Scan Yield :=
  if r.isPrimitive || s.dialect == .json then Grammar.grammarScan s r
  else Scan.fail (.fault (.missingRule r.name))

end LaxJson
