/-
# Failures

A scan fails in one of two ways. A syntax error says what the text should have held at a
position, and the grammar recovers from it: an ordered choice moves on to the next
alternative, an optional rule gives nothing. A fault is any other failure (an index out of
range, a number too large, a malformed character class); nothing recovers from a fault, and
it ends the whole scan.

A syntax error's message is a template with one slot, filled with its texts. Three
complaints have a template without a slot yet still carry the character found, so no message
can be made of them; `Complaint.describe?` is `none` exactly for these.
-/

set_option autoImplicit false
namespace LaxJson

/-- What a syntax error says. `expected` names what was wanted, `found` the character that
stood there. -/
inductive Complaint where
  /-- The text ended where something was expected. -/
  | expectedAtEnd (expected : String)
  /-- Something else stood where something was expected. -/
  | expected (expected found : String)
  /-- Text remained where the end was expected. -/
  | notAtEnd (found : String)
  /-- A list or dict ended just after a comma. -/
  | trailingComma (found : String)
  /-- A backslash in a string was followed by no known escape. -/
  | badEscape (found : String)
  /-- A string held a control character as it is. -/
  | rawControl (found : String)
deriving DecidableEq, Inhabited

namespace Complaint

/-- The message template; `%s` marks the slot. -/
def template : Complaint → String
  | expectedAtEnd _ => "Expected %s but got end of string"
  | expected .. => "Expected %s but got %s"
  | notAtEnd _ => "Expected end of string but got %s"
  | trailingComma _ => "Unnecessary trailing comma found"
  | badEscape _ => "Invalid escape sequence"
  | rawControl _ => "Unescaped control character"

/-- The texts that fill the template. -/
def args : Complaint → List String
  | expectedAtEnd e => [e]
  | expected e f => [e, f]
  | notAtEnd f => [f]
  | trailingComma f => [f]
  | badEscape f => [f]
  | rawControl f => [f]

/-- The filled template, when the texts fit its slots. -/
def describe? : Complaint → Option String
  | expectedAtEnd e => some ("Expected " ++ e ++ " but got end of string")
  | expected e f => some ("Expected " ++ e ++ " but got " ++ f)
  | notAtEnd f => some ("Expected end of string but got " ++ f)
  | trailingComma _ | badEscape _ | rawControl _ => none

end Complaint

/-- A syntax error: a complaint about a position of the source. -/
structure SyntaxError where
  pos : Int
  complaint : Complaint
deriving DecidableEq, Inhabited

/-- The full message of a syntax error, when its complaint has one. -/
def SyntaxError.describe? (e : SyntaxError) : Option String :=
  e.complaint.describe?.map fun m => m ++ " at position " ++ toString e.pos

/-- A failure nothing recovers from. -/
inductive Fault where
  /-- An ordered choice found its furthest failure at -1 and had kept no error there. -/
  | lostFailure
  /-- A character was read at an index the source does not have. -/
  | indexOutOfRange
  /-- A power of ten came out too large for a double. -/
  | powerOverflow
  /-- An integer is too large to become a double. -/
  | floatOverflow
  /-- A digit string is longer than the limit of `digitLimit` digits. -/
  | tooManyDigits (count : Nat)
  /-- A character class holds a range whose ends are not in increasing order. -/
  | badRange
  /-- A rule of the document grammar was asked of a scanner without it. -/
  | missingRule (name : String)
deriving DecidableEq, Inhabited

/-- The most digits an integer literal may have. -/
def digitLimit : Nat := 4300

/-- The message of a fault. -/
def Fault.message : Fault → String
  | .lostFailure => "exceptions must derive from BaseException"
  | .indexOutOfRange => "string index out of range"
  | .powerOverflow => "math range error"
  | .floatOverflow => "int too large to convert to float"
  | .tooManyDigits n =>
    "Exceeds the limit (" ++ toString digitLimit ++
      " digits) for integer string conversion: value has " ++ toString n ++
      " digits; use sys.set_int_max_str_digits() to increase the limit"
  | .badRange => "Bad character range"
  | .missingRule n => "'Parser' object has no attribute '" ++ n ++ "'"

/-- The name of the kind of error a fault is raised as. -/
def Fault.errorName : Fault → String
  | .lostFailure => "TypeError"
  | .indexOutOfRange => "IndexError"
  | .powerOverflow | .floatOverflow => "OverflowError"
  | .tooManyDigits _ | .badRange => "ValueError"
  | .missingRule _ => "AttributeError"

/-- Why a scan failed. -/
inductive Failure where
  | mismatch (e : SyntaxError)
  | fault (f : Fault)
deriving DecidableEq, Inhabited

end LaxJson
