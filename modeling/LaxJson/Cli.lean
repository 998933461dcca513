import LaxJson.Grammar.Document
import LaxJson.Pretty.Layout
/-
# The command line

The command line reads a document from its input and prints the pretty text of its value,
or `Error: ` and the message of the syntax error that stopped it. A fault stops it with
nothing printed, and so does a syntax error whose complaint has no message.
-/

set_option autoImplicit false
namespace LaxJson

/-- Why the command line stopped without finishing. -/
inductive Abort where
  /-- The document could not be read. -/
  | fault (f : Fault)
  /-- A syntax error's complaint could not be made into a message. -/
  | unformattable
deriving Inhabited

/-- The message of an abort. -/
def Abort.message : Abort → String
  | .fault f => f.message
  | .unformattable => "not all arguments converted during string formatting"

/-- What the command line printed, and why it stopped early if it did. -/
structure Transcript where
  stdout : String
  abort : Option Abort
deriving Inhabited

/-- Runs the command line on an input. -/
def Transcript.ofInput (input : String) : Transcript :=
  match Grammar.parse input with
  | .ok v => ⟨v.pretty, none⟩
  | .error (.mismatch e) =>
    match e.describe? with
    | some m => ⟨"Error: " ++ m ++ "\n", none⟩
    | none => ⟨"", some .unformattable⟩
  | .error (.fault f) => ⟨"", some (.fault f)⟩

end LaxJson
