import LaxJson.Grammar.Table
/-
# Sessions

A session is a source with a cursor, driven by commands one after another. Each command
runs from the cursor the one before it left, whether that one succeeded or not, and reports
its outcome and the cursor afterwards. Reading a new text replaces the characters of the
source, keeping its dialect and its cache, and starts from the beginning.

The source's cache is shared by every command and every rule a command runs. Each character
test of a rule takes the segments of its class from the cache as the command found it, and
lists the spec among those it asked for. When the command is done, whether it succeeded or
failed midway, the specs it asked for are split through the cache in the order asked. So the
cache a command leaves is the one its requests build, one by one, and a malformed spec stores
nothing.
-/

set_option autoImplicit false
namespace LaxJson

/-- A command of a session. The optional forms give `none` on a syntax error. -/
inductive Command where
  /-- Read a whole text as a document. -/
  | parse (text : String)
  /-- Skip blanks. -/
  | blank
  /-- Require the end of the source. -/
  | atEnd
  /-- The segments of a character class spec. -/
  | segments (spec : String)
  /-- Read a character of a class, or any character. -/
  | char (spec : Option String) (optional : Bool)
  /-- Read one of some keywords. -/
  | keyword (kws : List String) (optional : Bool)
  /-- Make an ordered choice among rules. -/
  | choice (rules : List Rule) (optional : Bool)
  /-- Invoke one rule directly, without a choice around it. -/
  | rule (r : Rule)

/-- A source and a cursor. -/
structure Session where
  source : Source
  pos : Int

namespace Session

/-- The session of a text in a dialect, at a cursor, with nothing split yet. -/
def start (dialect : Dialect) (text : String) (pos : Int) : Session :=
  ⟨Source.of dialect text, pos⟩

/-- Reports a step taken from the cursor, with `none` for a syntax error when `optional`,
moves the cursor to where the step stopped, and stores the specs the step asked for. -/
def runStep {α : Type} (st : Session) (y : Step st.pos α) (yield : α → Yield) (optional : Bool) :
    Except Failure Yield × Session :=
  let out := if optional then (Step.recover y.out).map fun o => (o.map yield).getD .none
    else y.out.map yield
  (out, ⟨st.source.store y.asked, y.pos⟩)

/-- Runs a scan from the cursor, with `none` for a syntax error when `optional`. -/
def runScan {α : Type} (st : Session) (x : Scan α) (yield : α → Yield) (optional : Bool) :
    Except Failure Yield × Session :=
  st.runStep (x st.pos) yield optional

/-- Runs one command. -/
def run (st : Session) : Command → Except Failure Yield × Session
  | .parse text =>
    let s := st.source.reread text
    let whole : Scan Yield := do
      let v ← Rule.scan s .start
      let _ ← s.atEnd
      pure v
    let y := whole (-1)
    (y.out, ⟨s.store y.asked, y.pos⟩)
  | .blank => st.runScan st.source.skipBlank (fun _ => .none) false
  | .atEnd => st.runScan st.source.atEnd (fun _ => .none) false
  | .segments spec =>
    (((st.source.cache.split spec).1.map Yield.ofSegments).mapError .fault,
      ⟨st.source.store [spec], st.pos⟩)
  | .char spec optional => st.runScan (st.source.char spec) Yield.ofChar optional
  | .keyword kws optional => st.runScan (st.source.keyword kws) Yield.ofString optional
  | .choice rules optional =>
    st.runScan (st.source.choice (rules.map fun r => (r, r.scan st.source))) id optional
  | .rule r => st.runScan (r.scan st.source) id false

/-- Runs commands in order, each reporting its outcome and the cursor after it. -/
def runAll (st : Session) : List Command → List (Except Failure Yield × Int)
  | [] => []
  | c :: cs =>
    let (out, st') := st.run c
    (out, st'.pos) :: st'.runAll cs

@[simp] theorem runAll_nil (st : Session) : st.runAll [] = [] := rfl

@[simp] theorem runAll_cons (st : Session) (c : Command) (cs : List Command) :
    st.runAll (c :: cs) = ((st.run c).1, (st.run c).2.pos) :: (st.run c).2.runAll cs := rfl

end Session

end LaxJson
