import LaxJson.Grammar.Document
import LaxJson.Session
/-
# Workloads

Eight fixed workloads, each sized by one integer. Seven build a document of that size, read
it, and report something of the value; the last drives a plain scanner over digits and blanks
and checks three facts of the scanner. A size of zero or less builds the smallest document.
-/

set_option autoImplicit false
namespace LaxJson

/-- What a workload reports: values, nothing, and tuples and lists of reports. -/
inductive Report where
  | value (v : Value)
  /-- No value, where a document was read without error. -/
  | none
  | tuple (items : List Report)
  | list (items : List Report)
deriving Inhabited

namespace Report

/-- The report of an integer. -/
def int (i : Int) : Report := .value (.number (.int i))

/-- The report of a text. -/
def text (s : String) : Report := .value (.ofString s)

/-- The report of dict entries, as a list of key and value pairs. -/
def entries (es : List (Text × Value)) : Report :=
  .list (es.map fun (k, v) => .tuple [.value (.text k), .value v])

end Report

/-- The workloads. -/
inductive Workload where
  /-- A dict of numbered keys; reports its entries by key. -/
  | keyedDict
  /-- A list of small integers; reports the list. -/
  | smallInts
  /-- A list of number literals of every form; reports the list. -/
  | numbers
  /-- A list of string literals with every escape; reports the list. -/
  | strings
  /-- A commented list of records; reports each record's entries by key. -/
  | records
  /-- A list nested in lists; reports the depth and what lies innermost. -/
  | nested
  /-- Malformed documents read by one reader; reports the position and template of each
  syntax error, or the name of the fault. -/
  | errors
  /-- Digits and blanks read by a plain scanner. -/
  | plainScan
deriving DecidableEq, Inhabited

namespace Workload

/-- The size a workload has when none is given. -/
def defaultSize : Workload → Int
  | keyedDict => 200
  | smallInts => 300
  | numbers => 150
  | strings => 120
  | records => 60
  | nested => 50
  | errors => 120
  | plainScan => 1500

/-- The first `n` items of `base` repeated without end; none when `n ≤ 0`. -/
def cycle {α : Type} (base : List α) (n : Int) : List α :=
  (List.replicate (n.toNat / base.length + 1) base).flatten.take n.toNat

/-- `0, 1, …, n - 1`, none when `n ≤ 0`. -/
def upTo (n : Int) : List Nat := List.range n.toNat

/-- Text between braces. -/
def braced (s : String) : String := "\x7b" ++ s ++ "\x7d"

/-- A quoted key. -/
def key (k : String) : String := "\"" ++ k ++ "\": "

/-- Number literals of every form. -/
def numberLiterals : List String :=
  ["0", "123456", "-7", "-7890", "3.14159", "-0.5", "6.02e3", "1E+2", "2e-3", "-1.5E4"]

/-- String literals that use every escape. -/
def stringLiterals : List String :=
  ["\"plain text here\"", "\"tab\\tnewline\\nret\\r\"",
    "\"quote \\\" backslash \\\\ slash \\/\"", "\"bell\\b form\\f\"",
    "\"unicode \\u0041\\u00e9\\u2603 end\"", "\"mixed 0123456789 abc\""]

/-- One record of every kind of value. -/
def record : String :=
  braced (", ".intercalate [key "id" ++ "42", key "ok" ++ "true", key "bad" ++ "false",
    key "nil" ++ "null", key "ratio" ++ "-1.25e2", key "tags" ++ "[\"a\", \"b\", \"c\"]",
    key "empties" ++ "[" ++ braced "" ++ ", []]",
    key "child" ++ braced (key "x" ++ "1, " ++ key "y" ++ "2")])

/-- Eight malformed documents: two trailing commas, a missing colon, an unknown escape, an
unclosed list, an unclosed string, a text that starts no value and a raw control character. -/
def malformed : List String :=
  ["[1, 2, 3,]", braced "\"a\": 1,", braced "\"a\" 1", "[\"\\q\"]", "[1, 2", "\"unterminated",
    "@@@", "[\"\x01\"]"]

/-- The document a reading workload builds for size `n`. -/
def document (w : Workload) (n : Int) : String :=
  match w with
  | keyedDict => braced (", ".intercalate ((upTo n).map fun i => key ("k" ++ toString i) ++ toString i))
  | smallInts => "[" ++ ", ".intercalate ((upTo n).map fun i => toString (i % 97)) ++ "]"
  | numbers => "[" ++ ", ".intercalate (cycle numberLiterals n) ++ "]"
  | strings => "[" ++ ", ".intercalate (cycle stringLiterals n) ++ "]"
  | records => "# leading comment line\n[\n\t" ++ ", ".intercalate (List.replicate n.toNat record) ++
      "\n] # trailing\n"
  | nested => "".pushn '[' n.toNat ++ "1" ++ "".pushn ']' n.toNat
  | errors | plainScan => ""

/-- How deep a value is nested in first items of lists, and what lies innermost. -/
def firstDepth : Value → Nat × Value
  | .list (v :: _) => let (d, w) := firstDepth v; (d + 1, w)
  | v => (0, v)

/-- Digits each followed by blanks, read by a plain scanner until no digit follows. -/
def digitRun (s : Source) (acc : List String) (p : Int) : Step p (List String) :=
  let x := (s.char (some "0-9")).optional p
  x.andThen fun
    | none, _ => Step.ok x.pos acc.reverse
    | some c, _hc =>
      let b := s.skipBlank x.pos
      b.andThen fun _ _ => digitRun s (String.singleton c :: acc) b.pos
termination_by s.rest p
decreasing_by
  have h1 : s.rest x.pos < s.rest p :=
    Source.char_advances s (some "0-9") p c (Step.recover_eq_some _hc)
  have h2 := Source.rest_le_rest (s := s) b.le
  show s.rest b.pos < s.rest p
  omega

/-- The plain scanner's facts: the digits it reads from a text of `n` digits, the segments
of a spec with ranges, that a second request for them is answered with the segments the first
stored, that a range out of order is refused, and the message of a failed end check. The
requests go through the cache of the reader that read the digits. -/
def plainFacts (n : Int) : Except Failure Report := do
  let text := " \t\n".intercalate ((upTo n).map fun i => toString (i % 10))
  let s := Source.of .plain text
  let whole : Scan (List String) := do
    let ds ← digitRun s []
    let _ ← s.atEnd
    pure ds
  let y := whole (-1)
  let ds ← y.out
  let spec := "a-z0-9_+"
  let (first, cache) := (s.store y.asked).cache.split spec
  let segs ← first.mapError Failure.fault
  let identical := cache.hits spec
  let (_, cache) := cache.split spec
  let refused : Int := match (cache.split "z-a").1 with
    | .error _ => 1
    | .ok _ => 0
  let endCheck := (Source.of .plain "12x").atEnd 1
  let message := match endCheck.out with
    | .error (.mismatch e) => e.describe?.getD ""
    | _ => ""
  pure (.tuple [.list (ds.map Report.text),
    .list (segs.map fun g => Report.text (String.ofList g.toList)),
    .value (.bool identical), .int refused, .text message])

/-- Runs a workload of size `n`. -/
def run (w : Workload) (n : Int) : Except Failure Report :=
  let read (text : String) := Grammar.parse text
  match w with
  | keyedDict => do
    let v ← read (w.document n)
    match v with
    | .dict es => pure (.entries (Value.sortEntries es))
    | v => pure (.value v)
  | records => do
    let v ← read (w.document n)
    match v with
    | .list rs => pure (.list (rs.map fun
        | .dict es => .entries (Value.sortEntries es)
        | r => .value r))
    | v => pure (.value v)
  | nested => do
    let (d, v) := firstDepth (← read (w.document n))
    pure (.tuple [.int d, .value v])
  | errors =>
    -- one session reads every document in turn, keeping its cache across failures
    let outcomes := (Session.start .json "" (-1)).runAll ((cycle malformed n).map .parse)
    pure (.list (outcomes.map fun
      | (.ok _, _) => .none
      | (.error (.mismatch e), _) => .tuple [.int e.pos, .text e.complaint.template]
      | (.error (.fault f), _) => .text f.errorName))
  | plainScan => plainFacts n
  | smallInts | numbers | strings => .value <$> read (w.document n)

/-- Every workload, in order. -/
def all : List Workload :=
  [keyedDict, smallInts, numbers, strings, records, nested, errors, plainScan]

/-- Runs every workload at its default size; the suite prints nothing. -/
def suite : Except Failure String := do
  for w in all do
    let _ ← w.run w.defaultSize
  pure ""

end Workload

end LaxJson
