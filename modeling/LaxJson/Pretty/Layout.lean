import LaxJson.Pretty.Quote
import LaxJson.Pretty.Number
import LaxJson.Unicode.Category
/-
# Laying out values

A value is written on one line when that line fits the width, 80 columns. Otherwise a list or
a dict puts one item per line, each continuation line indented to just inside the opening
bracket, and a dict item's value is laid out from the column after its key; a text is cut
into pieces at line ends and, where a line is still too long, between words, the pieces
written one under another (in parentheses when the text is the whole output); a scalar stays
on its one line, however long. Dict keys are written in code-point order.

Each value is laid out knowing the column it starts at and the columns that must stay free
after it on its last line, for the closing brackets and commas that follow.
-/

set_option autoImplicit false
namespace LaxJson

/-- The width that lines are kept within. -/
def lineWidth : Int := 80

mutual

/-- The value with the entries of every dict in code-point order of their keys. -/
def Value.sortKeys : Value → Value
  | .list vs => .list (sortKeysList vs)
  | .dict es => .dict (Value.sortEntries (sortKeysEntries es))
  | v => v

/-- `sortKeys` on each value of a list. -/
def sortKeysList : List Value → List Value
  | [] => []
  | v :: vs => v.sortKeys :: sortKeysList vs

/-- `sortKeys` on each value of dict entries. -/
def sortKeysEntries : List (Text × Value) → List (Text × Value)
  | [] => []
  | (k, v) :: es => (k, v.sortKeys) :: sortKeysEntries es

end

mutual

/-- The one-line text of a value, its dicts written in the order their entries stand. -/
def Value.oneLine : Value → String
  | .text t => t.quote
  | .bool b => if b then "True" else "False"
  | .number n => n.render
  | .list vs => "[" ++ oneLineItems vs ++ "]"
  | .dict es => "\x7b" ++ oneLineEntries es ++ "\x7d"

/-- The one-line texts of items, separated by commas. -/
def oneLineItems : List Value → String
  | [] => ""
  | [v] => v.oneLine
  | v :: vs => v.oneLine ++ ", " ++ oneLineItems vs

/-- The one-line texts of dict entries, separated by commas. -/
def oneLineEntries : List (Text × Value) → String
  | [] => ""
  | [(k, v)] => k.quote ++ ": " ++ v.oneLine
  | (k, v) :: es => k.quote ++ ": " ++ v.oneLine ++ ", " ++ oneLineEntries es

end

namespace Text

/-- The lines of a text, each with the boundary that ends it; CR LF is one boundary. -/
def lines (t : Text) : List Text :=
  let rec go : List CodePoint → List CodePoint → List Text
    | [], cur => if cur.isEmpty then [] else [⟨cur.reverse⟩]
    | [c], cur => [⟨(c :: cur).reverse⟩]
    | c :: rest@(d :: ds), cur =>
      if c.val = 0x0D && d.val = 0x0A then ⟨(d :: c :: cur).reverse⟩ :: go ds []
      else if Unicode.isLineBoundary c.val then ⟨(c :: cur).reverse⟩ :: go rest []
      else go rest (c :: cur)
  go t.points []

/-- The words of a line, each with the white space after it: a run of code points that are
not white space followed by a run of those that are. -/
def words (t : Text) : List Text :=
  let rec go : List CodePoint → List CodePoint → Bool → List Text
    | [], cur, _ => if cur.isEmpty then [] else [⟨cur.reverse⟩]
    | c :: cs, cur, inSpace =>
      let sp := Unicode.isSpace c.val
      if inSpace && !sp then ⟨cur.reverse⟩ :: go cs [c] false
      else go cs (c :: cur) (inSpace || sp)
  go t.points [] false

/-- Packs words greedily into pieces whose quoted text fits `width`; the last word may
have to leave `lastAllowance` more columns free. A word too long on its own is a piece. -/
def packWords (width lastAllowance : Int) : List Text → Text → List String
  | [], cur => if cur.points.isEmpty then [] else [cur.quote]
  | w :: ws, cur =>
    let room := if ws.isEmpty then width - lastAllowance else width
    let cand := cur ++ w
    if room < cand.quote.length then
      (if cur.points.isEmpty then [] else [cur.quote]) ++ packWords width lastAllowance ws w
    else packWords width lastAllowance ws cand

/-- The pieces of a text laid out in `width` columns, the last piece leaving `allowance`
columns free. -/
def pieces (t : Text) (width allowance : Int) : List String :=
  let ls := t.lines
  let n := ls.length
  (ls.zipIdx.map fun (l, i) =>
    let last := i + 1 = n
    let rep := l.quote
    if rep.length ≤ (if last then width - allowance else width) then [rep]
    else packWords width (if last then allowance else 0) l.words ∅).flatten

/-- A text too long for its line, laid out from column `indent`. -/
def layout (t : Text) (indent allowance : Int) (whole : Bool) : String :=
  if t.points.isEmpty then t.quote
  else
    let indent := if whole then indent + 1 else indent
    let allowance := if whole then allowance + 1 else allowance
    match t.pieces (lineWidth - indent) allowance with
    | [one] => one
    | ps =>
      let body := ("\n".pushn ' ' indent.toNat).intercalate ps
      if whole then "(" ++ body ++ ")" else body

end Text

mutual

/-- Lays out a value starting at column `indent`, leaving `allowance` columns free after
it; `whole` when it is the whole output. -/
def Value.layout (v : Value) (indent allowance : Int) (whole : Bool) : String :=
  let rep := v.oneLine
  if lineWidth - indent - allowance < rep.length then
    match v with
    | .list vs => "[" ++ layoutItems vs (indent + 1) (allowance + 1) true ++ "]"
    | .dict es => "\x7b" ++ layoutEntries es (indent + 1) (allowance + 1) true ++ "\x7d"
    | .text t => t.layout indent allowance whole
    | _ => rep
  else rep

/-- Lays out list items one per line from column `indent`. -/
def layoutItems (vs : List Value) (indent allowance : Int) (first : Bool) : String :=
  match vs with
  | [] => ""
  | v :: more =>
    let sep := if first then "" else ",\n" ++ "".pushn ' ' indent.toNat
    sep ++ v.layout indent (if more.isEmpty then allowance else 1) false ++
      layoutItems more indent allowance false

/-- Lays out dict entries one per line from column `indent`. -/
def layoutEntries (es : List (Text × Value)) (indent allowance : Int) (first : Bool) :
    String :=
  match es with
  | [] => ""
  | (k, v) :: more =>
    let sep := if first then "" else ",\n" ++ "".pushn ' ' indent.toNat
    let key := k.quote
    sep ++ key ++ ": " ++
      v.layout (indent + key.length + 2) (if more.isEmpty then allowance else 1) false ++
      layoutEntries more indent allowance false

end

/-- The pretty text of a value: its keys sorted, laid out in the width, and a final LF. -/
def Value.pretty (v : Value) : String := v.sortKeys.layout 0 0 true ++ "\n"

end LaxJson
