import LaxJson.Grammar.Number
import LaxJson.Grammar.Quoted
/-
# Documents

The document grammar. A value is a list, a dict, or, failing both, a primitive: `null`,
`true` or `false`, a quoted string, or a number. Every part is read by an ordered choice, so
blanks may stand around every token. A list is `[`, items separated by commas, `]`; a dict
is `{`, pairs `key: value` separated by commas, `}`; a key is a quoted string. A comma must
be followed by an item: after a trailing comma the closing bracket is still read, and then
refused, at the cursor it reached. In a dict a key set twice keeps its first place and its
last value.

The recursive rules are one mutual block. Each call either consumes a bracket, a comma or a
colon first, or goes to a rule of lower rank from a cursor no earlier, so `8 · rest + rank`
decreases, where `rest` counts the characters after the cursor.
-/

set_option autoImplicit false
namespace LaxJson.Grammar

/-- `null`: the keyword `null`, read as the text `null`. -/
def null (s : Source) : Scan Value := do
  let _ ← s.keyword ["null"]
  pure (.ofString "null")

/-- `boolean`: the keyword `true` or `false`. -/
def boolean (s : Source) : Scan Value := do
  let k ← s.keyword ["true", "false"]
  pure (.bool (k.front == 't'))

/-- `primitive_type`: null, a boolean, a quoted string or a number, in that order. -/
def primitiveType (s : Source) : Scan Value :=
  s.choice [(.null, null s), (.boolean, boolean s),
    (.quotedString, Value.text <$> quotedString s), (.number, Value.number <$> number s)]

/-- Closes a list or a dict with `close`; after a trailing comma the closing is refused at
the cursor it reached, quoting the character there. -/
def closing (s : Source) (close : String) (afterComma : Bool) : Scan Unit := do
  let _ ← s.keyword [close]
  if afterComma then
    fun p => match s.get? p with
      | some c => Step.fail p (.mismatch ⟨p, .trailingComma (String.singleton c)⟩)
      | none => Step.fail p (.fault .indexOutOfRange)
  else pure ()

theorem keyword_single_advances (s : Source) (k : String) (hk : 0 < k.length) :
    (s.keyword [k]).Advances s :=
  Source.keyword_advances s [k] (by intro k' hk'; simp only [List.mem_singleton] at hk'; subst hk'; exact hk)

theorem optional_keyword_advances {s : Source} {k : String} (hk : 0 < k.length) {p : Int}
    {a : String} (h : ((s.keyword [k]).optional p).out = .ok (some a)) :
    s.rest ((s.keyword [k]).optional p).pos < s.rest p :=
  keyword_single_advances s k hk p a (Step.recover_eq_some h)

mutual

/-- `any_type`: a list or a dict, else a primitive. -/
def anyType (s : Source) (p : Int) : Step p Value :=
  s.choiceAt p [(.complexType, fun q _ => complexType s q),
    (.primitiveType, fun q _ => primitiveType s q)]
termination_by 8 * s.rest p + 2
decreasing_by
  rename_i hq
  have := Source.rest_le_rest (s := s) hq
  omega

/-- `complex_type`: a list, else a dict. -/
def complexType (s : Source) (p : Int) : Step p Value :=
  s.choiceAt p [(.list, fun q _ => list s q), (.map, fun q _ => map s q)]
termination_by 8 * s.rest p + 1
decreasing_by
  all_goals
    rename_i hq
    have := Source.rest_le_rest (s := s) hq
    omega

/-- `list`: `[`, the items, `]`. -/
def list (s : Source) (p : Int) : Step p Value :=
  let o := s.keyword ["["] p
  o.andThen fun _ _ho =>
    let items := listItems s false #[] o.pos
    items.andThen fun r _ => (closing s "]" r.2 items.pos).map fun _ => .list r.1.toList
termination_by 8 * s.rest p
decreasing_by
  have := keyword_single_advances s "[" (by decide) p _ _ho
  omega

/-- The items of a list, each read by a choice and followed by an optional comma, with
whether the last thing read was a comma. -/
def listItems (s : Source) (afterComma : Bool) (acc : Array Value) (q : Int) :
    Step q (Array Value × Bool) :=
  let x := (s.choiceAt q [(.anyType, fun r _ => anyType s r)]).optional
  x.andThen fun
    | none, _ => Step.ok x.pos (acc, afterComma)
    | some v, _ =>
      let c := (s.keyword [","]).optional x.pos
      c.andThen fun
        | none, _ => Step.ok c.pos (acc.push v, false)
        | some _, _hc => listItems s true (acc.push v) c.pos
termination_by 8 * s.rest q + 3
decreasing_by
  · rename_i hr
    have := Source.rest_le_rest (s := s) hr
    omega
  · show 8 * s.rest c.pos + _ < _
    have h1 : s.rest c.pos < s.rest x.pos := optional_keyword_advances (by decide) _hc
    have h2 := Source.rest_le_rest (s := s) x.le
    omega

/-- `map`: `{`, the pairs, `}`. -/
def map (s : Source) (p : Int) : Step p Value :=
  let o := s.keyword ["\x7b"] p
  o.andThen fun _ _ho =>
    let items := mapItems s false [] o.pos
    items.andThen fun r _ => (closing s "\x7d" r.2 items.pos).map fun _ => .dict r.1
termination_by 8 * s.rest p
decreasing_by
  have := keyword_single_advances s "\x7b" (by decide) p _ _ho
  omega

/-- The pairs of a dict, each read by a choice and followed by an optional comma, with
whether the last thing read was a comma. -/
def mapItems (s : Source) (afterComma : Bool) (acc : List (Text × Value)) (q : Int) :
    Step q (List (Text × Value) × Bool) :=
  let x := (s.choiceAt q [(.pair, fun r _ => pair s r)]).optional
  x.andThen fun
    | none, _ => Step.ok x.pos (acc, afterComma)
    | some (k, v), _ =>
      let c := (s.keyword [","]).optional x.pos
      c.andThen fun
        | none, _ => Step.ok c.pos (Value.put acc k v, false)
        | some _, _hc => mapItems s true (Value.put acc k v) c.pos
termination_by 8 * s.rest q + 4
decreasing_by
  · rename_i hr
    have := Source.rest_le_rest (s := s) hr
    omega
  · show 8 * s.rest c.pos + _ < _
    have h1 : s.rest c.pos < s.rest x.pos := optional_keyword_advances (by decide) _hc
    have h2 := Source.rest_le_rest (s := s) x.le
    omega

/-- `pair`: a quoted string by a choice, `:`, and a value by a choice. -/
def pair (s : Source) (p : Int) : Step p (Text × Value) :=
  let k := s.choice [(.quotedString, quotedString s)] p
  -- the key is text by its type, so a check that it is a string could never complain
  k.andThen fun key _ =>
    let c := s.keyword [":"] k.pos
    c.andThen fun _ _hc =>
      (s.choiceAt c.pos [(.anyType, fun r _ => anyType s r)]).map fun v => (key, v)
termination_by 8 * s.rest p + 3
decreasing_by
  rename_i hr
  have h1 : s.rest c.pos < s.rest k.pos := keyword_single_advances s ":" (by decide) _ _ _hc
  have h2 := Source.rest_le_rest (s := s) hr
  have h3 := Source.rest_le_rest (s := s) k.le
  omega

end

/-- `start`: a value, by a choice. -/
def start (s : Source) : Scan Value :=
  s.choice [(.anyType, anyType s)]

/-- Reads a whole document: a value, then the end. -/
def document (s : Source) : Scan Value := do
  let v ← start s
  let _ ← s.atEnd
  pure v

/-- The value of a document text, read from its beginning. -/
def parse (text : String) : Except Failure Value :=
  (document (Source.of .json text) (-1)).out

end LaxJson.Grammar
