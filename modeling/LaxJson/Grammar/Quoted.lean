import LaxJson.Scan.Choice
import LaxJson.Unicode.Category
import LaxJson.Text
/-
# Quoted strings

A string is delimited by a double or a single quote, the same at both ends. Between them each
character stands for itself, except the backslash, which starts an escape, and the control
characters (category Cc), which are refused. The escapes are `\b \f \n \r \t` for the
control characters they name, `\\` and `\/` for backslash and slash, `\uXXXX` for the code
point with those four hexadecimal digits, surrogates included and never paired, and a
backslash before the delimiter, which stands for the backslash and the delimiter both.

A refused escape or control character is reported at the character after it, and the
complaint quotes that character; when there is none, the index is out of range.
-/

set_option autoImplicit false
namespace LaxJson.Grammar

/-- The characters a one-letter escape stands for, in a string delimited by `quote`. -/
def simpleEscape (quote : Char) : Char → Option (List Char)
  | 'b' => some ['\x08']
  | 'f' => some ['\x0c']
  | 'n' => some ['\n']
  | 'r' => some ['\r']
  | 't' => some ['\t']
  | '\\' => some ['\\']
  | '/' => some ['/']
  | c => if c = quote then some ['\\', quote] else none

/-- The value of a hexadecimal digit; other characters give some value below 16. -/
def hexValue (c : Char) : Fin 16 :=
  let v := if c ≤ '9' then c.toNat - 48 else if c ≤ 'F' then c.toNat - 55 else c.toNat - 87
  ⟨v % 16, Nat.mod_lt _ (by decide)⟩

/-- The code point of four hexadecimal digits. -/
def hexCodePoint (a b c d : Char) : CodePoint :=
  ⟨(hexValue a).val * 4096 + (hexValue b).val * 256 + (hexValue c).val * 16 + (hexValue d).val,
    by have := (hexValue a).isLt; have := (hexValue b).isLt; have := (hexValue c).isLt
       have := (hexValue d).isLt; omega⟩

/-- Fails with a complaint about the character after the cursor, at its position. -/
def complainNext (s : Source) (mk : String → Complaint) {α : Type} : Scan α := fun p =>
  match s.get? (p + 1) with
  | some c => Step.fail p (.mismatch ⟨p + 1, mk (String.singleton c)⟩)
  | none => Step.fail p (.fault .indexOutOfRange)

/-- A hexadecimal digit. -/
def hexDigit (s : Source) : Scan Char := s.char (some "0-9a-fA-F")

/-- The code points an escape stands for, read after its backslash. -/
def escape (s : Source) (quote : Char) : Scan (List CodePoint) := do
  let e ← s.char none
  if e = 'u' then
    let a ← hexDigit s
    let b ← hexDigit s
    let c ← hexDigit s
    let d ← hexDigit s
    pure [hexCodePoint a b c d]
  else
    match simpleEscape quote e with
    | some cs => pure (cs.map CodePoint.ofChar)
    | none => complainNext s .badEscape

/-- The rest of a string after its opening `quote`, with the code points read so far. -/
def stringBody (s : Source) (quote : Char) (acc : Array CodePoint) (p : Int) : Step p Text :=
  let x := s.char none p
  x.andThen fun c _hc =>
    if c = quote then Step.ok x.pos ⟨acc.toList⟩
    else if c = '\\' then
      let y := escape s quote x.pos
      (y.andThen fun cps _ => stringBody s quote (acc ++ cps.toArray) y.pos)
    else if Unicode.isControl c.toNat then complainNext s .rawControl x.pos
    else stringBody s quote (acc.push (.ofChar c)) x.pos
termination_by s.rest p
decreasing_by
  all_goals obtain ⟨hp, hlt⟩ := Source.char_ok _hc
  · have h1 := Source.rest_le_rest (s := s) (escape s quote (s.char none p).pos).le
    have h2 : s.rest (s.char none p).pos < s.rest p := by
      rw [hp]; exact Source.rest_lt_rest (by omega) hlt
    omega
  · rw [hp]; exact Source.rest_lt_rest (by omega) hlt

/-- `quoted_string`: a quote, then the string it opens. -/
def quotedString (s : Source) : Scan Text := fun p =>
  let q := s.char (some "\"'") p
  q.andThen fun quote _ => stringBody s quote #[] q.pos

end LaxJson.Grammar
