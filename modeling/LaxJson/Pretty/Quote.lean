import LaxJson.Text
import LaxJson.Unicode.Printable
/-
# Quoted texts

A text is written between single quotes, or between double quotes when it contains a single
quote and no double quote. Inside, the backslash and the chosen quote are escaped with a
backslash; tab, LF and CR are written `\t`, `\n` and `\r`; other control characters and
every code point that is not printable are written in hexadecimal, lower case: `\xhh` up to
U+00FF, `\uhhhh` up to U+FFFF and `\Uhhhhhhhh` beyond. Every other code point stands for
itself.
-/

set_option autoImplicit false
namespace LaxJson

/-- The lower-case hexadecimal digits of `n`, padded with zeros to `width`. -/
def hexPadded (width n : Nat) : String :=
  let ds := Nat.toDigits 16 n
  String.ofList (List.replicate (width - ds.length) '0' ++ ds)

/-- How a code point is written between quotes `quote`. -/
def quotedCode (quote : Char) (c : Nat) : String :=
  if c = '\\'.toNat || c = quote.toNat then "\\" ++ String.singleton (Char.ofNat c)
  else if c = 0x09 then "\\t"
  else if c = 0x0A then "\\n"
  else if c = 0x0D then "\\r"
  else if c < 0x20 || c = 0x7F then "\\x" ++ hexPadded 2 c
  else if c < 0x7F || Unicode.isPrintable c then String.singleton (Char.ofNat c)
  else if c ≤ 0xFF then "\\x" ++ hexPadded 2 c
  else if c ≤ 0xFFFF then "\\u" ++ hexPadded 4 c
  else "\\U" ++ hexPadded 8 c

/-- The quote a text is written between. -/
def Text.quoteChar (t : Text) : Char :=
  if t.codes.contains '\''.toNat && !t.codes.contains '"'.toNat then '"' else '\''

/-- The text written between quotes. -/
def Text.quote (t : Text) : String :=
  let q := t.quoteChar
  String.singleton q ++ String.join (t.codes.map (quotedCode q)) ++ String.singleton q

end LaxJson
