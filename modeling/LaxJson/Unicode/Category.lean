/-
# Small character classes

Three classes of code points that reading and printing need, each from Unicode 14.0:

* control characters, general category Cc: U+0000 to U+001F and U+007F to U+009F;
* white space, the characters of bidirectional class WS, B or S or of category Zs, together
  with U+001C to U+001F; these are the characters a "non-blank run" stops at when a long
  text is broken between words;
* line boundaries, the characters after which a text is cut into lines: LF, VT, FF, CR,
  U+001C to U+001E, NEL, and the line and paragraph separators.
-/

set_option autoImplicit false
namespace LaxJson.Unicode

/-- Whether a code point is a control character, of general category Cc. -/
def isControl (c : Nat) : Bool :=
  c ≤ 0x1F || (0x7F ≤ c && c ≤ 0x9F)

/-- Whether a code point is white space. -/
def isSpace (c : Nat) : Bool :=
  (0x09 ≤ c && c ≤ 0x0D) || (0x1C ≤ c && c ≤ 0x20) || c == 0x85 || c == 0xA0 ||
    c == 0x1680 || (0x2000 ≤ c && c ≤ 0x200A) || c == 0x2028 || c == 0x2029 ||
    c == 0x202F || c == 0x205F || c == 0x3000

/-- Whether a code point ends a line. A CR directly followed by an LF ends one line with
both; that pairing is the business of whoever cuts the lines. -/
def isLineBoundary (c : Nat) : Bool :=
  (0x0A ≤ c && c ≤ 0x0D) || (0x1C ≤ c && c ≤ 0x1E) || c == 0x85 || c == 0x2028 ||
    c == 0x2029

end LaxJson.Unicode
