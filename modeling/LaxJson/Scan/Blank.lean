import LaxJson.Scan.Step
/-
# Blanks

Blanks separate tokens and are skipped before and after them. In the plain dialect a blank
is one of six characters: space, tab, LF, VT, FF and CR. The json dialect adds comments: a
`#` opens a comment, which runs up to and including the next LF, or to the end of the text.
The skipper is a two-state automaton, inside or outside a comment, that consumes characters
until one stops it or the source ends.
-/

set_option autoImplicit false
namespace LaxJson

/-- Whether a character is a blank: space, tab, LF, VT, FF or CR. -/
def isBlank (c : Char) : Bool :=
  c == ' ' || c == '\t' || c == '\n' || c == '\x0b' || c == '\x0c' || c == '\r'

/-- One move of the blank skipper on the character `c`, with `inComment` telling whether a
comment is open. The result is whether a comment is open once `c` is consumed, or `none`
when `c` stops the skipper. -/
def Dialect.blankMove : Dialect → Bool → Char → Option Bool
  | .plain, _, c => if isBlank c then some false else none
  | .json, true, c => some (c != '\n')
  | .json, false, c => if c == '#' then some true else if isBlank c then some false else none

namespace Source

/-- Skips blanks after the cursor, `inComment` telling whether a comment is open. -/
def skipBlankFrom (s : Source) (inComment : Bool) (p : Int) : Step p Unit :=
  if h : p < s.last then
    match s.get? (p + 1) with
    | none => Step.fail p (.fault .indexOutOfRange)
    | some c =>
      match s.dialect.blankMove inComment c with
      | none => Step.ok p ()
      | some inComment' => (s.skipBlankFrom inComment' (p + 1)).after (by omega)
  else Step.ok p ()
termination_by s.rest p
decreasing_by exact rest_lt_rest (by omega) h

/-- Skips the blanks after the cursor. -/
def skipBlank (s : Source) : Scan Unit := s.skipBlankFrom false

end Source

end LaxJson
