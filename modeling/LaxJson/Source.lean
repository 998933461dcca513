import LaxJson.Scan.CharClass
/-
# Sources and cursors

A source is the text being read, as an array of characters, together with its dialect and the
cache through which its character classes are split. The cache is sound by construction: it
holds only specs stored with the segments that splitting them afresh gives. A
cursor is an integer that names the last character consumed: it starts at -1, before the
first character, and stands at `last` when everything has been consumed. Reading the next
character means reading index `cursor + 1`.

Indices into a source follow one rule throughout: a negative index counts from the end, so
-1 is the last character, and an index that stays out of range after that names no
character. Slices clamp their bounds to the source instead.
-/

set_option autoImplicit false
namespace LaxJson

/-- Which characters separate tokens. -/
inductive Dialect where
  /-- Blanks are space, tab, LF, VT, FF and CR. -/
  | plain
  /-- Blanks also include comments from `#` to the end of the line. Only this dialect
  knows the document grammar. -/
  | json
deriving DecidableEq, Inhabited

/-- A text to read, in a dialect, with the cache of the specs split so far. -/
structure Source where
  chars : Array Char
  dialect : Dialect
  cache : SplitCache
  sound : cache.Sound

namespace Source

/-- The source with the characters of a string, with nothing split yet. -/
def of (dialect : Dialect) (text : String) : Source :=
  ⟨text.toList.toArray, dialect, .empty, SplitCache.sound_empty⟩

instance : Inhabited Source := ⟨of .plain ""⟩

/-- Another text in the same dialect, read with the same cache. -/
def reread (s : Source) (text : String) : Source := { s with chars := text.toList.toArray }

/-- The source once the segments of `specs` were asked for through its cache, in order. -/
def store (s : Source) (specs : List String) : Source :=
  { s with cache := s.cache.fill specs, sound := SplitCache.fill_sound s.sound specs }

/-- The index of the last character, -1 for an empty source. -/
def last (s : Source) : Int := s.chars.size - 1

/-- How many characters lie after a cursor. -/
def rest (s : Source) (p : Int) : Nat := (s.last - p).toNat

/-- The character at an index, a negative index counting from the end. -/
def get? (s : Source) (i : Int) : Option Char :=
  let j := if i < 0 then i + s.chars.size else i
  if 0 ≤ j then s.chars[j.toNat]? else none

/-- A slice bound moved into the source: negative bounds count from the end, and a bound
beyond either end stops there. -/
def clamp (s : Source) (i : Int) : Nat :=
  if i < 0 then (i + s.chars.size).toNat else min i.toNat s.chars.size

/-- The characters from index `lo` up to, not including, index `hi`. -/
def slice (s : Source) (lo hi : Int) : List Char :=
  (s.chars.extract (s.clamp lo) (s.clamp hi)).toList

theorem rest_le_rest {s : Source} {p q : Int} (h : p ≤ q) : s.rest q ≤ s.rest p := by
  unfold rest; omega

theorem rest_lt_rest {s : Source} {p q : Int} (h : p < q) (hp : p < s.last) :
    s.rest q < s.rest p := by
  unfold rest; omega

end Source

end LaxJson
