/-
# Texts of code points

Strings read from a document are sequences of Unicode code points. A `\u` escape may name a
surrogate code point on its own, which no `String` can hold, so decoded strings are kept as
`Text`: a list of code points in which surrogates are allowed. Texts are ordered by code
point, the first difference deciding and a proper prefix coming first.
-/

set_option autoImplicit false
namespace LaxJson

/-- A Unicode code point, surrogate code points included. -/
structure CodePoint where
  val : Nat
  lt : val < 0x110000
deriving DecidableEq

namespace CodePoint

theorem char_toNat_lt (c : Char) : c.toNat < 0x110000 := by
  have h := c.valid
  simp only [UInt32.isValidChar, Nat.isValidChar] at h
  unfold Char.toNat
  omega

/-- The code point of a character. -/
def ofChar (c : Char) : CodePoint := ⟨c.toNat, char_toNat_lt c⟩

/-- Whether a code point is a surrogate, U+D800 to U+DFFF. -/
def isSurrogate (c : CodePoint) : Bool := 0xD800 ≤ c.val && c.val ≤ 0xDFFF

/-- The character of a code point, when it is not a surrogate. -/
def toChar? (c : CodePoint) : Option Char :=
  if h : c.val.isValidChar then some (Char.ofNatAux c.val h) else none

@[simp] theorem ofChar_val (c : Char) : (ofChar c).val = c.toNat := rfl

end CodePoint

/-- A string of code points. -/
structure Text where
  points : List CodePoint
deriving DecidableEq

namespace Text

/-- The text with the characters of a string. -/
def ofString (s : String) : Text := ⟨s.toList.map CodePoint.ofChar⟩

instance : Append Text := ⟨fun a b => ⟨a.points ++ b.points⟩⟩

instance : EmptyCollection Text := ⟨⟨[]⟩⟩

/-- The number of code points. -/
def length (t : Text) : Nat := t.points.length

/-- The code points as numbers. -/
def codes (t : Text) : List Nat := t.points.map (·.val)

/-- Whether some code point is a surrogate. -/
def hasSurrogate (t : Text) : Bool := t.points.any (·.isSurrogate)

/-- The string of a text without surrogates. -/
def toString? (t : Text) : Option String :=
  (t.points.mapM CodePoint.toChar?).map String.ofList

/-- Code point order: the first difference decides, and a proper prefix comes first. -/
def before (a b : Text) : Bool := decide (a.codes < b.codes)

@[simp] theorem codes_ofString (s : String) : (ofString s).codes = s.toList.map Char.toNat := by
  simp [ofString, codes, Function.comp_def]

@[simp] theorem points_append (a b : Text) : (a ++ b).points = a.points ++ b.points := rfl

end Text

end LaxJson
