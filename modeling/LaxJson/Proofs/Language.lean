import LaxJson.Grammar.Quoted
import LaxJson.Numeral
/-!
# The language of the dialect

The texts the reader accepts, written as a grammar that does not follow how the reader works: a
JSON value with blanks and `#` comments before and after every token and between any two
characters of a number; strings between double or single quotes, holding any character but
their delimiter, the backslash and the control characters, and the escapes `\b \f \n \r \t \\ \/
\uXXXX` together with a backslash before the delimiter; lists and dicts with no comma before the
first item or after the last.

A derivation also names the document the text writes, a `Doc`: the tree of the value with its
numbers still literals. `Doc.eval` evaluates it the way the reader does, from left to right, so
that its only failures are those of evaluating a number.
-/

set_option autoImplicit false
namespace LaxJson

/-! ## Gaps -/

/-- A gap: blanks and comments, each comment a `#` and what follows it up to and including the
next line feed. -/
inductive Gap : List Char → Prop
  | nil : Gap []
  | blank {c : Char} {w : List Char} : isBlank c = true → Gap w → Gap (c :: w)
  | comment {body w : List Char} : '\n' ∉ body → Gap w → Gap ('#' :: body ++ '\n' :: w)

/-- A gap whose last comment is never closed: it runs to the end of the text. -/
def OpenGap (w : List Char) : Prop := ∃ g body, w = g ++ '#' :: body ∧ Gap g ∧ '\n' ∉ body

/-- Text that no gap runs into: empty, or starting with neither a blank nor `#`. -/
def Solid (r : List Char) : Prop := ∀ c ∈ r.head?, isBlank c = false ∧ c ≠ '#'

/-- `w` is the whole gap before `r`: a closed gap before solid text, or a gap that stays open to
the end of the text. -/
def Trail (w r : List Char) : Prop := (Gap w ∧ Solid r) ∨ (OpenGap w ∧ r = [])

theorem Gap.append {a b : List Char} (ha : Gap a) (hb : Gap b) : Gap (a ++ b) := by
  induction ha with
  | nil => exact hb
  | blank hc _ ih => exact .blank hc ih
  | comment hn _ ih => simpa only [List.cons_append, List.append_assoc] using Gap.comment hn ih

theorem OpenGap.gap_append {a b : List Char} (ha : Gap a) (hb : OpenGap b) : OpenGap (a ++ b) := by
  obtain ⟨g, body, rfl, hg, hn⟩ := hb
  exact ⟨a ++ g, body, by simp, ha.append hg, hn⟩

theorem Solid.cons {c : Char} {r : List Char} (hb : isBlank c = false) (hh : c ≠ '#') :
    Solid (c :: r) := by
  intro c' hc'
  simp only [List.head?_cons, Option.mem_def, Option.some.injEq] at hc'
  subst hc'
  exact ⟨hb, hh⟩

theorem Solid.nil : Solid [] := by
  intro c hc
  simp at hc

theorem Trail.solid {w r : List Char} (h : Trail w r) : Solid r := by
  rcases h with ⟨-, hr⟩ | ⟨-, rfl⟩
  · exact hr
  · exact Solid.nil

/-- Before text that is not empty, the whole gap is a closed one. -/
theorem Trail.gap {w r : List Char} (h : Trail w r) (hr : r ≠ []) : Gap w := by
  rcases h with ⟨hw, -⟩ | ⟨-, rfl⟩
  · exact hw
  · exact absurd rfl hr

/-- A gap that is not empty starts with a blank or a `#`. -/
theorem Trail.head_cons {c : Char} {w r : List Char} (h : Trail (c :: w) r) :
    isBlank c = true ∨ c = '#' := by
  rcases h with ⟨hw, -⟩ | ⟨⟨g, body, hg, hgap, -⟩, -⟩
  · cases hw with
    | blank hc _ => exact .inl hc
    | comment _ _ => exact .inr rfl
  · cases g with
    | nil => cases hg; exact .inr rfl
    | cons c' g =>
      simp only [List.cons_append, List.cons.injEq] at hg
      obtain ⟨rfl, -⟩ := hg
      cases hgap with
      | blank hc _ => exact .inl hc
      | comment _ _ => exact .inr rfl

/-- A whole gap right after another whole gap is empty. -/
theorem Trail.eq_nil {g w r : List Char} (hg : Trail g (w ++ r)) (hw : Trail w r) : w = [] := by
  cases w with
  | nil => rfl
  | cons c w =>
    obtain ⟨hb, hh⟩ := hg.solid c rfl
    rcases hw.head_cons with h | h
    · rw [hb] at h; cases h
    · exact absurd h hh

/-- A whole gap that solid text starts with is empty. -/
theorem Trail.eq_nil_of_solid {w r : List Char} (hw : Trail w r) (h : Solid (w ++ r)) : w = [] := by
  cases w with
  | nil => rfl
  | cons c w =>
    obtain ⟨hb, hh⟩ := h c rfl
    rcases hw.head_cons with hc | hc
    · rw [hb] at hc; cases hc
    · exact absurd hc hh

/-- A closed gap before a whole gap is a whole gap. -/
theorem Trail.gap_append {a w r : List Char} (ha : Gap a) (h : Trail w r) : Trail (a ++ w) r := by
  rcases h with ⟨hw, hr⟩ | ⟨hw, rfl⟩
  · exact .inl ⟨ha.append hw, hr⟩
  · exact .inr ⟨hw.gap_append ha, rfl⟩

/-- `Spaced cs t`: `t` is the characters `cs`, in order, with a gap between any two of them. -/
inductive Spaced : List Char → List Char → Prop
  | one (c : Char) : Spaced [c] [c]
  | cons (c : Char) {w cs t : List Char} : Gap w → Spaced cs t → Spaced (c :: cs) (c :: (w ++ t))

/-! ## Number literals -/

/-- A run of one decimal digit or more. -/
def Digits (ds : List Char) : Prop := ds ≠ [] ∧ ∀ c ∈ ds, c.isDigit = true

/-- The exponent of a number literal: its mark, its sign if it has one, and its digits. -/
structure Exponent where
  mark : Char
  sign : Option Char
  digits : List Char

/-- A number literal as written, without the gaps inside it. -/
structure NumLit where
  negative : Bool
  whole : List Char
  fraction : Option (List Char)
  exponent : Option Exponent

namespace Exponent

/-- The characters of an exponent. -/
def chars (x : Exponent) : List Char := x.mark :: x.sign.toList ++ x.digits

/-- An exponent of RFC 8259: `e` or `E`, an optional sign, and digits. -/
def Valid (x : Exponent) : Prop :=
  (x.mark = 'e' ∨ x.mark = 'E') ∧ (∀ c ∈ x.sign, c = '+' ∨ c = '-') ∧ Digits x.digits

/-- The exponent's value: its digits read as an integer, negated after a `-`. -/
def value (x : Exponent) : Except Fault Int := do
  let n ← Numeral.readInteger (String.ofList x.digits)
  pure (if x.sign = some '-' then -n else n)

end Exponent

namespace NumLit

/-- An integer part of RFC 8259: `0`, or a nonzero digit and more digits. -/
def WholeDigits (ds : List Char) : Prop :=
  ds = ['0'] ∨ ∃ d rest, ds = d :: rest ∧ '1' ≤ d ∧ d ≤ '9' ∧ ∀ c ∈ rest, c.isDigit = true

/-- The characters of the integer part, its sign included. -/
def wholeChars (n : NumLit) : List Char := (if n.negative then ['-'] else []) ++ n.whole

/-- The characters of an optional fraction: a point and the digits. -/
def fractionChars : Option (List Char) → List Char
  | some ds => '.' :: ds
  | none => []

/-- The characters of an optional exponent. -/
def exponentChars : Option Exponent → List Char
  | some x => x.chars
  | none => []

/-- The characters of a literal. -/
def chars (n : NumLit) : List Char :=
  n.wholeChars ++ fractionChars n.fraction ++ exponentChars n.exponent

/-- A literal of RFC 8259: a valid integer part, a fraction of one digit or more, and a valid
exponent. -/
structure Valid (n : NumLit) : Prop where
  whole : WholeDigits n.whole
  fraction : ∀ ds ∈ n.fraction, Digits ds
  exponent : ∀ x ∈ n.exponent, x.Valid

/-- The value of an optional fraction: the double nearest to `0.ddd`, or the integer zero. -/
def fractionValue : Option (List Char) → Number
  | some ds => .float (Numeral.readFraction ds)
  | none => .int 0

/-- The value of an optional exponent, zero when there is none. -/
def exponentValue : Option Exponent → Except Fault Int
  | some x => x.value
  | none => .ok 0

/-- The number a literal stands for, found as the reader finds it: the integer part first, which
may have too many digits, then the exponent, and last their combination with the fraction. -/
def eval (n : NumLit) : Except Fault Number := do
  let i ← Numeral.readInteger (String.ofList n.wholeChars)
  let e ← exponentValue n.exponent
  Number.ofParts i (fractionValue n.fraction) e

end NumLit

/-! ## Strings -/

/-- The escapes of a string delimited by `q`, each with the characters it stands for. A backslash
before the delimiter stands for the backslash and the delimiter both. -/
inductive Escape (q : Char) : Char → List Char → Prop
  | backspace : Escape q 'b' ['\x08']
  | formFeed : Escape q 'f' ['\x0c']
  | lineFeed : Escape q 'n' ['\n']
  | carriageReturn : Escape q 'r' ['\r']
  | tab : Escape q 't' ['\t']
  | backslash : Escape q '\\' ['\\']
  | slash : Escape q '/' ['/']
  | delimiter : Escape q q ['\\', q]

/-- A hexadecimal digit, in either case. -/
def IsHexDigit (c : Char) : Prop := c.isDigit = true ∨ ('a' ≤ c ∧ c ≤ 'f') ∨ ('A' ≤ c ∧ c ≤ 'F')

/-- One piece of a string delimited by `q`, with the code points it stands for. -/
inductive StrPiece (q : Char) : List Char → List CodePoint → Prop
  | raw {c : Char} : c ≠ q → c ≠ '\\' → Unicode.isControl c.toNat = false →
      StrPiece q [c] [.ofChar c]
  | escape {e : Char} {cs : List Char} : Escape q e cs → StrPiece q ['\\', e] (cs.map .ofChar)
  | unicode {a b c d : Char} : IsHexDigit a → IsHexDigit b → IsHexDigit c → IsHexDigit d →
      StrPiece q ['\\', 'u', a, b, c, d] [Grammar.hexCodePoint a b c d]

/-- The body of a string delimited by `q`: pieces one after another. -/
inductive StrBody (q : Char) : List Char → List CodePoint → Prop
  | nil : StrBody q [] []
  | cons {t u : List Char} {x y : List CodePoint} : StrPiece q t x → StrBody q u y →
      StrBody q (t ++ u) (x ++ y)

/-- A quoted string: a double or single quote, a body, and the same quote again. -/
def QuotedText (t : List Char) (x : Text) : Prop :=
  ∃ q body, (q = '"' ∨ q = '\'') ∧ t = q :: (body ++ [q]) ∧ StrBody q body x.points

/-! ## Documents -/

/-- A document as written: the tree of a value, its numbers still literals. -/
inductive Doc where
  | null
  | bool (b : Bool)
  | text (x : Text)
  | number (n : NumLit)
  | list (items : List Doc)
  | dict (entries : List (Text × Doc))

mutual

/-- `ValueText t d`: the text `t` writes the document `d`, with no gap before or after it. -/
inductive ValueText : List Char → Doc → Prop
  | null : ValueText "null".toList .null
  | true : ValueText "true".toList (.bool true)
  | false : ValueText "false".toList (.bool false)
  | text {t : List Char} {x : Text} : QuotedText t x → ValueText t (.text x)
  | number {t : List Char} {n : NumLit} : n.Valid → Spaced n.chars t → ValueText t (.number n)
  | emptyList {w : List Char} : Gap w → ValueText ('[' :: (w ++ [']'])) (.list [])
  | list {w u : List Char} {ds : List Doc} : Gap w → Items u ds →
      ValueText ('[' :: (w ++ u ++ [']'])) (.list ds)
  | emptyDict {w : List Char} : Gap w → ValueText ('\x7b' :: (w ++ ['\x7d'])) (.dict [])
  | dict {w u : List Char} {es : List (Text × Doc)} : Gap w → Entries u es →
      ValueText ('\x7b' :: (w ++ u ++ ['\x7d'])) (.dict es)

/-- `Items u ds`: one item or more, each followed by a gap, with a comma and a gap between
consecutive ones. -/
inductive Items : List Char → List Doc → Prop
  | last {t g : List Char} {d : Doc} : ValueText t d → Gap g → Items (t ++ g) [d]
  | cons {t g g' u : List Char} {d : Doc} {ds : List Doc} : ValueText t d → Gap g → Gap g' →
      Items u ds → Items (t ++ g ++ ',' :: (g' ++ u)) (d :: ds)

/-- `Entries u es`: one entry `key: value` or more, each followed by a gap, with a comma and a
gap between consecutive ones. -/
inductive Entries : List Char → List (Text × Doc) → Prop
  | last {k g₁ g₂ t g : List Char} {x : Text} {d : Doc} : QuotedText k x → Gap g₁ → Gap g₂ →
      ValueText t d → Gap g → Entries (k ++ g₁ ++ ':' :: (g₂ ++ t ++ g)) [(x, d)]
  | cons {k g₁ g₂ t g g' u : List Char} {x : Text} {d : Doc} {es : List (Text × Doc)} :
      QuotedText k x → Gap g₁ → Gap g₂ → ValueText t d → Gap g → Gap g' → Entries u es →
      Entries (k ++ g₁ ++ ':' :: (g₂ ++ t ++ g ++ ',' :: (g' ++ u))) ((x, d) :: es)

end

/-- A whole document: a value with a gap before it and a gap after it; the gap after may end in
a comment that runs to the end of the text. -/
def Document (t : List Char) (d : Doc) : Prop :=
  ∃ w core w', t = w ++ core ++ w' ∧ Gap w ∧ ValueText core d ∧ Trail w' []

/-- The language of the dialect: the texts that are documents. -/
def InLanguage (t : List Char) : Prop := ∃ d, Document t d

/-! ## Evaluating documents -/

mutual

/-- The value of a document, or the fault of the first number in it that has none. -/
def Doc.eval : Doc → Except Fault Value
  | .null => .ok (.ofString "null")
  | .bool b => .ok (.bool b)
  | .text x => .ok (.text x)
  | .number n => .number <$> n.eval
  | .list ds => .list <$> Doc.evalItems ds
  | .dict es => .dict <$> Doc.evalEntries [] es

/-- The values of a list's items, in order. -/
def Doc.evalItems : List Doc → Except Fault (List Value)
  | [] => .ok []
  | d :: ds => do
    let v ← d.eval
    let vs ← Doc.evalItems ds
    pure (v :: vs)

/-- The entries of a dict after setting each key in turn on `acc`. -/
def Doc.evalEntries (acc : List (Text × Value)) : List (Text × Doc) → Except Fault (List (Text × Value))
  | [] => .ok acc
  | (k, d) :: es => do
    let v ← d.eval
    Doc.evalEntries (Value.put acc k v) es

end

end LaxJson
