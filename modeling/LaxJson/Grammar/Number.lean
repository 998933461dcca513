import LaxJson.Scan.Choice
import LaxJson.Numeral
/-
# Number literals

The rules of the number grammar. Every rule is called through an ordered choice, which skips
blanks before and after it, so blanks may stand between any two characters of a number:
`1 000` reads as 1000 and `- 1` as -1. An integer is a digit, or a nonzero digit followed
by digits, either with a leading `-`; the four forms are tried longest first. A fraction and
an exponent are optional, and a failed attempt at either keeps the blanks it skipped.

The main statement is that a digit advances, which is what makes the digit loop terminate.
-/

set_option autoImplicit false
namespace LaxJson.Grammar

/-- `onenine`: a digit from 1 to 9. -/
def onenine (s : Source) : Scan Char := s.char (some "1-9")

/-- `digit`: a `0`, or else a nonzero digit by a choice. -/
def digit (s : Source) : Scan Char := do
  match ← (s.char (some "0")).optional with
  | some c => pure c
  | none => s.choice [(.onenine, onenine s)]

theorem digit_advances (s : Source) : (digit s).Advances s := by
  intro p c h
  unfold digit at h ⊢
  rw [Scan.bind_apply] at h ⊢
  obtain ⟨o, ho, hk, hpos⟩ := Step.andThen_ok h
  rw [hpos]
  have hle := Source.rest_le_rest (s := s) ((s.char (some "0")).optional p).le
  cases o with
  | some c' =>
    have hc := Step.recover_eq_some ho
    obtain ⟨hp, hlt⟩ := Source.char_ok hc
    have : s.rest (s.char (some "0") p).pos < s.rest p := by
      rw [hp]; exact Source.rest_lt_rest (by omega) hlt
    exact this
  | none =>
    have hadv := Source.choice_advances s [(.onenine, onenine s)]
      (by intro ra hra; simp only [List.mem_singleton] at hra; subst hra
          exact Source.char_advances s _) _ c hk
    exact Nat.lt_of_lt_of_le hadv hle

/-- The digits after the first, each read by a choice that skips the blanks around it, until
one fails; the failed attempt keeps the blanks it skipped. -/
def moreDigits (s : Source) (acc : String) (p : Int) : Step p String :=
  let x := (s.choice [(.digit, digit s)]).optional p
  x.andThen fun
    | some d, _ => moreDigits s (acc.push d) x.pos
    | none, _ => Step.ok x.pos acc
termination_by s.rest p
decreasing_by
  rename_i h
  have hc := Step.recover_eq_some h
  exact Source.choice_advances s [(.digit, digit s)]
    (by intro ra hra; simp only [List.mem_singleton] at hra; subst hra; exact digit_advances s)
    p d hc

/-- `digits`: one digit by a choice, then as many more as follow. -/
def digits (s : Source) : Scan String := do
  let d ← s.choice [(.digit, digit s)]
  moreDigits s (String.singleton d)

/-- `integer_rule_1`: one digit. -/
def oneDigit (s : Source) : Scan String := do
  let d ← s.choice [(.digit, digit s)]
  pure (String.singleton d)

/-- `integer_rule_2`: a nonzero digit, then digits. -/
def manyDigits (s : Source) : Scan String := do
  let d ← s.choice [(.onenine, onenine s)]
  let ds ← s.choice [(.digits, digits s)]
  pure (String.singleton d ++ ds)

/-- `integer_rule_3`: a `-`, then one digit. -/
def negOneDigit (s : Source) : Scan String := do
  let m ← s.char (some "-")
  let r ← s.choice [(.oneDigit, oneDigit s)]
  pure (String.singleton m ++ r)

/-- `integer_rule_4`: a `-`, then a nonzero digit and digits. -/
def negManyDigits (s : Source) : Scan String := do
  let m ← s.char (some "-")
  let r ← s.choice [(.manyDigits, manyDigits s)]
  pure (String.singleton m ++ r)

/-- `integer`: the first of the four integer forms that reads, longest first, as an
integer. -/
def integer (s : Source) : Scan Int := do
  let t ← s.choice [(.negManyDigits, negManyDigits s), (.negOneDigit, negOneDigit s),
    (.manyDigits, manyDigits s), (.oneDigit, oneDigit s)]
  Scan.ofExcept (Numeral.readInteger t)

/-- `fraction_rule_1`: a point, then digits. -/
def fractionDigits (s : Source) : Scan String := do
  let pt ← s.char (some ".")
  let ds ← s.choice [(.digits, digits s)]
  pure (String.singleton pt ++ ds)

/-- `fraction`: the double of `.ddd`, or the integer zero when no fraction reads. -/
def fraction (s : Source) : Scan Number := do
  match ← (s.choice [(.fractionDigits, fractionDigits s)]).optional with
  | some t => pure (.float (Numeral.readFraction (t.toList.drop 1)))
  | none => pure (.int 0)

/-- `sign`: a `+` or `-`, or the empty text when neither follows. -/
def sign (s : Source) : Scan String := do
  match ← (s.char (some "+-")).optional with
  | some c => pure (String.singleton c)
  | none => pure ""

/-- `exponent_rule_1`: `e` or `E`, a sign, then digits; the signed exponent. -/
def exponentDigits (s : Source) : Scan Int := do
  let _ ← s.char (some "eE")
  let sg ← s.choice [(.sign, sign s)]
  let ds ← s.choice [(.digits, digits s)]
  let n ← Scan.ofExcept (Numeral.readInteger ds)
  pure (if sg == "-" then -n else n)

/-- `exponent`: the signed exponent, or zero when no exponent reads. -/
def exponent (s : Source) : Scan Int := do
  match ← (s.choice [(.exponentDigits, exponentDigits s)]).optional with
  | some e => pure e
  | none => pure 0

/-- `number`: an integer, a fraction and an exponent, each by a choice, combined. -/
def number (s : Source) : Scan Number := do
  let i ← s.choice [(.integer, integer s)]
  let f ← s.choice [(.fraction, fraction s)]
  let e ← s.choice [(.exponent, exponent s)]
  Scan.ofExcept (Number.ofParts i f e)

end LaxJson.Grammar
