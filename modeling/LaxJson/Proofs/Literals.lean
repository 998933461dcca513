import LaxJson.Proofs.Numbers
import LaxJson.Proofs.Strings
/-!
# What literals read to

The values of number and string literals, said part by part.

A number literal reads as the rule combines its parts: the integer part with its sign, the
fraction as the double of `0.F`, and the exponent with its sign, each read exactly once the digit
limit is met (`NumLit.eval_eq`). The fraction is added to the integer part after the sign, so the
sign reaches only the integer part (`number_reads_literal`): `-1.5` is `-1 + 0.5`.

A string literal reads to the decoding of its body (`decodeBody`), in which an escape the table
does not change, the escaped delimiter among them, stands for the backslash and the character
both (`quotedString_decodes`).
-/

set_option autoImplicit false
namespace LaxJson

/-! ## Number literals -/

namespace NumLit

/-- The integer part of a literal with its sign, read exactly. -/
def wholeInt (n : NumLit) : Int :=
  if n.negative then -(Numeral.digitsValue n.whole : Int) else Numeral.digitsValue n.whole

/-- The exponent of a literal with its sign, read exactly, and zero when there is none. -/
def exponentInt (n : NumLit) : Int :=
  match n.exponent with
  | some x =>
    if x.sign = some '-' then -(Numeral.digitsValue x.digits : Int) else Numeral.digitsValue x.digits
  | none => 0

/-- Digits within the limit, after an optional minus sign, read as their integer. -/
theorem readInteger_digits (neg : Bool) {ds : List Char} (hd : ∀ c ∈ ds.head?, c.isDigit = true)
    (hl : ds.length ≤ digitLimit) :
    Numeral.readInteger (String.ofList ((if neg then ['-'] else []) ++ ds)) =
      .ok (if neg then -(Numeral.digitsValue ds : Int) else Numeral.digitsValue ds) := by
  unfold Numeral.readInteger
  rw [String.toList_ofList]
  cases neg with
  | true =>
    simp only [↓reduceIte, List.cons_append, List.nil_append]
    rw [if_neg (by omega)]
  | false =>
    simp only [Bool.false_eq_true, ↓reduceIte, List.nil_append]
    split
    · -- a digit string does not start with the minus sign
      exact absurd (hd '-' (by simp)) (by decide)
    · dsimp only
      rw [if_neg (by omega)]
      rfl

theorem wholeDigits_head {ds : List Char} (h : WholeDigits ds) : ∀ c ∈ ds.head?, c.isDigit = true := by
  intro c hc
  rcases h with rfl | ⟨d, rest, rfl, h1, h9, -⟩
  · simp only [List.head?_cons, Option.mem_def, Option.some.injEq] at hc
    subst hc
    rfl
  · simp only [List.head?_cons, Option.mem_def, Option.some.injEq] at hc
    subst hc
    exact (isDigit_iff _).2 (.inr ⟨h1, h9⟩)

/-- Within the digit limit, a valid literal evaluates as the rule combines its parts, each read
exactly: the integer part with its sign, the fraction, and the exponent with its sign. -/
theorem eval_eq {n : NumLit} (hn : n.Valid) (hI : n.whole.length ≤ digitLimit)
    (hE : ∀ x ∈ n.exponent, x.digits.length ≤ digitLimit) :
    n.eval = Number.ofParts n.wholeInt (fractionValue n.fraction) n.exponentInt := by
  have hw : Numeral.readInteger (String.ofList n.wholeChars) = .ok n.wholeInt :=
    readInteger_digits n.negative (wholeDigits_head hn.whole) hI
  have he : exponentValue n.exponent = .ok n.exponentInt := by
    cases hx : n.exponent with
    | none => simp [exponentValue, exponentInt, hx]
    | some x =>
      obtain ⟨-, -, hne, hdig⟩ := hn.exponent x hx
      have hd : ∀ c ∈ x.digits.head?, c.isDigit = true := fun c hc =>
        hdig c (List.mem_of_mem_head? hc)
      have hr := readInteger_digits false hd (hE x hx)
      simp only [Bool.false_eq_true, if_false, List.nil_append] at hr
      simp [exponentValue, Exponent.value, hr, exponentInt, hx, bind, Except.bind, pure,
        Except.pure]
  simp only [eval, hw, he]
  rfl

end NumLit

namespace Grammar

variable {s : Source} {p : Int}

/-- A number literal of the standard form, each of its characters after a gap of its own, then a
gap and then the end of the text, a comma or a closing bracket, with no more digits than the limit
in its integer part and its exponent. The number rule reads it up to the end of that gap, as the
integer part with its sign made a double, plus the double of `0.F`, times the platform's power of
ten when the exponent is not zero: the sign reaches only the integer part. With no fraction and an
exponent that is absent or zero, it reads as the integer of its sign and integer part. -/
theorem number_reads_literal (hs : s.dialect = .json) (hp : -1 ≤ p) {n : NumLit} (hn : n.Valid)
    (hI : n.whole.length ≤ digitLimit) (hE : ∀ x ∈ n.exponent, x.digits.length ≤ digitLimit)
    {t g r : List Char} (h : s.after p = t ++ g ++ r) (ht : Spread n.chars t) (hg : Gap g)
    (hr : ∀ c ∈ r.head?, c = ',' ∨ c = ']' ∨ c = '\x7d') :
    (number s p).out =
        (Number.ofParts n.wholeInt (NumLit.fractionValue n.fraction) n.exponentInt).mapError .fault ∧
      (∀ v, (number s p).out = .ok v → (number s p).pos = p + t.length + g.length) ∧
      (n.fraction = none → n.exponentInt = 0 → (number s p).out = .ok (.int n.wholeInt)) := by
  have hsolid : Solid r := by
    intro c hc
    rcases hr c hc with rfl | rfl | rfl <;> exact ⟨by decide, by decide⟩
  have hfollow : NumberFollow r := by
    intro c hc
    rcases hr c hc with rfl | rfl | rfl <;> exact ⟨by decide, by decide, by decide, by decide⟩
  obtain ⟨hout, hpos⟩ :=
    number_of_runTo hs hp hn ⟨t, g, h, ht, .inl ⟨hg, hsolid⟩, rfl⟩ hfollow
  rw [NumLit.eval_eq hn hI hE] at hout hpos
  refine ⟨hout, fun v hv => hpos v ?_, fun hf he => ?_⟩
  · -- a value read is the value of the literal
    rw [hout] at hv
    cases hx : Number.ofParts n.wholeInt (NumLit.fractionValue n.fraction) n.exponentInt with
    | ok v' => rw [hx] at hv; cases hv; rfl
    | error f => rw [hx] at hv; cases hv
  · rw [hout, hf, he]
    simp [Number.ofParts, Number.addInt, NumLit.fractionValue, bind, Except.bind, mapError_ok]

/-- `-1.5` reads as `-1` plus the double of `0.5`. -/
theorem number_negative_fraction :
    (number (Source.of .json "-1.5") (-1)).out =
      (Number.ofParts (-1) (.float (Numeral.readFraction ['5'])) 0).mapError .fault := by
  have hn : NumLit.Valid ⟨true, ['1'], some ['5'], none⟩ :=
    ⟨.inr ⟨'1', [], rfl, by decide, by decide, by simp⟩,
      fun ds hds => by cases hds; exact ⟨by simp, fun c hc => by rw [List.mem_singleton.1 hc]; rfl⟩,
      fun x hx => by cases hx⟩
  have h := number_reads_literal (s := Source.of .json "-1.5") (p := -1)
    (n := ⟨true, ['1'], some ['5'], none⟩) (t := ['-', '1', '.', '5']) (g := []) (r := [])
    rfl (by decide) hn (by decide) (fun x hx => by cases hx) (by decide)
    (.cons .nil (.cons .nil (.cons .nil (.cons .nil .nil)))) .nil (by simp)
  exact h.1

/-! ## String literals -/

/-- What the escape of a character stands for: `\b \f \n \r \t` for the control characters they
name, `\\` and `\/` for the backslash and the slash, and any other escaped character for the
backslash and itself. -/
def escapeValue : Char → List Char
  | 'b' => ['\x08']
  | 'f' => ['\x0c']
  | 'n' => ['\n']
  | 'r' => ['\r']
  | 't' => ['\t']
  | '\\' => ['\\']
  | '/' => ['/']
  | e => ['\\', e]

/-- The code points a string body stands for, read from left to right: `\uXXXX` stands for the
code point of its four hexadecimal digits, another escape for its value, and every other
character for itself. -/
def decodeBody : List Char → List CodePoint
  | '\\' :: 'u' :: a :: b :: c :: d :: rest => hexCodePoint a b c d :: decodeBody rest
  | '\\' :: e :: rest => (escapeValue e).map .ofChar ++ decodeBody rest
  | c :: rest => .ofChar c :: decodeBody rest
  | [] => []

variable {q : Char}

theorem escapeValue_of_escape (hq : IsQuote q) {e : Char} {cs : List Char} (h : Escape q e cs) :
    escapeValue e = cs := by
  cases h <;> rcases hq with rfl | rfl <;> rfl

theorem decodeBody_raw {c : Char} (hc : c ≠ '\\') (u : List Char) :
    decodeBody (c :: u) = .ofChar c :: decodeBody u := by
  simp [decodeBody, hc]

theorem decodeBody_escape {e : Char} (he : e ≠ 'u') (u : List Char) :
    decodeBody ('\\' :: e :: u) = (escapeValue e).map .ofChar ++ decodeBody u := by
  simp [decodeBody, he]

/-- A body of the grammar stands for its decoding. -/
theorem decodeBody_of_strBody (hq : IsQuote q) {body : List Char} {cps : List CodePoint}
    (h : StrBody q body cps) : decodeBody body = cps := by
  induction h with
  | nil => rfl
  | @cons t u x y piece _ ih =>
    cases piece with
    | raw _ hcb _ => rw [List.singleton_append, decodeBody_raw hcb, ih]; rfl
    | escape he =>
      rw [List.cons_append, List.cons_append, List.nil_append, decodeBody_escape (Escape.ne_u hq he),
        escapeValue_of_escape hq he, ih]
    | unicode => simp [decodeBody, ih]

/-- A string literal of the dialect, delimited by a double or a single quote, reads to the
decoding of its body, and the reader stops on its closing delimiter. -/
theorem quotedString_decodes (hp : -1 ≤ p) (hq : q = '"' ∨ q = '\'') {body : List Char}
    {cps : List CodePoint} (hbody : StrBody q body cps) {r : List Char}
    (h : s.after p = q :: (body ++ q :: r)) :
    (quotedString s p).out = .ok ⟨decodeBody body⟩ ∧
      (quotedString s p).pos = p + body.length + 2 ∧ s.get? (quotedString s p).pos = some q := by
  have ht : s.after p = (q :: (body ++ [q])) ++ r := by simp [h]
  obtain ⟨hout, hpos⟩ := quotedString_of_text hp ht ⟨q, body, hq, rfl, hbody⟩
  have hlen : (q :: (body ++ [q])).length = body.length + 2 := by simp
  refine ⟨by rw [hout, decodeBody_of_strBody hq hbody], by rw [hpos, hlen]; omega, ?_⟩
  -- the last character read is the closing delimiter
  have hclose : s.after (p + (q :: body).length) = q :: r :=
    Source.after_add hp (t := q :: body) (by simp [h])
  rw [hpos, hlen, show p + ↑(body.length + 2) = p + ↑(q :: body).length + 1 by simp; omega,
    Source.get?_succ (by simp; omega), hclose]
  rfl

/-- An escaped double quote in a string stands for the backslash and the quote. -/
theorem quotedString_escaped_quote :
    (quotedString (Source.of .json "\"\\\"\"") (-1)).out = .ok ⟨[.ofChar '\\', .ofChar '"']⟩ ∧
      (quotedString (Source.of .json "\"\\\"\"") (-1)).pos = 3 := by
  have hbody : StrBody '"' ['\\', '"'] [.ofChar '\\', .ofChar '"'] :=
    StrBody.cons (t := ['\\', '"']) (u := []) (StrPiece.escape Escape.delimiter) .nil
  have h := quotedString_decodes (s := Source.of .json "\"\\\"\"") (p := -1) (by decide) (.inl rfl)
    hbody (r := []) (by decide)
  exact ⟨h.1, h.2.1⟩

end Grammar

end LaxJson
