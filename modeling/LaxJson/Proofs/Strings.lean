import LaxJson.Proofs.Tokens
import LaxJson.Proofs.Language
import LaxJson.Grammar.Quoted
/-!
# Reading quoted strings

Inside a string no blanks are skipped: the reader takes one character at a time with
`Source.char none`. Each turn of `stringBody` does one of three things, said once here
(`stringBody_close`, `stringBody_raw`, `stringBody_escape`) and gathered in the inversion lemma
`stringBody_ok_cases`. The escape table of the reader and the grammar's `Escape` are the same
for both delimiters (`simpleEscape_of_escape`, `escape_of_simpleEscape`).

From these, a string body of the grammar followed by its delimiter is read to its code points
(`stringBody_of_body`, by induction on the body), and whatever the reader accepts is such a
body (`stringBody_sound`, by the reader's own induction principle); `quotedString_of_text` and
`quotedString_sound` add the opening quote.
-/

set_option autoImplicit false
namespace LaxJson.Grammar

variable {s : Source} {p : Int} {q : Char} {acc : Array CodePoint}

/-! ## The escape table -/

/-- A delimiter of the dialect. -/
def IsQuote (q : Char) : Prop := q = '"' ∨ q = '\''

theorem IsQuote.ne_backslash (hq : IsQuote q) : q ≠ '\\' := by
  rcases hq with rfl | rfl <;> decide

theorem escape_of_simpleEscape {e : Char} {cs : List Char} (h : simpleEscape q e = some cs) :
    Escape q e cs := by
  unfold simpleEscape at h
  split at h
  case h_8 =>
    -- past the seven letters of the table only the delimiter is escaped
    split at h
    · next hc => cases h; subst hc; exact .delimiter
    · cases h
  all_goals cases h; constructor

theorem simpleEscape_of_escape (hq : IsQuote q) {e : Char} {cs : List Char} (h : Escape q e cs) :
    simpleEscape q e = some cs := by
  cases h <;> rcases hq with rfl | rfl <;> rfl

/-- No escape of a quoted string is the letter of the code point escape. -/
theorem Escape.ne_u (hq : IsQuote q) {e : Char} {cs : List Char} (h : Escape q e cs) :
    e ≠ 'u' := by
  rcases hq with rfl | rfl <;> cases h <;> decide

theorem segments_hex :
    segments "0-9a-fA-F".toList = .ok [.range '0' '9', .range 'a' 'f', .range 'A' 'F'] := rfl

theorem hexClass_iff (c : Char) :
    classContains [.range '0' '9', .range 'a' 'f', .range 'A' 'F'] c = true ↔ IsHexDigit c := by
  simp only [classContains, Segment.contains, IsHexDigit, Char.isDigit, List.any_cons,
    List.any_nil, Bool.or_false, Bool.or_eq_true, Bool.and_eq_true, decide_eq_true_eq]
  exact Iff.rfl

theorem hexDigit_of_text {c : Char} {r : List Char} (hp : -1 ≤ p) (h : s.after p = c :: r)
    (hc : IsHexDigit c) : (hexDigit s p).out = .ok c ∧ (hexDigit s p).pos = p + 1 :=
  Source.char_mem segments_hex hp h ((hexClass_iff c).2 hc)

theorem hexDigit_sound {c : Char} (hp : -1 ≤ p) (h : (hexDigit s p).out = .ok c) :
    IsHexDigit c ∧ (hexDigit s p).pos = p + 1 ∧ s.after p = c :: s.after (p + 1) := by
  obtain ⟨hpos, hafter, hcls⟩ := Source.char_sound hp h
  exact ⟨(hexClass_iff c).1 (hcls _ _ rfl segments_hex), hpos, hafter⟩

theorem complainNext_not_ok {mk : String → Complaint} {α : Type} {a : α} :
    (complainNext s mk p).out ≠ .ok a := by
  unfold complainNext
  split <;> exact fun h => nomatch h

/-! ## Escapes -/

theorem escape_simple {e : Char} {cs r : List Char} (hp : -1 ≤ p) (h : s.after p = e :: r)
    (hu : e ≠ 'u') (he : simpleEscape q e = some cs) :
    (escape s q p).out = .ok (cs.map .ofChar) ∧ (escape s q p).pos = p + 1 := by
  obtain ⟨h1, h2⟩ := Source.char_any hp h
  unfold escape
  refine Scan.bind_ends_as h1 h2 ?_
  rw [if_neg hu]
  simp only [he]
  exact ⟨rfl, rfl⟩

theorem escape_unicode {a b c d : Char} {r : List Char} (hp : -1 ≤ p)
    (h : s.after p = 'u' :: a :: b :: c :: d :: r) (ha : IsHexDigit a) (hb : IsHexDigit b)
    (hc : IsHexDigit c) (hd : IsHexDigit d) :
    (escape s q p).out = .ok [hexCodePoint a b c d] ∧ (escape s q p).pos = p + 5 := by
  obtain ⟨h1, h2⟩ := Source.char_any hp h
  -- the four digits, one position further each
  have r1 := (Source.after_cons hp h).2.1
  have r2 := (Source.after_cons (by omega) r1).2.1
  have r3 := (Source.after_cons (by omega) r2).2.1
  have r4 := (Source.after_cons (by omega) r3).2.1
  obtain ⟨ha1, ha2⟩ := hexDigit_of_text (by omega) r1 ha
  obtain ⟨hb1, hb2⟩ := hexDigit_of_text (by omega) r2 hb
  obtain ⟨hc1, hc2⟩ := hexDigit_of_text (by omega) r3 hc
  obtain ⟨hd1, hd2⟩ := hexDigit_of_text (by omega) r4 hd
  unfold escape
  refine Scan.bind_ends_as h1 h2 ?_
  rw [if_pos rfl]
  refine Scan.bind_ends_as ha1 ha2 (Scan.bind_ends_as hb1 hb2 (Scan.bind_ends_as hc1 hc2
    (Scan.bind_ends_as hd1 hd2 ⟨rfl, ?_⟩)))
  show p + 1 + 1 + 1 + 1 + 1 = p + 5
  omega

/-- An escape that reads is a piece of the grammar, from its backslash on. -/
theorem escape_sound {cps : List CodePoint} (hp : -1 ≤ p) (h : (escape s q p).out = .ok cps) :
    ∃ t, StrPiece q ('\\' :: t) cps ∧ s.after p = t ++ s.after (escape s q p).pos ∧
      (escape s q p).pos = p + t.length := by
  obtain ⟨e, h1, hk, hpos⟩ := Scan.bind_ok h
  obtain ⟨h1pos, hafter, -⟩ := Source.char_sound hp h1
  rw [h1pos] at hk hpos
  by_cases hu : e = 'u'
  · subst hu
    rw [if_pos rfl] at hk hpos
    obtain ⟨a, ha, hk, hpos2⟩ := Scan.bind_ok hk
    obtain ⟨ha, ha2, ra⟩ := hexDigit_sound (by omega) ha
    rw [ha2] at hk hpos2
    obtain ⟨b, hb, hk, hpos3⟩ := Scan.bind_ok hk
    obtain ⟨hb, hb2, rb⟩ := hexDigit_sound (by omega) hb
    rw [hb2] at hk hpos3
    obtain ⟨c, hc, hk, hpos4⟩ := Scan.bind_ok hk
    obtain ⟨hc, hc2, rc⟩ := hexDigit_sound (by omega) hc
    rw [hc2] at hk hpos4
    obtain ⟨d, hd, hk, hpos5⟩ := Scan.bind_ok hk
    obtain ⟨hd, hd2, rd⟩ := hexDigit_sound (by omega) hd
    rw [hd2] at hk hpos5
    have hcps : [hexCodePoint a b c d] = cps := Except.ok.inj hk
    have hend : (escape s q p).pos = p + 1 + 1 + 1 + 1 + 1 :=
      hpos.trans (hpos2.trans (hpos3.trans (hpos4.trans hpos5)))
    refine ⟨['u', a, b, c, d], hcps ▸ .unicode ha hb hc hd, ?_, by rw [hend]; simp; omega⟩
    rw [hend, hafter, ra, rb, rc, rd]
    rfl
  · rw [if_neg hu] at hk hpos
    cases hs : simpleEscape q e with
    | none =>
      rw [hs] at hk
      exact absurd hk complainNext_not_ok
    | some cs =>
      rw [hs] at hk hpos
      have hcps : cs.map .ofChar = cps := Except.ok.inj hk
      have hend : (escape s q p).pos = p + 1 := hpos
      refine ⟨[e], hcps ▸ .escape (escape_of_simpleEscape hs), ?_, ?_⟩
      · rw [hend]
        exact hafter
      · rw [hend]
        rfl

/-! ## One turn of the string body -/

theorem stringBody_close (acc : Array CodePoint) {r : List Char} (hp : -1 ≤ p)
    (h : s.after p = q :: r) :
    (stringBody s q acc p).out = .ok ⟨acc.toList⟩ ∧ (stringBody s q acc p).pos = p + 1 := by
  obtain ⟨h1, h2⟩ := Source.char_any hp h
  rw [stringBody]
  refine Step.andThen_ends_as h1 ?_
  rw [if_pos rfl]
  exact ⟨rfl, h2⟩

theorem stringBody_raw (acc : Array CodePoint) {c : Char} {r : List Char} (hp : -1 ≤ p)
    (h : s.after p = c :: r) (hcq : c ≠ q) (hcb : c ≠ '\\') (hcc : Unicode.isControl c.toNat = false) :
    (stringBody s q acc p).out = (stringBody s q (acc.push (.ofChar c)) (p + 1)).out ∧
      (stringBody s q acc p).pos = (stringBody s q (acc.push (.ofChar c)) (p + 1)).pos := by
  obtain ⟨h1, h2⟩ := Source.char_any hp h
  rw [stringBody]
  refine Step.andThen_ends_as h1 ?_
  rw [if_neg hcq, if_neg hcb, if_neg (by rw [hcc]; decide), h2]
  exact ⟨rfl, rfl⟩

theorem stringBody_control (acc : Array CodePoint) {c : Char} {r : List Char} (hp : -1 ≤ p)
    (h : s.after p = c :: r) (hcq : c ≠ q) (hcb : c ≠ '\\') (hcc : Unicode.isControl c.toNat = true) :
    (stringBody s q acc p).out = (complainNext s .rawControl (p + 1) : Step _ Text).out := by
  obtain ⟨h1, h2⟩ := Source.char_any hp h
  rw [stringBody]
  refine (Step.andThen_of_ok h1).1.trans ?_
  simp only [if_neg hcq, if_neg hcb, hcc, if_true]
  rw [h2]

theorem stringBody_escape (acc : Array CodePoint) {r : List Char} {cps : List CodePoint}
    (hp : -1 ≤ p) (h : s.after p = '\\' :: r) (hq : q ≠ '\\') (he : (escape s q (p + 1)).out = .ok cps) :
    (stringBody s q acc p).out =
        (stringBody s q (acc ++ cps.toArray) (escape s q (p + 1)).pos).out ∧
      (stringBody s q acc p).pos =
        (stringBody s q (acc ++ cps.toArray) (escape s q (p + 1)).pos).pos := by
  obtain ⟨h1, h2⟩ := Source.char_any hp h
  rw [stringBody]
  refine Step.andThen_ends_as h1 ?_
  rw [if_neg (Ne.symm hq), if_pos rfl, h2]
  exact Step.andThen_ends_as he ⟨rfl, rfl⟩

theorem stringBody_escape_error (acc : Array CodePoint) {r : List Char} {f : Failure}
    (hp : -1 ≤ p) (h : s.after p = '\\' :: r) (hq : q ≠ '\\') (he : (escape s q (p + 1)).out = .error f) :
    (stringBody s q acc p).out = .error f := by
  obtain ⟨h1, h2⟩ := Source.char_any hp h
  rw [stringBody]
  refine (Step.andThen_of_ok h1).1.trans ?_
  simp only [if_neg (Ne.symm hq), if_true]
  rw [h2]
  exact (Step.andThen_of_error he).1

theorem stringBody_end (acc : Array CodePoint) (hp : -1 ≤ p) (h : s.after p = []) :
    (stringBody s q acc p).out = .error (.mismatch ⟨p + 1, .expectedAtEnd (classLabel none)⟩) := by
  rw [stringBody]
  exact (Step.andThen_of_error (Source.char_end hp h none).1).1

/-- What one turn of an accepted string body did: close the string, keep a raw character, or
read an escape. -/
theorem stringBody_ok_cases {y : Text} (hp : -1 ≤ p) (h : (stringBody s q acc p).out = .ok y) :
    (s.after p = q :: s.after (p + 1) ∧ y = ⟨acc.toList⟩ ∧ (stringBody s q acc p).pos = p + 1) ∨
    (∃ c, s.after p = c :: s.after (p + 1) ∧ c ≠ q ∧ c ≠ '\\' ∧
      Unicode.isControl c.toNat = false ∧
      (stringBody s q (acc.push (.ofChar c)) (p + 1)).out = .ok y ∧
      (stringBody s q acc p).pos = (stringBody s q (acc.push (.ofChar c)) (p + 1)).pos) ∨
    (s.after p = '\\' :: s.after (p + 1) ∧ q ≠ '\\' ∧ ∃ cps,
      (escape s q (p + 1)).out = .ok cps ∧
      (stringBody s q (acc ++ cps.toArray) (escape s q (p + 1)).pos).out = .ok y ∧
      (stringBody s q acc p).pos = (stringBody s q (acc ++ cps.toArray) (escape s q (p + 1)).pos).pos) := by
  cases hx : s.after p with
  | nil =>
    rw [stringBody_end acc hp hx] at h
    cases h
  | cons c r =>
    have hr : s.after (p + 1) = r := (Source.after_cons hp hx).2.1
    rw [hr]
    by_cases hcq : c = q
    · subst hcq
      obtain ⟨o, ps⟩ := stringBody_close acc hp hx
      rw [o] at h
      exact .inl ⟨rfl, (Except.ok.inj h).symm, ps⟩
    by_cases hcb : c = '\\'
    · subst hcb
      have hq : q ≠ '\\' := Ne.symm hcq
      cases he : (escape s q (p + 1)).out with
      | error f =>
        rw [stringBody_escape_error acc hp hx hq he] at h
        cases h
      | ok cps =>
        obtain ⟨o, ps⟩ := stringBody_escape acc hp hx hq he
        exact .inr (.inr ⟨rfl, hq, cps, rfl, o ▸ h, ps⟩)
    cases hcc : Unicode.isControl c.toNat
    · obtain ⟨o, ps⟩ := stringBody_raw acc hp hx hcq hcb hcc
      exact .inr (.inl ⟨c, rfl, hcq, hcb, hcc, o ▸ h, ps⟩)
    · rw [stringBody_control acc hp hx hcq hcb hcc] at h
      exact absurd h complainNext_not_ok

/-! ## Whole strings -/

/-- A body of the grammar, then its delimiter, reads to the body's code points after those
already read. -/
theorem stringBody_of_body (hq : IsQuote q) {body : List Char} {x : List CodePoint}
    (h : StrBody q body x) :
    ∀ (acc : Array CodePoint) (p : Int) (r : List Char), -1 ≤ p → s.after p = body ++ q :: r →
      (stringBody s q acc p).out = .ok ⟨acc.toList ++ x⟩ ∧
        (stringBody s q acc p).pos = p + body.length + 1 := by
  induction h with
  | nil =>
    intro acc p r hp hb
    obtain ⟨o, ps⟩ := stringBody_close acc hp hb
    exact ⟨by rw [o, List.append_nil], by rw [ps]; simp⟩
  | @cons t u x y piece _ ih =>
    intro acc p r hp hbody
    -- one piece, then the rest of the body from where the piece ends
    cases piece with
    | @raw c hcq hcb hcc =>
      have hb' : s.after p = c :: (u ++ q :: r) := by simp [hbody]
      obtain ⟨o1, ps1⟩ := stringBody_raw acc hp hb' hcq hcb hcc
      obtain ⟨o, ps⟩ := ih (acc.push (.ofChar c)) (p + 1) r (by omega)
        (Source.after_cons hp hb').2.1
      rw [o1, ps1, o, ps]
      refine ⟨by simp, ?_⟩
      simp
      omega
    | @escape e cs he =>
      have hb' : s.after p = '\\' :: e :: (u ++ q :: r) := by simp [hbody]
      have r1 := (Source.after_cons hp hb').2.1
      have r2 := (Source.after_cons (by omega) r1).2.1
      obtain ⟨e1, e2⟩ := escape_simple (by omega) r1 (Escape.ne_u hq he)
        (simpleEscape_of_escape hq he)
      obtain ⟨o1, ps1⟩ := stringBody_escape acc hp hb' hq.ne_backslash e1
      obtain ⟨o, ps⟩ := ih (acc ++ (cs.map CodePoint.ofChar).toArray) (p + 1 + 1) r (by omega) r2
      rw [o1, ps1, e2, o, ps]
      refine ⟨by simp, ?_⟩
      simp
      omega
    | @unicode a b c d ha hb hc hd =>
      have hb' : s.after p = '\\' :: 'u' :: a :: b :: c :: d :: (u ++ q :: r) := by simp [hbody]
      have r1 := (Source.after_cons hp hb').2.1
      have r6 : s.after (p + 1 + 5) = u ++ q :: r := by
        simpa using Source.after_add (by omega)
          (show s.after (p + 1) = ['u', a, b, c, d] ++ (u ++ q :: r) from r1)
      obtain ⟨e1, e2⟩ := escape_unicode (q := q) (by omega) r1 ha hb hc hd
      obtain ⟨o1, ps1⟩ := stringBody_escape acc hp hb' hq.ne_backslash e1
      obtain ⟨o, ps⟩ := ih (acc ++ [hexCodePoint a b c d].toArray) (p + 1 + 5) r (by omega) r6
      rw [o1, ps1, e2, o, ps]
      refine ⟨by simp, ?_⟩
      simp
      omega

/-- An accepted string body is a body of the grammar followed by its delimiter. -/
theorem stringBody_sound {y : Text} (hp : -1 ≤ p) (h : (stringBody s q acc p).out = .ok y) :
    ∃ body x, StrBody q body x ∧ y = ⟨acc.toList ++ x⟩ ∧
      s.after p = body ++ q :: s.after (stringBody s q acc p).pos ∧
      (stringBody s q acc p).pos = p + body.length + 1 := by
  induction acc, p using stringBody.induct s q generalizing y with
  | case1 acc p x ihEsc =>
    rename_i ihRaw
    rcases stringBody_ok_cases hp h with ⟨hx, rfl, hpos⟩ | ⟨c, hx, hcq, hcb, hcc, hk, hpos⟩ |
      ⟨hx, hq, cps, he, hk, hpos⟩
    · refine ⟨[], [], .nil, by simp, ?_, by rw [hpos]; simp⟩
      rw [hpos]
      exact hx
    · -- a raw character, then the rest by the induction hypothesis
      obtain ⟨h1, h2⟩ := Source.char_any hp hx
      have hx' : x.pos = p + 1 := h2
      have ih := ihRaw c h1 (y := y)
      rw [hx'] at ih
      obtain ⟨body, x, hbody, rfl, hafter, hend⟩ := ih (by omega) hk
      refine ⟨c :: body, .ofChar c :: x, .cons (.raw hcq hcb hcc) hbody, by simp, ?_, ?_⟩
      · rw [hpos, hx, hafter]
        rfl
      · rw [hpos, hend]
        simp
        omega
    · -- an escape, then the rest by the induction hypothesis
      obtain ⟨h1, h2⟩ := Source.char_any hp hx
      have hx' : x.pos = p + 1 := h2
      have ih := ihEsc '\\' h1 cps (y := y)
      rw [hx'] at ih
      obtain ⟨t, hpiece, hafter1, hpos1⟩ := escape_sound (by omega) he
      obtain ⟨body, x, hbody, rfl, hafter, hend⟩ :=
        ih (by rw [hpos1]; omega) hk
      refine ⟨'\\' :: t ++ body, cps ++ x, .cons hpiece hbody, by simp, ?_, ?_⟩
      · rw [hpos, hx, hafter1, hafter]
        simp
      · rw [hpos, hend, hpos1]
        simp
        omega

theorem segments_quotes : segments "\"'".toList = .ok [.single '"', .single '\''] := rfl

/-- A quoted string of the grammar reads to its text. -/
theorem quotedString_of_text {t r : List Char} {x : Text} (hp : -1 ≤ p) (h : s.after p = t ++ r)
    (ht : QuotedText t x) :
    (quotedString s p).out = .ok x ∧ (quotedString s p).pos = p + t.length := by
  obtain ⟨q, body, hq, rfl, hbody⟩ := ht
  have hq' : IsQuote q := hq
  have hafter : s.after p = q :: (body ++ q :: r) := by simp [h]
  have hcls : classContains [.single '"', .single '\''] q = true := by
    rcases hq with rfl | rfl <;> rfl
  obtain ⟨h1, h2⟩ := Source.char_mem segments_quotes hp hafter hcls
  obtain ⟨o, ps⟩ := stringBody_of_body hq' hbody #[] (p + 1) r (by omega)
    (Source.after_cons hp hafter).2.1
  unfold quotedString
  refine Step.andThen_ends_as h1 ?_
  rw [h2, o, ps]
  exact ⟨by simp, by simp; omega⟩

/-- A quoted string that reads is a quoted string of the grammar, up to where reading stopped. -/
theorem quotedString_sound {x : Text} (hp : -1 ≤ p) (h : (quotedString s p).out = .ok x) :
    ∃ t, QuotedText t x ∧ s.after p = t ++ s.after (quotedString s p).pos ∧
      (quotedString s p).pos = p + t.length := by
  have h' : ((s.char (some "\"'") p).andThen fun quote _ =>
      stringBody s quote #[] (s.char (some "\"'") p).pos).out = .ok x := h
  obtain ⟨q, h1, hk, hpos⟩ := Step.andThen_ok h'
  have hpos : (quotedString s p).pos = (stringBody s q #[] (s.char (some "\"'") p).pos).pos := hpos
  obtain ⟨h1pos, hafter, hcls⟩ := Source.char_sound hp h1
  have hq : IsQuote q := by
    simpa [classContains, Segment.contains, IsQuote] using hcls _ _ rfl segments_quotes
  rw [h1pos] at hk hpos
  obtain ⟨body, y, hbody, rfl, hafter', hend⟩ := stringBody_sound (by omega) hk
  refine ⟨q :: (body ++ [q]), ⟨q, body, hq, rfl, hbody⟩, ?_, ?_⟩
  · rw [hpos, hafter, hafter']
    simp
  · rw [hpos, hend]
    simp
    omega

/-- Text that does not open with a quote is no quoted string. -/
theorem quotedString_fail (hp : -1 ≤ p) (hr : ∀ c ∈ (s.after p).head?, c ≠ '"' ∧ c ≠ '\'') :
    (quotedString s p).Mismatched := by
  obtain ⟨e, he, h0⟩ := Source.char_fail segments_quotes hp (fun c hc => by
    simpa [classContains, Segment.contains] using hr c hc)
  unfold quotedString
  exact ⟨e, (Step.andThen_of_error he).1, h0⟩

end LaxJson.Grammar
