import LaxJson.Proofs.Numbers
import LaxJson.Proofs.Strings
import LaxJson.Grammar.Document
/-!
# Reading primitive values

`primitiveType` tries `null`, a boolean, a quoted string and a number, in that order. On the text
of each primitive the alternatives before the right one fail with syntax errors, since each of
them looks at the first character only (`keyword_fail`, `quotedString_fail`, `number_fail`),
and the right one reads the text and the whole gap after it: `primitiveType_null`,
`primitiveType_boolean`, `primitiveType_text`, `primitiveType_number`. Conversely whatever the
rule reads is one of these texts (`primitiveType_sound`).
-/

set_option autoImplicit false
namespace LaxJson.Grammar

variable {s : Source} {p : Int}

/-! ## Keywords -/

/-- No keyword is found at the head of text that starts with a character no keyword starts
with. -/
theorem find_keyword_none {l : List String} {c : Char} {r : List Char}
    (h : ∀ k ∈ l, k.toList ≠ [] ∧ k.toList.head? ≠ some c) :
    l.find? (fun k => (c :: r).take k.toList.length == k.toList) = none := by
  rw [List.find?_eq_none]
  intro k hk
  obtain ⟨hne, hc⟩ := h k hk
  obtain ⟨d, ds, hd⟩ := List.exists_cons_of_ne_nil hne
  rw [hd] at hc ⊢
  have hdc : c ≠ d := fun h => hc (by rw [h]; rfl)
  simp [hdc]

/-- On solid text that starts with a character no keyword starts with, the keyword scan fails
with a syntax error one past the cursor, and stays where it was. -/
theorem keyword_fail (hs : s.dialect = .json) {l : List String} {c : Char} {r : List Char}
    (hp : -1 ≤ p) (h : s.after p = c :: r) (hsol : Solid (c :: r))
    (hk : ∀ k ∈ l, k.toList ≠ [] ∧ k.toList.head? ≠ some c) :
    ∃ e, (s.keyword l p).out = .error (.mismatch e) ∧ e.pos = p + 1 ∧
      (s.keyword l p).pos = p := by
  obtain ⟨e, he, hepos, hpos⟩ := Source.keyword_missing hs (w := []) hp h (.inl ⟨.nil, hsol⟩)
    (find_keyword_none hk)
  exact ⟨e, he, by simpa using hepos, by simpa using hpos⟩

/-- The text of a keyword and a whole gap: the keyword scan reads both. -/
theorem keyword_first (hs : s.dialect = .json) {k : String} {l : List String} {g r : List Char}
    (hp : -1 ≤ p) (h : s.after p = k.toList ++ g ++ r) (hk : k.toList ≠ [])
    (hsol : Solid (k.toList ++ g ++ r)) (hg : Trail g r)
    (hfind : l.find? (fun k' => (k.toList ++ g ++ r).take k'.toList.length == k'.toList) =
      some k) :
    (s.keyword l p).out = .ok k ∧ (s.keyword l p).pos = p + k.toList.length + g.length := by
  obtain ⟨h1, h2⟩ := Source.keyword_of_text hs (w := []) hp (by simpa using h) (.inl ⟨.nil, hsol⟩)
    hg hk hfind
  exact ⟨h1, by simpa using h2⟩

/-- From solid text, what the keyword scan reads is one of its keywords and the whole gap after
it. -/
theorem keyword_sound_solid (hs : s.dialect = .json) {l : List String} {k : String} (hp : -1 ≤ p)
    (hsol : Solid (s.after p)) (h : (s.keyword l p).out = .ok k) :
    k ∈ l ∧ ∃ g, s.after p = k.toList ++ g ++ s.after (s.keyword l p).pos ∧
      Trail g (s.after (s.keyword l p).pos) ∧
      (s.keyword l p).pos = p + k.toList.length + g.length := by
  obtain ⟨hk, w, g, hsplit, hw, hg, hpos⟩ := Source.keyword_sound hs hp h
  obtain rfl : w = [] := hw.eq_nil_of_solid (by rw [← List.append_assoc, ← List.append_assoc, ← hsplit]; exact hsol)
  exact ⟨hk, g, by simpa using hsplit, hg, by simpa using hpos⟩

theorem null_of_text (hs : s.dialect = .json) {g r : List Char} (hp : -1 ≤ p)
    (h : s.after p = "null".toList ++ g ++ r) (hg : Trail g r) :
    (null s p).out = .ok (.ofString "null") ∧ (null s p).pos = p + 4 + g.length := by
  obtain ⟨h1, h2⟩ := keyword_first hs (l := ["null"]) hp h (by decide)
    (Solid.cons (by decide) (by decide)) hg (by simp)
  unfold null
  exact Scan.bind_ends_as h1 h2 ⟨rfl, rfl⟩

theorem boolean_of_text (hs : s.dialect = .json) {k : String} (hk : k = "true" ∨ k = "false")
    {g r : List Char} (hp : -1 ≤ p) (h : s.after p = k.toList ++ g ++ r) (hg : Trail g r) :
    (boolean s p).out = .ok (.bool (k == "true")) ∧
      (boolean s p).pos = p + k.toList.length + g.length := by
  have hfind : ["true", "false"].find?
      (fun k' => (k.toList ++ g ++ r).take k'.toList.length == k'.toList) = some k := by
    rcases hk with rfl | rfl <;> simp
  obtain ⟨h1, h2⟩ := keyword_first hs hp h (by rcases hk with rfl | rfl <;> decide)
    (by rcases hk with rfl | rfl <;> exact Solid.cons (by decide) (by decide)) hg hfind
  unfold boolean
  refine Scan.bind_ends_as h1 h2 ⟨?_, rfl⟩
  rcases hk with rfl | rfl <;> rfl

/-! ## Integers and numbers that do not start -/

/-- Where neither a minus sign nor a digit follows the gap, no integer form applies. -/
theorem integer_fail (hs : s.dialect = .json) (hp : -1 ≤ p) (hl : 1 ≤ s.last)
    (hr : ∀ c ∈ (s.after (s.skipBlank p).pos).head?, c ≠ '-' ∧ c.isDigit = false) :
    (integer s p).Mismatched := by
  have hq := Int.le_trans hp (s.skipBlank p).le
  -- the forms look at the text from where the gap ends, and skip no more blanks there
  have hidem := Source.skipBlank_idem hs hp
  have hnd : NoDigit (s.after (s.skipBlank (s.skipBlank p).pos).pos) := by
    rw [hidem]
    exact fun c hc => (hr c hc).2
  have hsign : ∀ c ∈ (s.after (s.skipBlank p).pos).head?, c ≠ '-' := fun c hc => (hr c hc).1
  have h1 := negManyDigits_fail_sign hq hsign
  have h2 := negOneDigit_fail hq hsign
  have h3 := manyDigits_fail_head hs hq (fun c hc h19 =>
    absurd (isDigit_of_onenine h19) (by rw [hnd c hc]; decide))
  have h4 := oneDigit_fail hs hq hnd
  obtain ⟨e0, he0, hpos0⟩ := h1
  obtain ⟨e, he, -, hpos, -⟩ := Source.choiceAt_fail (s := s) (r := .negManyDigits)
    (a := fun q _ => negManyDigits s q)
    (m := [(.negOneDigit, fun q _ => negOneDigit s q), (.manyDigits, fun q _ => manyDigits s q),
      (.oneDigit, fun q _ => oneDigit s q)]) hp (by omega) ⟨e0, he0, hpos0⟩ (by
      intro ra hra
      simp only [List.mem_cons, List.mem_nil_iff, or_false] at hra
      rcases hra with rfl | rfl | rfl
      · exact ⟨_, h2.choose_spec.1⟩
      · exact ⟨_, h3.choose_spec.1⟩
      · exact ⟨_, h4.choose_spec.1⟩)
  rw [integer_eq]
  exact Scan.bind_mismatched ⟨e, he, hpos (.inl hl)⟩

theorem number_fail (hs : s.dialect = .json) (hp : -1 ≤ p) (hl : 1 ≤ s.last)
    (hr : ∀ c ∈ (s.after (s.skipBlank p).pos).head?, c ≠ '-' ∧ c.isDigit = false) :
    (number s p).Mismatched := by
  have hq := Int.le_trans hp (s.skipBlank p).le
  have hint := integer_fail hs hq hl (by rw [Source.skipBlank_idem hs hp]; exact hr)
  unfold number
  exact Scan.bind_mismatched (Source.choice_one_of_mismatched (r := .integer) hp hint).1

/-- A number literal starts with a minus sign or a digit. -/
theorem numLit_chars_head {n : NumLit} (hn : n.Valid) :
    ∃ c cs, n.chars = c :: cs ∧ (c = '-' ∨ c.isDigit = true) := by
  unfold NumLit.chars NumLit.wholeChars
  cases n.negative
  · obtain ⟨d, ds, hd, hdig⟩ : ∃ d ds, n.whole = d :: ds ∧ d.isDigit = true := by
      rcases hn.whole with h | ⟨d, ds, h, h1, h9, -⟩
      · exact ⟨'0', [], h, rfl⟩
      · exact ⟨d, ds, h, isDigit_of_onenine ⟨h1, h9⟩⟩
    exact ⟨d, _, by rw [hd]; rfl, .inr hdig⟩
  · exact ⟨'-', _, rfl, .inl rfl⟩

/-! ## The primitive choice -/

theorem primitiveType_eq : primitiveType s p = s.choiceAt p
    [(.null, fun q _ => null s q), (.boolean, fun q _ => boolean s q),
      (.quotedString, fun q _ => (Value.text <$> quotedString s) q),
      (.number, fun q _ => (Value.number <$> number s) q)] := rfl

/-- Where the gap is followed by a character that starts no primitive, the primitive choice
fails with a syntax error. -/
theorem primitiveType_fail (hs : s.dialect = .json) (hp : -1 ≤ p) (hl : 1 ≤ s.last) {c : Char}
    {r : List Char} (h : s.after (s.skipBlank p).pos = c :: r)
    (hc : c ≠ 'n' ∧ c ≠ 't' ∧ c ≠ 'f' ∧ c ≠ '"' ∧ c ≠ '\'' ∧ c ≠ '-' ∧ c.isDigit = false) :
    ∃ e, (primitiveType s p).out = .error (.mismatch e) := by
  obtain ⟨hn, ht, hf, hq1, hq2, hm, hd⟩ := hc
  have hq := Int.le_trans hp (s.skipBlank p).le
  have hsol : Solid (c :: r) := by rw [← h]; exact Source.solid_skipBlank hs hp
  obtain ⟨e1, he1, he1pos⟩ := keyword_fail hs (l := ["null"]) hq h hsol (by simp [Ne.symm hn])
  obtain ⟨e2, he2, -⟩ := keyword_fail hs (l := ["true", "false"]) hq h hsol
    (by simp [Ne.symm ht, Ne.symm hf])
  obtain ⟨e3, he3, -⟩ := quotedString_fail hq (by rw [h]; simpa using ⟨hq1, hq2⟩)
  obtain ⟨e4, he4, -⟩ := number_fail hs hq hl
    (by rw [Source.skipBlank_idem hs hp, h]; simpa using ⟨hm, hd⟩)
  rw [primitiveType_eq]
  obtain ⟨e, he, -⟩ := Source.choiceAt_fail (s := s) (r := .null) (a := fun q _ => null s q)
    (m := [(.boolean, fun q _ => boolean s q),
      (.quotedString, fun q _ => (Value.text <$> quotedString s) q),
      (.number, fun q _ => (Value.number <$> number s) q)]) hp (by omega)
    ⟨e1, (Scan.bind_of_error he1 : (null s _).out = _), by omega⟩
    (by
      intro ra hra
      simp only [List.mem_cons, List.mem_nil_iff, or_false] at hra
      rcases hra with rfl | rfl | rfl
      · exact ⟨e2, (Scan.bind_of_error he2 : (boolean s _).out = _)⟩
      · exact ⟨e3, (Scan.map_of_error he3).1⟩
      · exact ⟨e4, (Scan.map_of_error he4).1⟩)
  exact ⟨e, he⟩

section Complete

variable (hs : s.dialect = .json) {g r : List Char} (hp : -1 ≤ p)
include hs hp

theorem primitiveType_null (h : s.after p = "null".toList ++ g ++ r) (hg : Trail g r) :
    (primitiveType s p).out = .ok (.ofString "null") ∧
      (primitiveType s p).pos = p + 4 + g.length := by
  have hq : (s.skipBlank p).pos = p :=
    Source.skipBlank_of_solid hs hp (by rw [h]; exact Solid.cons (by decide) (by decide))
  obtain ⟨h1, h2⟩ := null_of_text hs (p := (s.skipBlank p).pos) (by omega) (by rw [hq]; exact h) hg
  have he : s.after ((s.skipBlank p).pos + 4 + g.length) = r := by
    rw [hq]
    exact Source.after_add_append hp h
  rw [primitiveType_eq]
  refine Source.choiceAt_ends_as hp ?_
  obtain ⟨o, ps⟩ := Source.tryAlts_of_ok_at (r := .null) (a := fun q _ => null s q)
    (m := [(.boolean, fun q _ => boolean s q),
      (.quotedString, fun q _ => (Value.text <$> quotedString s) q),
      (.number, fun q _ => (Value.number <$> number s) q)]) (σ := .start) (by omega) ⟨h1, h2⟩
    (Source.skipBlank_of_solid hs (by omega) (he ▸ hg.solid))
  exact ⟨o, by rw [ps, hq]⟩

theorem primitiveType_boolean {k : String} (hk : k = "true" ∨ k = "false")
    (h : s.after p = k.toList ++ g ++ r) (hg : Trail g r) :
    (primitiveType s p).out = .ok (.bool (k == "true")) ∧
      (primitiveType s p).pos = p + k.toList.length + g.length := by
  have hhead : ∃ c t, k.toList = c :: t ∧ (c = 't' ∨ c = 'f') := by
    rcases hk with rfl | rfl
    · exact ⟨'t', _, rfl, .inl rfl⟩
    · exact ⟨'f', _, rfl, .inr rfl⟩
  obtain ⟨c, t, hct, hc⟩ := hhead
  have hsol : Solid (k.toList ++ g ++ r) := by
    rw [hct]
    rcases hc with rfl | rfl <;> exact Solid.cons (by decide) (by decide)
  have hq : (s.skipBlank p).pos = p := Source.skipBlank_of_solid hs hp (by rw [h]; exact hsol)
  have hafter : s.after (s.skipBlank p).pos = c :: (t ++ g ++ r) := by rw [hq, h, hct]; rfl
  obtain ⟨e, he0, -⟩ := keyword_fail hs (l := ["null"]) (by omega) hafter
    (by rw [← hafter, hq, h]; exact hsol) (by rcases hc with rfl | rfl <;> decide)
  obtain ⟨h1, h2⟩ := boolean_of_text hs hk (p := (s.skipBlank p).pos) (by omega)
    (by rw [hq]; exact h) hg
  have he : s.after ((s.skipBlank p).pos + k.toList.length + g.length) = r := by
    rw [hq]
    exact Source.after_add_append hp h
  rw [primitiveType_eq]
  obtain ⟨σ, hout, hpos⟩ := Source.choiceAt_pass (s := s)
    [(.null, fun q _ => null s q)]
    [(.boolean, fun q _ => boolean s q),
      (.quotedString, fun q _ => (Value.text <$> quotedString s) q),
      (.number, fun q _ => (Value.number <$> number s) q)] hp
    (by
      intro ra hra
      simp only [List.mem_singleton] at hra
      subst hra
      exact ⟨e, (Scan.bind_of_error he0 : (null s _).out = _)⟩)
  obtain ⟨o, ps⟩ := Source.tryAlts_of_ok_at (σ := σ) (r := .boolean) (a := fun q _ => boolean s q)
    (m := [(.quotedString, fun q _ => (Value.text <$> quotedString s) q),
      (.number, fun q _ => (Value.number <$> number s) q)]) (by omega) ⟨h1, h2⟩
    (Source.skipBlank_of_solid hs (by omega) (he ▸ hg.solid))
  exact ⟨hout.trans o, hpos.trans (ps.trans (by rw [hq]))⟩

theorem primitiveType_text {t : List Char} {x : Text} (ht : QuotedText t x)
    (h : s.after p = t ++ g ++ r) (hg : Trail g r) :
    (primitiveType s p).out = .ok (.text x) ∧ (primitiveType s p).pos = p + t.length + g.length := by
  obtain ⟨c, body, hc, rfl, hbody⟩ := ht
  have hsol : Solid (c :: (body ++ [c]) ++ g ++ r) := by
    rcases hc with rfl | rfl <;> exact Solid.cons (by decide) (by decide)
  have hq : (s.skipBlank p).pos = p := Source.skipBlank_of_solid hs hp (by rw [h]; exact hsol)
  have hafter : s.after (s.skipBlank p).pos = c :: (body ++ [c] ++ g ++ r) := by
    rw [hq, h]; simp
  -- no keyword starts with a quote
  have hkw : ∀ l : List String, (∀ k ∈ l, k.toList ≠ [] ∧ k.toList.head? ≠ some c) →
      ∃ e, (s.keyword l (s.skipBlank p).pos).out = .error (.mismatch e) := fun l hl => by
    obtain ⟨e, he, -⟩ := keyword_fail hs (by omega) hafter (by rw [← hafter, hq, h]; exact hsol) hl
    exact ⟨e, he⟩
  obtain ⟨e1, he1⟩ := hkw ["null"] (by rcases hc with rfl | rfl <;> decide)
  obtain ⟨e2, he2⟩ := hkw ["true", "false"] (by rcases hc with rfl | rfl <;> decide)
  obtain ⟨h1, h2⟩ := quotedString_of_text (p := (s.skipBlank p).pos) (by omega)
    (by rw [hq, h, List.append_assoc]) ⟨c, body, hc, rfl, hbody⟩
  obtain ⟨m1, m2⟩ := Scan.map_of_ok (f := Value.text) h1
  have hgap : s.after ((s.skipBlank p).pos + (c :: (body ++ [c])).length) = g ++ r := by
    rw [hq]
    exact Source.after_add hp (by rw [h, List.append_assoc])
  obtain ⟨-, hskip⟩ := Source.skipBlank_of_trail hs (by omega) hgap hg
  rw [primitiveType_eq]
  obtain ⟨σ, hout, hpos⟩ := Source.choiceAt_pass (s := s)
    [(.null, fun q _ => null s q), (.boolean, fun q _ => boolean s q)]
    [(.quotedString, fun q _ => (Value.text <$> quotedString s) q),
      (.number, fun q _ => (Value.number <$> number s) q)] hp
    (by
      intro ra hra
      simp only [List.mem_cons, List.mem_nil_iff, or_false] at hra
      rcases hra with rfl | rfl
      · exact ⟨e1, (Scan.bind_of_error he1 : (null s _).out = _)⟩
      · exact ⟨e2, (Scan.bind_of_error he2 : (boolean s _).out = _)⟩)
  obtain ⟨o, ps⟩ := Source.tryAlts_of_ok (σ := σ) (r := .quotedString)
    (a := fun q _ => (Value.text <$> quotedString s) q)
    (m := [(.number, fun q _ => (Value.number <$> number s) q)]) m1 (by omega)
  refine ⟨hout.trans o, hpos.trans (ps.trans ?_)⟩
  rw [m2, h2, hskip, hq]

theorem primitiveType_number {n : NumLit} {t : List Char} (hn : n.Valid) (ht : Spaced n.chars t)
    (h : s.after p = t ++ g ++ r) (hg : Trail g r) (hr : NumberFollow r) :
    (primitiveType s p).Gives (Value.number <$> n.eval) (p + t.length + g.length) := by
  obtain ⟨c, cs, hcs, hc⟩ := numLit_chars_head hn
  obtain ⟨t', rfl⟩ : ∃ t', t = c :: t' := by
    rw [hcs] at ht
    cases ht with
    | one => exact ⟨[], rfl⟩
    | cons _ _ _ => exact ⟨_, rfl⟩
  have hcb : isBlank c = false ∧ c ≠ '#' := by
    rcases hc with rfl | hc
    · exact ⟨by decide, by decide⟩
    · exact ⟨isBlank_of_isDigit hc, fun h => by rw [h] at hc; cases hc⟩
  have hsol : Solid (c :: t' ++ g ++ r) := Solid.cons hcb.1 hcb.2
  have hq : (s.skipBlank p).pos = p := Source.skipBlank_of_solid hs hp (by rw [h]; exact hsol)
  have hafter : s.after (s.skipBlank p).pos = c :: (t' ++ g ++ r) := by
    rw [hq, h]; simp
  -- a number starts with neither a keyword's letter nor a quote
  have hnq : c ≠ 'n' ∧ c ≠ 't' ∧ c ≠ 'f' ∧ c ≠ '"' ∧ c ≠ '\'' := by
    rcases hc with rfl | hc
    · decide
    · refine ⟨?_, ?_, ?_, ?_, ?_⟩ <;> rintro rfl <;> cases hc
  have hkw : ∀ l : List String, (∀ k ∈ l, k.toList ≠ [] ∧ k.toList.head? ≠ some c) →
      ∃ e, (s.keyword l (s.skipBlank p).pos).out = .error (.mismatch e) := fun l hl => by
    obtain ⟨e, he, -⟩ := keyword_fail hs (by omega) hafter (by rw [← hafter, hq, h]; exact hsol) hl
    exact ⟨e, he⟩
  obtain ⟨e1, he1⟩ := hkw ["null"] (by simp [Ne.symm hnq.1])
  obtain ⟨e2, he2⟩ := hkw ["true", "false"] (by simp [Ne.symm hnq.2.1, Ne.symm hnq.2.2.1])
  obtain ⟨e3, he3, -⟩ := quotedString_fail (p := (s.skipBlank p).pos) (by omega)
    (by rw [hafter]; simpa using ⟨hnq.2.2.2.1, hnq.2.2.2.2⟩)
  have hrun : s.RunTo (s.skipBlank p).pos n.chars ((s.skipBlank p).pos + (c :: t').length + g.length) r :=
    ⟨c :: t', g, by rw [hq, h], hcs ▸ ht.spread, hg, rfl⟩
  obtain ⟨o1, p1⟩ := number_of_runTo hs (by omega) hn hrun hr
  rw [primitiveType_eq]
  obtain ⟨σ, hout, hpos⟩ := Source.choiceAt_pass (s := s)
    [(.null, fun q _ => null s q), (.boolean, fun q _ => boolean s q),
      (.quotedString, fun q _ => (Value.text <$> quotedString s) q)]
    [(.number, fun q _ => (Value.number <$> number s) q)] hp
    (by
      intro ra hra
      simp only [List.mem_cons, List.mem_nil_iff, or_false] at hra
      rcases hra with rfl | rfl | rfl
      · exact ⟨e1, (Scan.bind_of_error he1 : (null s _).out = _)⟩
      · exact ⟨e2, (Scan.bind_of_error he2 : (boolean s _).out = _)⟩
      · exact ⟨e3, (Scan.map_of_error he3).1⟩)
  cases hev : n.eval with
  | error f =>
    rw [hev] at o1
    obtain ⟨m1, -⟩ := Scan.map_of_error (f := Value.number) o1
    obtain ⟨o, -⟩ := Source.tryAlts_of_fault (σ := σ) (r := .number)
      (a := fun q _ => (Value.number <$> number s) q) (m := []) m1
    exact ⟨hout.trans o, fun v hv => by cases hv⟩
  | ok v =>
    rw [hev] at o1
    obtain ⟨m1, m2⟩ := Scan.map_of_ok (f := Value.number) o1
    have he : s.after ((s.skipBlank p).pos + (c :: t').length + g.length) = r := by
      rw [hq]
      exact Source.after_add_append hp h
    obtain ⟨o, ps⟩ := Source.tryAlts_of_ok_at (σ := σ) (r := .number)
      (a := fun q _ => (Value.number <$> number s) q) (m := []) (by omega)
      ⟨m1, m2.trans (p1 v hev)⟩ (Source.skipBlank_of_solid hs (by omega) (he ▸ hg.solid))
    exact ⟨hout.trans o, fun _ _ => hpos.trans (ps.trans (by rw [hq]))⟩

end Complete

/-- What the primitive choice reads, after the gap it skips first, is the text of a primitive and
the whole gap after it. -/
theorem primitiveType_sound (hs : s.dialect = .json) (hp : -1 ≤ p) {v : Value}
    (h : (primitiveType s p).out = .ok v) :
    ∃ t g d, s.after (s.skipBlank p).pos = t ++ g ++ s.after (primitiveType s p).pos ∧
      ValueText t d ∧ Trail g (s.after (primitiveType s p).pos) ∧ d.eval = .ok v := by
  have hq := Int.le_trans hp (s.skipBlank p).le
  have hsol := Source.solid_skipBlank hs hp
  rw [primitiveType_eq] at h ⊢
  obtain ⟨ra, hmem, hra, hpos⟩ := Source.choiceAt_sound hp h
  rw [hpos]
  simp only [List.mem_cons, List.mem_nil_iff, or_false] at hmem
  rcases hmem with rfl | rfl | rfl | rfl
  · -- the keyword null
    obtain ⟨k, hk, hv, hkpos⟩ := Scan.bind_ok hra
    obtain ⟨hmem, g, hsplit, hg, -⟩ := keyword_sound_solid hs hq hsol hk
    simp only [List.mem_singleton] at hmem
    subst hmem
    have hend : (null s (s.skipBlank p).pos).pos = (s.keyword ["null"] (s.skipBlank p).pos).pos :=
      hkpos
    rw [hend, Source.skipBlank_of_solid hs (Int.le_trans hq (s.keyword _ _).le) hg.solid]
    exact ⟨_, g, _, hsplit, .null, hg, (Except.ok.inj hv).symm ▸ rfl⟩
  · -- a boolean keyword
    obtain ⟨k, hk, hv, hkpos⟩ := Scan.bind_ok hra
    obtain ⟨hmem, g, hsplit, hg, -⟩ := keyword_sound_solid hs hq hsol hk
    have hend : (boolean s (s.skipBlank p).pos).pos =
        (s.keyword ["true", "false"] (s.skipBlank p).pos).pos := hkpos
    rw [hend, Source.skipBlank_of_solid hs (Int.le_trans hq (s.keyword _ _).le) hg.solid]
    simp only [List.mem_cons, List.mem_nil_iff, or_false] at hmem
    rcases hmem with rfl | rfl
    · exact ⟨_, g, _, hsplit, .true, hg, (Except.ok.inj hv).symm ▸ rfl⟩
    · exact ⟨_, g, _, hsplit, .false, hg, (Except.ok.inj hv).symm ▸ rfl⟩
  · -- a quoted string, then the gap the choice skips
    obtain ⟨x, hx, rfl, hmpos⟩ := Scan.map_ok hra
    obtain ⟨t, ht, hsplit, -⟩ := quotedString_sound hq hx
    have hq' := Int.le_trans hq (quotedString s (s.skipBlank p).pos).le
    obtain ⟨-, g, hg1, hg, -⟩ := Source.skipBlank_trail hs hq'
    rw [hmpos]
    refine ⟨t, g, _, ?_, .text ht, hg, rfl⟩
    rw [hsplit, hg1, List.append_assoc]
  · -- a number, whose run ends with the gap after it
    obtain ⟨y, hy, rfl, hmpos⟩ := Scan.map_ok hra
    obtain ⟨n, hn, hev, hrun⟩ := number_sound hs hq hy
    obtain ⟨c, cs, hcs, -⟩ := numLit_chars_head hn
    rw [hcs] at hrun
    obtain ⟨t, g, hsplit, ht, hg, -⟩ := hrun.spaced hq hsol
    rw [hmpos, Source.skipBlank_of_solid hs (Int.le_trans hq (number s _).le) hg.solid]
    refine ⟨t, g, _, hsplit, .number hn (hcs ▸ ht), hg, ?_⟩
    rw [Doc.eval, hev]
    rfl


end LaxJson.Grammar
