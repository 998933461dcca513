import LaxJson.Proofs.Tokens
import LaxJson.Grammar.Number
/-!
# Reading number literals

Every number rule is reached through a choice, which skips blanks before the rule and after it,
so what the rules consume together is a run of characters each after a gap of its own (`Spread`),
then the whole gap after the last (`Source.RunTo`). The digit loop takes the longest such run of
digits (`moreDigits_of_runTo`); every text starts with one (`exists_digitRun`), so the loop
always succeeds and the text alone fixes what it returns (`moreDigits_spec`).

An integer is tried in four forms, longest first. On the integer part of a literal followed by
anything but a digit, the forms before the right one fail with syntax errors and the right one
succeeds (`integer_of_runTo`). The fraction and the exponent are optional, so the number rule
reads exactly a literal of the grammar and evaluates it as `NumLit.eval` does
(`number_of_runTo`), and whatever it reads is such a literal (`number_sound`).
-/

set_option autoImplicit false
namespace LaxJson

/-! ## Runs spread over gaps -/

/-- `Spread cs t`: `t` is the characters `cs`, in order, each after a gap of its own. -/
inductive Spread : List Char → List Char → Prop
  | nil : Spread [] []
  | cons {c : Char} {w cs t : List Char} : Gap w → Spread cs t → Spread (c :: cs) (w ++ c :: t)

namespace Spread

theorem append {a b ta tb : List Char} (ha : Spread a ta) (hb : Spread b tb) :
    Spread (a ++ b) (ta ++ tb) := by
  induction ha with
  | nil => exact hb
  | cons hw _ ih => simpa using cons hw ih

theorem of_append {a b t : List Char} (h : Spread (a ++ b) t) :
    ∃ ta tb, t = ta ++ tb ∧ Spread a ta ∧ Spread b tb := by
  induction a generalizing t with
  | nil => exact ⟨[], t, rfl, .nil, h⟩
  | cons c a ih =>
    cases h with
    | @cons _ w _ t0 hw ht =>
      obtain ⟨ta, tb, rfl, ha, hb⟩ := ih ht
      exact ⟨w ++ c :: ta, tb, by simp, .cons hw ha, hb⟩

/-- A wider gap before the first character. -/
theorem gap_append {c : Char} {cs t w : List Char} (hw : Gap w) (h : Spread (c :: cs) t) :
    Spread (c :: cs) (w ++ t) := by
  cases h with
  | cons hw' ht => simpa using cons (hw.append hw') ht

/-- A run with no gap before its first character is the run of the grammar's numbers. -/
theorem spaced {c : Char} {cs t : List Char} (h : Spread cs t) : Spaced (c :: cs) (c :: t) := by
  induction h generalizing c with
  | nil => exact .one c
  | cons hw _ ih => exact .cons c hw ih

end Spread

theorem Spaced.spread {cs t : List Char} (h : Spaced cs t) : Spread cs t := by
  induction h with
  | one c => exact .cons .nil .nil
  | @cons c w cs t hw ht ih =>
    cases ht with
    | one c' => exact .cons .nil (ih.gap_append hw)
    | cons c' _ _ => exact .cons .nil (ih.gap_append hw)

/-- A run spread over gaps, then a whole gap, then another run: the gap in between becomes the
gap before the second run's first character, or the whole gap when that run is empty. -/
theorem Trail.spread_append {g t g' r cs : List Char} (hg : Trail g (t ++ g' ++ r))
    (ht : Spread cs t) (hg' : Trail g' r) :
    ∃ t'' g'', g ++ t ++ g' = t'' ++ g'' ∧ Spread cs t'' ∧ Trail g'' r := by
  cases ht with
  | nil =>
    obtain rfl : g' = [] := hg.eq_nil hg'
    exact ⟨[], g, by simp, .nil, by simpa using hg⟩
  | @cons c w cs' t0 hw ht =>
    refine ⟨g ++ w ++ c :: t0, g', by simp, ?_, hg'⟩
    simpa using (Spread.cons hw ht).gap_append (hg.gap (by simp))

/-! ## Digits -/

/-- Text that does not start with a digit. -/
def NoDigit (r : List Char) : Prop := ∀ c ∈ r.head?, c.isDigit = false

theorem char_le_iff {a b : Char} : a ≤ b ↔ a.toNat ≤ b.toNat := UInt32.le_iff_toNat_le

theorem isDigit_iff (c : Char) : c.isDigit = true ↔ c = '0' ∨ ('1' ≤ c ∧ c ≤ '9') := by
  rw [Char.isDigit_iff_toNat, char_le_iff, char_le_iff, ← Char.toNat_inj]
  have h0 : '0'.toNat = 48 := rfl
  have h1 : '1'.toNat = 49 := rfl
  have h9 : '9'.toNat = 57 := rfl
  omega

theorem isBlank_of_isDigit {c : Char} (hc : c.isDigit = true) : isBlank c = false := by
  rw [Char.isDigit_iff_toNat] at hc
  simp only [isBlank, Bool.or_eq_false_iff, beq_eq_false_iff_ne]
  refine ⟨⟨⟨⟨⟨?_, ?_⟩, ?_⟩, ?_⟩, ?_⟩, ?_⟩ <;> rintro rfl <;> simp at hc

/-- Text that starts with a digit is solid. -/
theorem Solid.digit {c : Char} {r : List Char} (hc : c.isDigit = true) : Solid (c :: r) := by
  refine Solid.cons (isBlank_of_isDigit hc) ?_
  rintro rfl
  exact absurd hc (by decide)

/-- Every text starts with a longest run of digits spread over gaps, then a whole gap. -/
theorem exists_digitRun : (l : List Char) → ∃ ds t g r, l = t ++ g ++ r ∧ Spread ds t ∧
    (∀ c ∈ ds, c.isDigit = true) ∧ Trail g r ∧ NoDigit r
  | l => by
    obtain ⟨w, r, rfl, hw⟩ := exists_trail l
    cases r with
    | nil => exact ⟨[], [], w, [], by simp, .nil, by simp, hw, by simp [NoDigit]⟩
    | cons c r =>
      by_cases hc : c.isDigit = true
      · have : r.length < (w ++ c :: r).length := by simp; omega
        obtain ⟨ds, t, g, r', rfl, ht, hd, hg, hr⟩ := exists_digitRun r
        refine ⟨c :: ds, w ++ c :: t, g, r', by simp, .cons (hw.gap (by simp)) ht, ?_, hg, hr⟩
        intro c' hc'
        rcases List.mem_cons.1 hc' with rfl | hc'
        · exact hc
        · exact hd c' hc'
      · refine ⟨[], [], w, c :: r, by simp, .nil, by simp, hw, ?_⟩
        intro c' hc'
        simp only [List.head?_cons, Option.mem_def, Option.some.injEq] at hc'
        subst hc'
        simpa using hc
termination_by l => l.length

/-! ## Runs ahead of a cursor -/

/-- None of the characters is a blank or a `#`, so no gap runs into any of them. -/
def SolidChars (cs : List Char) : Prop := ∀ c ∈ cs, isBlank c = false ∧ c ≠ '#'

theorem SolidChars.tail {c : Char} {cs : List Char} (h : SolidChars (c :: cs)) : SolidChars cs :=
  fun c' hc' => h c' (List.mem_cons_of_mem c hc')

theorem SolidChars.of_digits {ds : List Char} (h : ∀ c ∈ ds, c.isDigit = true) : SolidChars ds :=
  fun c hc => Solid.digit (r := []) (h c hc) c rfl

namespace Source

variable {s : Source} {p : Int}

/-- Ahead of cursor `p` lie the characters `cs`, each after a gap, then a whole gap that ends at
cursor `e`, then the text `r`. -/
def RunTo (s : Source) (p : Int) (cs : List Char) (e : Int) (r : List Char) : Prop :=
  ∃ t g, s.after p = t ++ g ++ r ∧ Spread cs t ∧ Trail g r ∧ p + t.length + g.length = e

namespace RunTo

variable {cs : List Char} {e : Int} {r : List Char}

theorem le (h : s.RunTo p cs e r) : p ≤ e := by
  obtain ⟨t, g, -, -, -, rfl⟩ := h
  omega

theorem solid (h : s.RunTo p cs e r) : Solid r := by
  obtain ⟨t, g, -, -, hg, -⟩ := h
  exact hg.solid

theorem after_end (hp : -1 ≤ p) (h : s.RunTo p cs e r) : s.after e = r := by
  obtain ⟨t, g, h, -, -, rfl⟩ := h
  have := after_add hp (t := t ++ g) (r := r) (by simpa using h)
  rw [← this]
  congr 1
  simp only [List.length_append]
  omega

/-- The gap the skipper passes is an empty run. -/
theorem gap (hs : s.dialect = .json) (hp : -1 ≤ p) :
    s.RunTo p [] (s.skipBlank p).pos (s.after (s.skipBlank p).pos) := by
  obtain ⟨-, w, hsplit, hw, hpos⟩ := skipBlank_trail hs hp
  exact ⟨[], w, by simpa using hsplit, .nil, hw, by simpa using hpos.symm⟩

/-- The skipper does not move from where a run ends. -/
theorem skip_end (hs : s.dialect = .json) (hp : -1 ≤ p) (h : s.RunTo p cs e r) :
    (s.skipBlank e).pos = e :=
  skipBlank_of_solid hs (Int.le_trans hp h.le) (h.after_end hp ▸ h.solid)

/-- An empty run seen from solid text ends where it starts. -/
theorem eq_of_solid (h : s.RunTo p [] e r) (hsol : Solid (s.after p)) : p = e := by
  obtain ⟨t, g, h, ht, hg, rfl⟩ := h
  cases ht
  cases g with
  | nil => simp
  | cons c g =>
    rw [h] at hsol
    obtain ⟨hb, hh⟩ := hsol c rfl
    rcases hg.head_cons with hc | hc
    · rw [hb] at hc
      cases hc
    · exact absurd hc hh

/-- From where the skipper stops, the run is the same, with no gap before it; an empty run then
ends there. -/
theorem skip (hs : s.dialect = .json) (hp : -1 ≤ p) (h : s.RunTo p cs e r) (hc : SolidChars cs) :
    s.RunTo (s.skipBlank p).pos cs e r := by
  obtain ⟨t, g, hsplit, ht, hg, rfl⟩ := h
  cases ht with
  | nil =>
    obtain ⟨-, hpos⟩ := skipBlank_of_trail hs hp (by simpa using hsplit) hg
    refine ⟨[], [], ?_, .nil, .inl ⟨.nil, hg.solid⟩, by rw [hpos]; simp⟩
    rw [hpos]
    simpa using after_add hp (by simpa using hsplit)
  | @cons c w cs' t0 hw ht0 =>
    have h' : s.after p = w ++ c :: (t0 ++ g ++ r) := by simpa using hsplit
    obtain ⟨hb, hh⟩ := hc c List.mem_cons_self
    obtain ⟨-, hpos⟩ := skipBlank_of_trail hs hp h' (.inl ⟨hw, Solid.cons hb hh⟩)
    refine ⟨c :: t0, g, ?_, .cons .nil ht0, hg, ?_⟩
    · rw [hpos, after_add hp h']
      simp
    · rw [hpos]
      simp only [List.length_cons, List.length_append]
      omega

/-- A run seen from solid text starts with its first character, and the rest of it follows. -/
theorem uncons {c : Char} (hp : -1 ≤ p) (h : s.RunTo p (c :: cs) e r) (hsol : Solid (s.after p)) :
    s.after p = c :: s.after (p + 1) ∧ s.RunTo (p + 1) cs e r := by
  obtain ⟨t, g, hsplit, ht, hg, rfl⟩ := h
  cases ht with
  | @cons _ w _ t0 hw ht0 =>
    obtain rfl : w = [] := by
      cases w with
      | nil => rfl
      | cons c' w =>
        rw [hsplit] at hsol
        obtain ⟨hb, hh⟩ := hsol c' rfl
        rcases Trail.head_cons (r := []) (.inl ⟨hw, Solid.nil⟩) with hc | hc
        · rw [hb] at hc
          cases hc
        · exact absurd hc hh
    have h' : s.after p = c :: (t0 ++ g ++ r) := by simpa using hsplit
    obtain ⟨-, hnext, -⟩ := after_cons hp h'
    refine ⟨by rw [h', hnext], t0, g, hnext, ht0, hg, ?_⟩
    simp only [List.nil_append, List.length_cons]
    omega

/-- From solid text, a run starts with its first character and has a gap only between its
characters: it is the text of a number as the grammar writes it. -/
theorem spaced {c : Char} (hp : -1 ≤ p) (h : s.RunTo p (c :: cs) e r) (hsol : Solid (s.after p)) :
    ∃ t g, s.after p = t ++ g ++ r ∧ Spaced (c :: cs) t ∧ Trail g r ∧
      e = p + t.length + g.length := by
  obtain ⟨hhead, t, g, hsplit, ht, hg, rfl⟩ := h.uncons hp hsol
  refine ⟨c :: t, g, by rw [hhead, hsplit]; rfl, ht.spaced, hg, ?_⟩
  simp only [List.length_cons]
  omega

/-- Seen from solid text, what comes first is the first character of the run, or of what follows
an empty run. -/
theorem head (hp : -1 ≤ p) (h : s.RunTo p cs e r) (hsol : Solid (s.after p)) :
    (s.after p).head? = (cs ++ r).head? := by
  cases cs with
  | nil =>
    obtain rfl := h.eq_of_solid hsol
    rw [h.after_end hp]
    rfl
  | cons c cs =>
    rw [(h.uncons hp hsol).1]
    rfl

/-- A character right after the cursor, then a run. -/
theorem cons {c : Char} (h : s.after p = c :: s.after (p + 1)) (hr : s.RunTo (p + 1) cs e r) :
    s.RunTo p (c :: cs) e r := by
  obtain ⟨t, g, hsplit, ht, hg, rfl⟩ := hr
  refine ⟨c :: t, g, by rw [h, hsplit]; simp, .cons .nil ht, hg, ?_⟩
  simp only [List.length_cons]
  omega

/-- Two runs, the first ending where the second starts, make one. -/
theorem append {a : List Char} {m : Int} (h1 : s.RunTo p a m (s.after m)) (h2 : s.RunTo m cs e r) :
    s.RunTo p (a ++ cs) e r := by
  obtain ⟨t1, g1, hs1, ht1, hg1, rfl⟩ := h1
  obtain ⟨t2, g2, hs2, ht2, hg2, rfl⟩ := h2
  rw [hs2] at hs1 hg1
  obtain ⟨t, g, heq, ht, hg⟩ := Trail.spread_append hg1 ht2 hg2
  have hlen := congrArg List.length heq
  simp only [List.length_append] at hlen
  refine ⟨t1 ++ t, g, ?_, ht1.append ht, hg, ?_⟩
  · rw [hs1]
    simpa [List.append_assoc] using congrArg (t1 ++ · ++ r) heq
  · simp only [List.length_append]
    omega

/-- A run after the gap the skipper passes is a run from before it. -/
theorem skip_before (hs : s.dialect = .json) (hp : -1 ≤ p) (h : s.RunTo (s.skipBlank p).pos cs e r) :
    s.RunTo p cs e r := by
  simpa using (gap hs hp).append h

/-- A run splits where its second part begins: the first part ends after the gap before it. -/
theorem split {a : List Char} (hp : -1 ≤ p) (h : s.RunTo p (a ++ cs) e r) (hc : SolidChars cs) :
    ∃ m, s.RunTo p a m (s.after m) ∧ s.RunTo m cs e r := by
  obtain ⟨t, g, hsplit, ht, hg, rfl⟩ := h
  obtain ⟨ta, tb, rfl, hta, htb⟩ := Spread.of_append ht
  cases htb with
  | nil =>
    refine ⟨p + ta.length + g.length, ⟨ta, g, ?_, hta, ?_, rfl⟩, ⟨[], [], ?_, .nil, ?_, ?_⟩⟩
    · rw [after_end hp ⟨ta, g, by simpa using hsplit, hta, hg, rfl⟩]
      simpa using hsplit
    · rw [after_end hp ⟨ta, g, by simpa using hsplit, hta, hg, rfl⟩]
      exact hg
    · rw [after_end hp ⟨ta, g, by simpa using hsplit, hta, hg, rfl⟩]
      rfl
    · exact .inl ⟨.nil, hg.solid⟩
    · simp
  | @cons c w cs' t0 hw ht0 =>
    obtain ⟨hb, hh⟩ := hc c List.mem_cons_self
    have h' : s.after p = ta ++ w ++ (c :: (t0 ++ g ++ r)) := by simpa using hsplit
    have hm : s.after (p + ta.length + w.length) = c :: (t0 ++ g ++ r) := by
      have := after_add hp (t := ta ++ w) (r := c :: (t0 ++ g ++ r)) (by simpa using h')
      simpa [Int.add_assoc] using this
    refine ⟨p + ta.length + w.length, ⟨ta, w, by rw [hm]; simpa using h', hta, ?_, rfl⟩,
      ⟨c :: t0, g, by rw [hm]; simp, .cons .nil ht0, hg, ?_⟩⟩
    · rw [hm]
      exact .inl ⟨hw, Solid.cons hb hh⟩
    · simp only [List.length_append, List.length_cons]
      omega

end RunTo

end Source

/-! ## Choices of one character -/

/-- `x` reads one character of the class `P` from before solid text: the next character when it
is in the class, stopping at most a gap past it, and otherwise a syntax error at a position of
the text. -/
structure ReadsChar (s : Source) (P : Char → Prop) (x : Scan Char) : Prop where
  ok : ∀ {q : Int} {c : Char} {r : List Char}, -1 ≤ q → s.after q = c :: r → Solid (c :: r) →
    P c → (x q).out = .ok c ∧ (s.skipBlank (x q).pos).pos = (s.skipBlank (q + 1)).pos
  fail : ∀ {q : Int}, -1 ≤ q → Solid (s.after q) → (∀ c ∈ (s.after q).head?, ¬ P c) →
    (x q).Mismatched

namespace ReadsChar

variable {s : Source} {P : Char → Prop} {x : Scan Char} {p : Int}

theorem choice_ok (hx : ReadsChar s P x) (hs : s.dialect = .json) (rl : Rule) (hp : -1 ≤ p)
    {w : List Char} {c : Char} {r : List Char} (h : s.after p = w ++ c :: r) (hw : Gap w)
    (hc : Solid (c :: r)) (hP : P c) :
    (s.choice [(rl, x)] p).out = .ok c ∧
      (s.choice [(rl, x)] p).pos = (s.skipBlank (p + w.length + 1)).pos := by
  obtain ⟨-, hpos⟩ := Source.skipBlank_of_trail hs hp h (.inl ⟨hw, hc⟩)
  have hq : s.after (s.skipBlank p).pos = c :: r := by rw [hpos]; exact Source.after_add hp h
  obtain ⟨hout, hstop⟩ := hx.ok (Int.le_trans hp (s.skipBlank p).le) hq (hq ▸ hc) hP
  obtain ⟨h1, h2⟩ := Source.choice_one_of_ok (r := rl) hp hout
  exact ⟨h1, by rw [h2, hstop, hpos]⟩

theorem choice_fail (hx : ReadsChar s P x) (hs : s.dialect = .json) (rl : Rule) (hp : -1 ≤ p)
    {w r : List Char} (h : s.after p = w ++ r) (hw : Trail w r) (hr : ∀ c ∈ r.head?, ¬ P c) :
    (s.choice [(rl, x)] p).Mismatched ∧ (s.choice [(rl, x)] p).pos = p + w.length := by
  obtain ⟨-, hpos⟩ := Source.skipBlank_of_trail hs hp h hw
  have hq : s.after (s.skipBlank p).pos = r := by rw [hpos]; exact Source.after_add hp h
  have hm := hx.fail (Int.le_trans hp (s.skipBlank p).le) (hq ▸ hw.solid) (hq ▸ hr)
  obtain ⟨h1, h2⟩ := Source.choice_one_of_mismatched (r := rl) hp hm
  exact ⟨h1, h2.trans hpos⟩

/-- A choice of one character reads the first character of a run, and the rest of the run lies
ahead of where it stops. -/
theorem choice_runTo (hx : ReadsChar s P x) (hs : s.dialect = .json) (rl : Rule) (hp : -1 ≤ p)
    {c : Char} {cs : List Char} {e : Int} {r : List Char} (h : s.RunTo p (c :: cs) e r)
    (hc : SolidChars (c :: cs)) (hP : P c) :
    (s.choice [(rl, x)] p).out = .ok c ∧ s.RunTo (s.choice [(rl, x)] p).pos cs e r := by
  have hq := Int.le_trans hp (s.skipBlank p).le
  obtain ⟨hhead, hrest⟩ := (h.skip hs hp hc).uncons hq (Source.solid_skipBlank hs hp)
  obtain ⟨hout, hstop⟩ := hx.ok hq hhead (hhead ▸ Source.solid_skipBlank hs hp) hP
  obtain ⟨h1, h2⟩ := Source.choice_one_of_ok (r := rl) hp hout
  refine ⟨h1, ?_⟩
  rw [h2, hstop]
  exact hrest.skip hs (by omega) hc.tail

/-- A choice of one character fails, without moving past the gap, before text that does not
start with a character of the class. -/
theorem choice_fail_head (hx : ReadsChar s P x) (hs : s.dialect = .json) (rl : Rule) (hp : -1 ≤ p)
    (hr : ∀ c ∈ (s.after (s.skipBlank p).pos).head?, ¬ P c) :
    (s.choice [(rl, x)] p).Mismatched ∧ (s.choice [(rl, x)] p).pos = (s.skipBlank p).pos :=
  Source.choice_one_of_mismatched hp
    (hx.fail (Int.le_trans hp (s.skipBlank p).le) (Source.solid_skipBlank hs hp) hr)

/-- What a choice of one character reads is the first character after the gap, in the class. -/
theorem choice_sound (hx : ReadsChar s P x) (hs : s.dialect = .json) (rl : Rule) (hp : -1 ≤ p)
    {c : Char} (h : (s.choice [(rl, x)] p).out = .ok c) :
    P c ∧ s.RunTo p [c] (s.choice [(rl, x)] p).pos (s.after (s.choice [(rl, x)] p).pos) := by
  have hq := Int.le_trans hp (s.skipBlank p).le
  cases hr : s.after (s.skipBlank p).pos with
  | nil =>
    exact absurd h ((hx.choice_fail_head hs rl hp (by rw [hr]; simp)).1.not_ok c)
  | cons c' r =>
    by_cases hP : P c'
    · have hsol : Solid (c' :: r) := hr ▸ Source.solid_skipBlank hs hp
      obtain ⟨hout, hstop⟩ := hx.ok hq hr hsol hP
      obtain ⟨h1, h2⟩ := Source.choice_one_of_ok (r := rl) hp hout
      rw [h1] at h
      cases h
      refine ⟨hP, Source.RunTo.skip_before hs hp ?_⟩
      rw [h2, hstop]
      obtain ⟨-, hnext, -⟩ := Source.after_cons hq hr
      exact .cons (by rw [hr, hnext]) (Source.RunTo.gap hs (by omega))
    · refine absurd h ((hx.choice_fail_head hs rl hp ?_).1.not_ok c)
      rw [hr]
      intro c'' hc''
      simp only [List.head?_cons, Option.mem_def, Option.some.injEq] at hc''
      exact hc'' ▸ hP

end ReadsChar

namespace Source

variable {s : Source}

/-- A character of a class is read by `char`. -/
theorem char_reads {sp : String} {segs : List Segment} (hseg : segments sp.toList = .ok segs)
    {P : Char → Prop} (hP : ∀ c, classContains segs c = true ↔ P c) :
    ReadsChar s P (s.char (some sp)) where
  ok := by
    intro q c r hq h _ hc
    obtain ⟨h1, h2⟩ := char_mem hseg hq h ((hP c).2 hc)
    exact ⟨h1, by rw [h2]⟩
  fail := by
    intro q hq _ hr
    cases h : s.after q with
    | nil => exact ⟨_, (char_end hq h _).1, show (0 : Int) ≤ q + 1 by omega⟩
    | cons c r =>
      have hc : classContains segs c = false := by
        rw [h] at hr
        have hn := hr c rfl
        rw [← hP] at hn
        simpa using hn
      exact ⟨_, (char_not_mem hseg hq h hc).1, show (0 : Int) ≤ q + 1 by omega⟩

end Source

namespace Grammar

variable {s : Source} {p : Int}

theorem onenine_reads : ReadsChar s (fun c => '1' ≤ c ∧ c ≤ '9') (onenine s) :=
  Source.char_reads (show segments "1-9".toList = .ok [.range '1' '9'] from rfl)
    (fun c => by simp [classContains, Segment.contains])

/-- Where no `0` follows, the optional `0` gives nothing and does not move. -/
theorem zero_optional_miss {q : Int} (hq : -1 ≤ q) (h : ∀ c ∈ (s.after q).head?, c ≠ '0') :
    ((s.char (some "0")).optional q).out = .ok none ∧ ((s.char (some "0")).optional q).pos = q := by
  rw [Scan.optional_apply, Step.optional_out, Step.optional_pos]
  cases hr : s.after q with
  | nil =>
    obtain ⟨h1, h2⟩ := Source.char_end hq hr (some "0")
    rw [h1, h2]
    exact ⟨rfl, rfl⟩
  | cons c r =>
    have hc : classContains [.single '0'] c = false := by
      rw [hr] at h
      simpa [classContains, Segment.contains] using h c rfl
    obtain ⟨h1, h2⟩ := Source.char_not_mem (show segments "0".toList = .ok [.single '0'] from rfl) hq hr hc
    rw [h1, h2]
    exact ⟨rfl, rfl⟩

/-- A digit is read as a `0` or, through a choice, as a nonzero digit. -/
theorem digit_reads (hs : s.dialect = .json) :
    ReadsChar s (fun c => c.isDigit = true) (digit s) where
  ok := by
    intro q c r hq h hsol hc
    rcases (isDigit_iff c).1 hc with rfl | hc
    · obtain ⟨h1, h2⟩ := Source.char_mem (show segments "0".toList = .ok [.single '0'] from rfl) hq h
        (by decide)
      have hx : ((s.char (some "0")).optional q).out = .ok (some '0') := by
        rw [Scan.optional_apply, Step.optional_out, h1]; rfl
      have hd : (digit s q).out = .ok '0' ∧ (digit s q).pos = q + 1 :=
        Scan.bind_ends_as hx h2 ⟨rfl, rfl⟩
      exact ⟨hd.1, by rw [hd.2]⟩
    · have hne : c ≠ '0' := by
        rintro rfl
        exact absurd hc.1 (by decide)
      obtain ⟨hx, hpos⟩ := zero_optional_miss hq (by rw [h]; simpa using hne)
      obtain ⟨h1, h2⟩ := onenine_reads.choice_ok hs .onenine hq (w := []) h .nil hsol hc
      have hd : (digit s q).out = .ok c ∧
          (digit s q).pos = (s.choice [(.onenine, onenine s)] q).pos :=
        Scan.bind_ends_as hx hpos ⟨h1, rfl⟩
      refine ⟨hd.1, ?_⟩
      rw [hd.2, h2, List.length_nil, Int.natCast_zero, Int.add_zero]
      exact Source.skipBlank_idem hs (by omega)
  fail := by
    intro q hq hsol hr
    have hnd : ∀ c ∈ (s.after q).head?, c ≠ '0' ∧ ¬ ('1' ≤ c ∧ c ≤ '9') := by
      intro c hc
      have := hr c hc
      rw [isDigit_iff] at this
      exact ⟨fun h => this (.inl h), fun h => this (.inr h)⟩
    obtain ⟨hx, hpos⟩ := zero_optional_miss hq (fun c hc => (hnd c hc).1)
    refine Scan.bind_mismatched_of_ok hx hpos ?_
    exact (onenine_reads.choice_fail hs .onenine hq (w := []) rfl (.inl ⟨.nil, hsol⟩)
      (fun c hc => (hnd c hc).2)).1

/-! ## Runs of digits -/

/-- A choice of one alternative that reads a whole run reads it after the gap too. -/
theorem choice_one_runTo {α : Type} {x : Scan α} {l : Rule} {v : α} (hs : s.dialect = .json)
    (hp : -1 ≤ p) {cs : List Char} {e : Int} {r : List Char} (h : s.RunTo p cs e r)
    (hc : SolidChars cs)
    (hx : ∀ q, -1 ≤ q → s.RunTo q cs e r → Solid (s.after q) → (x q).out = .ok v ∧ (x q).pos = e) :
    (s.choice [(l, x)] p).out = .ok v ∧ (s.choice [(l, x)] p).pos = e := by
  have hq := Int.le_trans hp (s.skipBlank p).le
  have hrun := h.skip hs hp hc
  obtain ⟨h1, h2⟩ := hx _ hq hrun (Source.solid_skipBlank hs hp)
  obtain ⟨h3, h4⟩ := Source.choice_one_of_ok (r := l) hp h1
  exact ⟨h3, by rw [h4, h2]; exact hrun.skip_end hs hq⟩

/-- What a choice of one alternative reads after the gap, it reads from before the gap. -/
theorem choice_one_sound {α : Type} {x : Scan α} {l : Rule} {v : α} (hs : s.dialect = .json)
    (hp : -1 ≤ p) {Q : List Char → Prop} (h : (s.choice [(l, x)] p).out = .ok v)
    (hx : ∀ q, -1 ≤ q → (x q).out = .ok v → ∃ cs, Q cs ∧ s.RunTo q cs (x q).pos (s.after (x q).pos)) :
    ∃ cs, Q cs ∧ s.RunTo p cs (s.choice [(l, x)] p).pos (s.after (s.choice [(l, x)] p).pos) := by
  have hq := Int.le_trans hp (s.skipBlank p).le
  obtain ⟨h1, h2⟩ := Source.choice_one_ok hp h
  obtain ⟨cs, hQ, hrun⟩ := hx _ hq h1
  refine ⟨cs, hQ, Source.RunTo.skip_before hs hp ?_⟩
  rw [h2, hrun.skip_end hs hq]
  exact hrun

/-- On a run of digits spread over gaps, then a whole gap before text that is not a digit, the
digit loop appends the run and stops after the gap. -/
theorem moreDigits_of_runTo (hs : s.dialect = .json) (acc : String) (hp : -1 ≤ p)
    {ds : List Char} {e : Int} {r : List Char} (h : s.RunTo p ds e r)
    (hd : ∀ c ∈ ds, c.isDigit = true) (hr : NoDigit r) :
    (moreDigits s acc p).out = .ok (acc ++ String.ofList ds) ∧ (moreDigits s acc p).pos = e := by
  induction ds generalizing p acc with
  | nil =>
    have hrun := h.skip hs hp (by simp [SolidChars])
    have hq : (s.skipBlank p).pos = e :=
      hrun.eq_of_solid (Source.solid_skipBlank hs hp)
    have hhead : ∀ c ∈ (s.after (s.skipBlank p).pos).head?, ¬ c.isDigit = true := by
      rw [hq, hrun.after_end (Int.le_trans hp (s.skipBlank p).le)]
      intro c hc
      simpa using hr c hc
    obtain ⟨⟨e', he', -⟩, hpos⟩ := (digit_reads hs).choice_fail_head hs .digit hp hhead
    have hx : ((s.choice [(.digit, digit s)]).optional p).out = .ok none := by
      rw [Scan.optional_apply, Step.optional_out, he']; rfl
    have hk : (Step.ok (s.choice [(.digit, digit s)] p).pos acc).out =
          .ok (acc ++ String.ofList []) ∧
        (Step.ok (s.choice [(.digit, digit s)] p).pos acc).pos = e := by
      refine ⟨by simp, ?_⟩
      rw [Step.ok_pos, hpos, hq]
    rw [moreDigits]
    exact Step.andThen_ends_as hx hk
  | cons d ds ih =>
    obtain ⟨hc, hrun⟩ := (digit_reads hs).choice_runTo hs .digit hp h (SolidChars.of_digits hd)
      (hd d List.mem_cons_self)
    have hx : ((s.choice [(.digit, digit s)]).optional p).out = .ok (some d) := by
      rw [Scan.optional_apply, Step.optional_out, hc]; rfl
    obtain ⟨hout, hpos⟩ := ih (p := (s.choice [(.digit, digit s)] p).pos) (acc.push d)
      (Int.le_trans hp (s.choice [(.digit, digit s)] p).le) hrun
      (fun c hc => hd c (List.mem_cons_of_mem d hc))
    have hk : (moreDigits s (acc.push d) (s.choice [(.digit, digit s)] p).pos).out =
          .ok (acc ++ String.ofList (d :: ds)) ∧
        (moreDigits s (acc.push d) (s.choice [(.digit, digit s)] p).pos).pos = e := by
      refine ⟨?_, hpos⟩
      rw [hout]
      congr 1
      apply String.toList_inj.1
      simp
    rw [moreDigits]
    exact Step.andThen_ends_as hx hk

/-- The digit loop always succeeds: it appends the longest run of digits ahead, each after a gap,
and stops after the whole gap that follows. -/
theorem moreDigits_spec (hs : s.dialect = .json) (acc : String) (hp : -1 ≤ p) :
    ∃ ds, (∀ c ∈ ds, c.isDigit = true) ∧
      s.RunTo p ds (moreDigits s acc p).pos (s.after (moreDigits s acc p).pos) ∧
      NoDigit (s.after (moreDigits s acc p).pos) ∧
      (moreDigits s acc p).out = .ok (acc ++ String.ofList ds) := by
  obtain ⟨ds, t, g, r, h, ht, hd, hg, hr⟩ := exists_digitRun (s.after p)
  have hrun : s.RunTo p ds (p + t.length + g.length) r := ⟨t, g, h, ht, hg, rfl⟩
  obtain ⟨hout, hpos⟩ := moreDigits_of_runTo hs acc hp hrun hd hr
  rw [hpos, hrun.after_end hp]
  exact ⟨ds, hd, hrun, hr, hout⟩

/-- `digits` reads a run of one digit or more, the longest there is. -/
theorem digits_of_runTo (hs : s.dialect = .json) (hp : -1 ≤ p) {d : Char} {ds : List Char}
    {e : Int} {r : List Char} (h : s.RunTo p (d :: ds) e r)
    (hd : ∀ c ∈ d :: ds, c.isDigit = true) (hr : NoDigit r) :
    (digits s p).out = .ok (String.ofList (d :: ds)) ∧ (digits s p).pos = e := by
  obtain ⟨hc, hrun⟩ := (digit_reads hs).choice_runTo hs .digit hp h (SolidChars.of_digits hd)
    (hd d List.mem_cons_self)
  obtain ⟨hout, hpos⟩ := moreDigits_of_runTo hs (String.singleton d)
    (Int.le_trans hp (s.choice [(.digit, digit s)] p).le) hrun
    (fun c hc => hd c (List.mem_cons_of_mem d hc)) hr
  refine Scan.bind_ends_as hc rfl ⟨?_, hpos⟩
  rw [hout]
  congr 1
  apply String.toList_inj.1
  simp

/-- Before text that is not a digit, once the gap is passed, `digits` fails with a syntax error. -/
theorem digits_fail (hs : s.dialect = .json) (hp : -1 ≤ p)
    (hr : NoDigit (s.after (s.skipBlank p).pos)) : (digits s p).Mismatched :=
  Scan.bind_mismatched ((digit_reads hs).choice_fail_head hs .digit hp
    (fun c hc => by simpa using hr c hc)).1

/-- What `digits` reads is the longest run of digits ahead, of one digit or more. -/
theorem digits_sound (hs : s.dialect = .json) (hp : -1 ≤ p) {v : String}
    (h : (digits s p).out = .ok v) :
    ∃ ds, ds ≠ [] ∧ (∀ c ∈ ds, c.isDigit = true) ∧ NoDigit (s.after (digits s p).pos) ∧
      s.RunTo p ds (digits s p).pos (s.after (digits s p).pos) ∧ v = String.ofList ds := by
  obtain ⟨ds, t, g, r, hsplit, ht, hd, hg, hr⟩ := exists_digitRun (s.after p)
  have hrun : s.RunTo p ds (p + t.length + g.length) r := ⟨t, g, hsplit, ht, hg, rfl⟩
  cases ds with
  | nil =>
    have hskip := hrun.skip hs hp (by simp [SolidChars])
    have hq := hskip.eq_of_solid (Source.solid_skipBlank hs hp)
    refine absurd h ((digits_fail hs hp ?_).not_ok v)
    rw [hq, hrun.after_end hp]
    exact hr
  | cons d ds =>
    obtain ⟨hout, hpos⟩ := digits_of_runTo hs hp hrun hd hr
    rw [hout] at h
    cases h
    rw [hpos, hrun.after_end hp]
    exact ⟨d :: ds, List.cons_ne_nil d ds, hd, hr, hrun, rfl⟩

/-! ## The four forms of an integer -/

theorem singleton_append_ofList (c : Char) (cs : List Char) :
    String.singleton c ++ String.ofList cs = String.ofList (c :: cs) :=
  String.toList_inj.1 (by simp)

theorem wholeDigits_single {d : Char} (hd : d.isDigit = true) : NumLit.WholeDigits [d] := by
  rcases (isDigit_iff d).1 hd with rfl | hd
  · exact .inl rfl
  · exact .inr ⟨d, [], rfl, hd.1, hd.2, by simp⟩

theorem isDigit_of_onenine {d : Char} (hd : '1' ≤ d ∧ d ≤ '9') : d.isDigit = true :=
  (isDigit_iff d).2 (.inr hd)

theorem segments_minus : segments "-".toList = .ok [.single '-'] := rfl

/-- Before text that does not start with `-`, `char` fails to read a `-`. -/
theorem minus_fail (hp : -1 ≤ p) (hr : ∀ c ∈ (s.after p).head?, c ≠ '-') :
    (s.char (some "-") p).Mismatched :=
  Source.char_fail segments_minus hp (fun c hc => by
    simpa [classContains, Segment.contains] using hr c hc)

theorem oneDigit_of_runTo (hs : s.dialect = .json) (hp : -1 ≤ p) {d : Char} {e : Int}
    {r : List Char} (h : s.RunTo p [d] e r) (hd : d.isDigit = true) :
    (oneDigit s p).out = .ok (String.ofList [d]) ∧ (oneDigit s p).pos = e := by
  obtain ⟨hc, hrun⟩ := (digit_reads hs).choice_runTo hs .digit hp h
    (SolidChars.of_digits (by simpa using hd)) hd
  have he := hrun.eq_of_solid (Source.choice_one_solid hs hp hc)
  refine Scan.bind_ends_as hc he ⟨?_, rfl⟩
  exact congrArg Except.ok (String.toList_inj.1 (by simp))

theorem oneDigit_fail (hs : s.dialect = .json) (hp : -1 ≤ p)
    (hr : NoDigit (s.after (s.skipBlank p).pos)) : (oneDigit s p).Mismatched :=
  Scan.bind_mismatched ((digit_reads hs).choice_fail_head hs .digit hp
    (fun c hc => by simpa using hr c hc)).1

theorem oneDigit_sound (hs : s.dialect = .json) (hp : -1 ≤ p) {v : String}
    (h : (oneDigit s p).out = .ok v) :
    ∃ d, d.isDigit = true ∧ v = String.ofList [d] ∧
      s.RunTo p [d] (oneDigit s p).pos (s.after (oneDigit s p).pos) := by
  obtain ⟨d, hc, hk, hpos⟩ := Scan.bind_ok h
  obtain ⟨hd, hrun⟩ := (digit_reads hs).choice_sound hs .digit hp hc
  have hv : String.singleton d = v := Except.ok.inj hk
  have hpos' : (oneDigit s p).pos = (s.choice [(.digit, digit s)] p).pos := hpos
  refine ⟨d, hd, hv ▸ String.toList_inj.1 (by simp), ?_⟩
  rw [hpos']
  exact hrun

theorem manyDigits_of_runTo (hs : s.dialect = .json) (hp : -1 ≤ p) {d : Char} {ds : List Char}
    {e : Int} {r : List Char} (h : s.RunTo p (d :: ds) e r) (hd : '1' ≤ d ∧ d ≤ '9')
    (hne : ds ≠ []) (hds : ∀ c ∈ ds, c.isDigit = true) (hr : NoDigit r) :
    (manyDigits s p).out = .ok (String.ofList (d :: ds)) ∧ (manyDigits s p).pos = e := by
  have hdig : ∀ c ∈ d :: ds, c.isDigit = true := by
    intro c hc
    rcases List.mem_cons.1 hc with rfl | hc
    · exact isDigit_of_onenine hd
    · exact hds c hc
  obtain ⟨h1, hrun⟩ := onenine_reads.choice_runTo hs .onenine hp h (SolidChars.of_digits hdig) hd
  obtain ⟨d', ds', rfl⟩ := List.exists_cons_of_ne_nil hne
  obtain ⟨h2, h2pos⟩ := choice_one_runTo (l := .digits) hs
    (Int.le_trans hp (s.choice [(.onenine, onenine s)] p).le) hrun (SolidChars.of_digits hds)
    (fun q hq hrun' _ => digits_of_runTo hs hq hrun' hds hr)
  refine Scan.bind_ends_as h1 rfl (Scan.bind_ends_as h2 h2pos ⟨?_, rfl⟩)
  exact congrArg Except.ok (singleton_append_ofList d (d' :: ds'))

/-- A nonzero digit with no digit after it is not the long form. -/
theorem manyDigits_fail_short (hs : s.dialect = .json) (hp : -1 ≤ p) {d : Char} {e : Int}
    {r : List Char} (h : s.RunTo p [d] e r) (hd : '1' ≤ d ∧ d ≤ '9') (hr : NoDigit r) :
    (manyDigits s p).Mismatched := by
  obtain ⟨h1, hrun⟩ := onenine_reads.choice_runTo hs .onenine hp h
    (SolidChars.of_digits (by simpa using isDigit_of_onenine hd)) hd
  have hq := Int.le_trans hp (s.choice [(.onenine, onenine s)] p).le
  have hskip := hrun.skip hs hq (by simp [SolidChars])
  have he := hskip.eq_of_solid (Source.solid_skipBlank hs hq)
  have hm : (digits s (s.skipBlank (s.choice [(.onenine, onenine s)] p).pos).pos).Mismatched := by
    refine digits_fail hs (Int.le_trans hq (s.skipBlank _).le) ?_
    rw [Source.skipBlank_idem hs hq, he, hskip.after_end (Int.le_trans hq (s.skipBlank _).le)]
    exact hr
  exact Scan.bind_mismatched_of_ok h1 rfl
    (Scan.bind_mismatched (Source.choice_one_of_mismatched (r := .digits) hq hm).1)

/-- Before text whose first character after the gap is not a nonzero digit, the long form
fails. -/
theorem manyDigits_fail_head (hs : s.dialect = .json) (hp : -1 ≤ p)
    (hr : ∀ c ∈ (s.after (s.skipBlank p).pos).head?, ¬ ('1' ≤ c ∧ c ≤ '9')) :
    (manyDigits s p).Mismatched :=
  Scan.bind_mismatched (onenine_reads.choice_fail_head hs .onenine hp hr).1

theorem manyDigits_sound (hs : s.dialect = .json) (hp : -1 ≤ p) {v : String}
    (h : (manyDigits s p).out = .ok v) :
    ∃ d ds, ('1' ≤ d ∧ d ≤ '9') ∧ ds ≠ [] ∧ (∀ c ∈ ds, c.isDigit = true) ∧
      v = String.ofList (d :: ds) ∧
      s.RunTo p (d :: ds) (manyDigits s p).pos (s.after (manyDigits s p).pos) := by
  obtain ⟨d, h1, hk, hpos⟩ := Scan.bind_ok h
  obtain ⟨hd, hrun1⟩ := onenine_reads.choice_sound hs .onenine hp h1
  obtain ⟨dstr, h2, hk2, hpos2⟩ := Scan.bind_ok hk
  have hq := Int.le_trans hp (s.choice [(.onenine, onenine s)] p).le
  obtain ⟨ds, ⟨hne, hds, rfl⟩, hrun2⟩ := choice_one_sound
    (Q := fun ds => ds ≠ [] ∧ (∀ c ∈ ds, c.isDigit = true) ∧ dstr = String.ofList ds) hs hq h2
    (fun q hq' hx => by
      obtain ⟨ds, hne, hds, -, hrun, rfl⟩ := digits_sound hs hq' hx
      exact ⟨ds, ⟨hne, hds, rfl⟩, hrun⟩)
  have hv : String.singleton d ++ String.ofList ds = v := Except.ok.inj hk2
  have hpos' : (manyDigits s p).pos =
      (s.choice [(.digits, digits s)] (s.choice [(.onenine, onenine s)] p).pos).pos :=
    hpos.trans hpos2
  refine ⟨d, ds, hd, hne, hds, by rw [← hv, singleton_append_ofList], ?_⟩
  rw [hpos']
  exact hrun1.append hrun2

theorem negOneDigit_of_runTo (hs : s.dialect = .json) (hp : -1 ≤ p) {d : Char} {e : Int}
    {r : List Char} (h : s.RunTo p ['-', d] e r) (hsol : Solid (s.after p))
    (hd : d.isDigit = true) :
    (negOneDigit s p).out = .ok (String.ofList ['-', d]) ∧ (negOneDigit s p).pos = e := by
  obtain ⟨hhead, hrun⟩ := h.uncons hp hsol
  obtain ⟨hm, hmpos⟩ := Source.char_mem segments_minus hp hhead (by decide)
  obtain ⟨h2, h2pos⟩ := choice_one_runTo (l := .oneDigit) hs (by omega) hrun
    (SolidChars.of_digits (by simpa using hd)) (fun q hq hrun' _ => oneDigit_of_runTo hs hq hrun' hd)
  refine Scan.bind_ends_as hm hmpos (Scan.bind_ends_as h2 h2pos ⟨?_, rfl⟩)
  exact congrArg Except.ok (singleton_append_ofList '-' [d])

theorem negOneDigit_fail (hp : -1 ≤ p) (hr : ∀ c ∈ (s.after p).head?, c ≠ '-') :
    (negOneDigit s p).Mismatched :=
  Scan.bind_mismatched (minus_fail hp hr)

/-- What `char` reads of a class of one character is that character, right after the cursor. -/
theorem char_single_sound {sp : String} {c0 m : Char} (hseg : segments sp.toList = .ok [.single c0])
    (hp : -1 ≤ p) (h : (s.char (some sp) p).out = .ok m) :
    m = c0 ∧ (s.char (some sp) p).pos = p + 1 ∧ s.after p = c0 :: s.after (p + 1) := by
  obtain ⟨hpos, hhead, hcls⟩ := Source.char_sound hp h
  have hm : m = c0 := by
    simpa [classContains, Segment.contains] using hcls sp [.single c0] rfl hseg
  subst hm
  exact ⟨rfl, hpos, hhead⟩

theorem negOneDigit_sound (hs : s.dialect = .json) (hp : -1 ≤ p) {v : String}
    (h : (negOneDigit s p).out = .ok v) :
    ∃ d, d.isDigit = true ∧ v = String.ofList ['-', d] ∧
      s.RunTo p ['-', d] (negOneDigit s p).pos (s.after (negOneDigit s p).pos) := by
  obtain ⟨m, hm, hk, hpos⟩ := Scan.bind_ok h
  obtain ⟨rfl, hmpos, hhead⟩ := char_single_sound segments_minus hp hm
  obtain ⟨rstr, h2, hk2, hpos2⟩ := Scan.bind_ok hk
  have hq : -1 ≤ (s.char (some "-") p).pos := by rw [hmpos]; omega
  obtain ⟨cs, ⟨d, hd, rfl, rfl⟩, hrun⟩ := choice_one_sound
    (Q := fun cs => ∃ d, d.isDigit = true ∧ cs = [d] ∧ rstr = String.ofList [d]) hs hq h2
    (fun q hq hx => by
      obtain ⟨d, hd, rfl, hrun⟩ := oneDigit_sound hs hq hx
      exact ⟨[d], ⟨d, hd, rfl, rfl⟩, hrun⟩)
  have hv : String.singleton '-' ++ String.ofList [d] = v := Except.ok.inj hk2
  have hpos' : (negOneDigit s p).pos =
      (s.choice [(.oneDigit, oneDigit s)] (s.char (some "-") p).pos).pos := hpos.trans hpos2
  refine ⟨d, hd, by rw [← hv, singleton_append_ofList], ?_⟩
  rw [hpos']
  rw [hmpos] at hrun ⊢
  exact .cons hhead hrun

theorem negManyDigits_of_runTo (hs : s.dialect = .json) (hp : -1 ≤ p) {d : Char}
    {ds : List Char} {e : Int} {r : List Char} (h : s.RunTo p ('-' :: d :: ds) e r)
    (hsol : Solid (s.after p)) (hd : '1' ≤ d ∧ d ≤ '9') (hne : ds ≠ [])
    (hds : ∀ c ∈ ds, c.isDigit = true) (hr : NoDigit r) :
    (negManyDigits s p).out = .ok (String.ofList ('-' :: d :: ds)) ∧ (negManyDigits s p).pos = e := by
  obtain ⟨hhead, hrun⟩ := h.uncons hp hsol
  obtain ⟨hm, hmpos⟩ := Source.char_mem segments_minus hp hhead (by decide)
  have hdig : ∀ c ∈ d :: ds, c.isDigit = true := by
    intro c hc
    rcases List.mem_cons.1 hc with rfl | hc
    · exact isDigit_of_onenine hd
    · exact hds c hc
  obtain ⟨h2, h2pos⟩ := choice_one_runTo (l := .manyDigits) hs (by omega) hrun
    (SolidChars.of_digits hdig) (fun q hq hrun' _ => manyDigits_of_runTo hs hq hrun' hd hne hds hr)
  refine Scan.bind_ends_as hm hmpos (Scan.bind_ends_as h2 h2pos ⟨?_, rfl⟩)
  exact congrArg Except.ok (singleton_append_ofList '-' (d :: ds))

theorem negManyDigits_fail_sign (hp : -1 ≤ p) (hr : ∀ c ∈ (s.after p).head?, c ≠ '-') :
    (negManyDigits s p).Mismatched :=
  Scan.bind_mismatched (minus_fail hp hr)

/-- After a `-`, the long negative form fails where the long form does. -/
theorem negManyDigits_fail_tail (hp : -1 ≤ p)
    (hhead : s.after p = '-' :: s.after (p + 1)) (hm : (manyDigits s (s.skipBlank (p + 1)).pos).Mismatched) :
    (negManyDigits s p).Mismatched := by
  obtain ⟨h1, h1pos⟩ := Source.char_mem segments_minus hp hhead (by decide)
  exact Scan.bind_mismatched_of_ok h1 h1pos
    (Scan.bind_mismatched (Source.choice_one_of_mismatched (r := .manyDigits) (by omega) hm).1)

theorem negManyDigits_sound (hs : s.dialect = .json) (hp : -1 ≤ p) {v : String}
    (h : (negManyDigits s p).out = .ok v) :
    ∃ d ds, ('1' ≤ d ∧ d ≤ '9') ∧ ds ≠ [] ∧ (∀ c ∈ ds, c.isDigit = true) ∧
      v = String.ofList ('-' :: d :: ds) ∧
      s.RunTo p ('-' :: d :: ds) (negManyDigits s p).pos (s.after (negManyDigits s p).pos) := by
  obtain ⟨m, hm, hk, hpos⟩ := Scan.bind_ok h
  obtain ⟨rfl, hmpos, hhead⟩ := char_single_sound segments_minus hp hm
  obtain ⟨rstr, h2, hk2, hpos2⟩ := Scan.bind_ok hk
  have hq : -1 ≤ (s.char (some "-") p).pos := by rw [hmpos]; omega
  obtain ⟨cs, ⟨d, ds, hd, hne, hds, rfl, rfl⟩, hrun⟩ := choice_one_sound
    (Q := fun cs => ∃ d ds, ('1' ≤ d ∧ d ≤ '9') ∧ ds ≠ [] ∧ (∀ c ∈ ds, c.isDigit = true) ∧
      cs = d :: ds ∧ rstr = String.ofList (d :: ds)) hs hq h2
    (fun q hq hx => by
      obtain ⟨d, ds, hd, hne, hds, rfl, hrun⟩ := manyDigits_sound hs hq hx
      exact ⟨d :: ds, ⟨d, ds, hd, hne, hds, rfl, rfl⟩, hrun⟩)
  have hv : String.singleton '-' ++ String.ofList (d :: ds) = v := Except.ok.inj hk2
  have hpos' : (negManyDigits s p).pos =
      (s.choice [(.manyDigits, manyDigits s)] (s.char (some "-") p).pos).pos := hpos.trans hpos2
  refine ⟨d, ds, hd, hne, hds, by rw [← hv, singleton_append_ofList], ?_⟩
  rw [hpos']
  rw [hmpos] at hrun ⊢
  exact .cons hhead hrun

/-! ## Integers -/

/-- The characters of an integer part: a `-` when it is negative, then its digits. -/
def signed (neg : Bool) (whole : List Char) : List Char := (if neg then ['-'] else []) ++ whole

theorem solidChars_signed {neg : Bool} {whole : List Char} (hw : NumLit.WholeDigits whole) :
    SolidChars (signed neg whole) := by
  have hdig : ∀ c ∈ whole, c.isDigit = true := by
    rcases hw with rfl | ⟨d, ds, rfl, hd1, hd9, hds⟩
    · simp
    · intro c hc
      rcases List.mem_cons.1 hc with rfl | hc
      · exact isDigit_of_onenine ⟨hd1, hd9⟩
      · exact hds c hc
  intro c hc
  cases neg
  · exact SolidChars.of_digits hdig c (by simpa [signed] using hc)
  · simp only [signed, if_true, List.cons_append, List.nil_append, List.mem_cons] at hc
    rcases hc with rfl | hc
    · exact ⟨by decide, by decide⟩
    · exact SolidChars.of_digits hdig c hc

/-- The forms the integer rule tries, longest first. -/
def integerForms (s : Source) : List (Rule × Scan String) :=
  [(.negManyDigits, negManyDigits s), (.negOneDigit, negOneDigit s), (.manyDigits, manyDigits s),
    (.oneDigit, oneDigit s)]

theorem integer_eq : integer s = (do
    let t ← s.choice (integerForms s)
    Scan.ofExcept (Numeral.readInteger t)) := rfl

/-- The integer forms, longest first, read the integer part of a literal before anything but a
digit: the forms before the right one fail with syntax errors. -/
theorem integerForms_of_runTo (hs : s.dialect = .json) (hp : -1 ≤ p) {neg : Bool}
    {whole : List Char} (hw : NumLit.WholeDigits whole) {e : Int} {r : List Char}
    (h : s.RunTo p (signed neg whole) e r) (hr : NoDigit r) :
    (s.choice (integerForms s) p).out = .ok (String.ofList (signed neg whole)) ∧
      (s.choice (integerForms s) p).pos = e := by
  have hq := Int.le_trans hp (s.skipBlank p).le
  have hsol := Source.solid_skipBlank hs hp
  have hrun := h.skip hs hp (solidChars_signed hw)
  have hend : (s.skipBlank e).pos = e := hrun.skip_end hs hq
  have hstay : (s.skipBlank (s.skipBlank p).pos).pos = (s.skipBlank p).pos := Source.skipBlank_idem hs hp
  refine Source.choiceAt_ends_as hp ?_
  dsimp only [integerForms, List.map]
  cases neg with
  | false =>
    -- no sign: both negative forms fail at the first digit
    simp only [signed, Bool.false_eq_true, if_false, List.nil_append] at hrun ⊢
    obtain ⟨c, rest, rfl⟩ : ∃ c rest, whole = c :: rest := by
      rcases hw with rfl | ⟨d, ds, rfl, -⟩
      · exact ⟨'0', [], rfl⟩
      · exact ⟨d, ds, rfl⟩
    obtain ⟨hhead, -⟩ := hrun.uncons hq hsol
    have hsign : ∀ c' ∈ (s.after (s.skipBlank p).pos).head?, c' ≠ '-' := by
      rw [hhead]
      intro c' hc'
      simp only [List.head?_cons, Option.mem_def, Option.some.injEq] at hc'
      subst hc'
      intro hm
      subst hm
      rcases hw with h0 | ⟨d, ds, h0, hd1, -⟩
      · simp at h0
      · simp only [List.cons.injEq] at h0
        obtain ⟨rfl, -⟩ := h0
        exact absurd hd1 (by decide)
    obtain ⟨e1, he1, -⟩ := negManyDigits_fail_sign hq hsign
    obtain ⟨e2, he2, -⟩ := negOneDigit_fail hq hsign
    rw [Source.tryAlts_of_mismatch (a := fun q _ => negManyDigits s q) he1,
      Source.tryAlts_of_mismatch (a := fun q _ => negOneDigit s q) he2]
    rcases hw with h0 | ⟨d, ds, hcd, hd1, hd9, hds⟩
    · -- `0`: only the one-digit form reads it
      obtain ⟨rfl, rfl⟩ : c = '0' ∧ rest = [] := by simpa using h0
      obtain ⟨e3, he3, -⟩ := manyDigits_fail_head hs hq (by rw [hstay, hhead]; simp)
      rw [Source.tryAlts_of_mismatch (a := fun q _ => manyDigits s q) he3]
      exact Source.tryAlts_of_ok_at hq (oneDigit_of_runTo hs hq hrun (by decide)) hend
    · obtain ⟨h1, h2⟩ := List.cons.inj hcd
      subst h1 h2
      cases rest with
      | nil =>
        -- one nonzero digit: the long form fails for want of a second
        obtain ⟨e3, he3, -⟩ := manyDigits_fail_short hs hq hrun ⟨hd1, hd9⟩ hr
        rw [Source.tryAlts_of_mismatch (a := fun q _ => manyDigits s q) he3]
        exact Source.tryAlts_of_ok_at hq
          (oneDigit_of_runTo hs hq hrun (isDigit_of_onenine ⟨hd1, hd9⟩)) hend
      | cons d' ds =>
        exact Source.tryAlts_of_ok_at hq
          (manyDigits_of_runTo hs hq hrun ⟨hd1, hd9⟩ (List.cons_ne_nil d' ds) hds hr) hend
  | true =>
    simp only [signed, if_true, List.cons_append, List.nil_append] at hrun ⊢
    obtain ⟨hhead, hrest⟩ := hrun.uncons hq hsol
    have hq1 : -1 ≤ (s.skipBlank p).pos + 1 := by omega
    rcases hw with rfl | ⟨d, ds, rfl, hd1, hd9, hds⟩
    · -- `-0`: the long negative form fails at the `0`
      have hm : (manyDigits s (s.skipBlank ((s.skipBlank p).pos + 1)).pos).Mismatched := by
        refine manyDigits_fail_head hs (Int.le_trans hq1 (s.skipBlank _).le) ?_
        rw [Source.skipBlank_idem hs hq1]
        obtain ⟨h0, -⟩ := (hrest.skip hs hq1 (SolidChars.of_digits (by simp))).uncons
          (Int.le_trans hq1 (s.skipBlank _).le) (Source.solid_skipBlank hs hq1)
        rw [h0]
        simp
      obtain ⟨e1, he1, -⟩ := negManyDigits_fail_tail hq hhead hm
      rw [Source.tryAlts_of_mismatch (a := fun q _ => negManyDigits s q) he1]
      exact Source.tryAlts_of_ok_at hq (negOneDigit_of_runTo hs hq hrun hsol (by decide)) hend
    · cases ds with
      | nil =>
        -- `-d`: the long negative form fails for want of a second digit
        have hm : (manyDigits s (s.skipBlank ((s.skipBlank p).pos + 1)).pos).Mismatched :=
          manyDigits_fail_short hs (Int.le_trans hq1 (s.skipBlank _).le)
            (hrest.skip hs hq1 (SolidChars.of_digits (by simpa using isDigit_of_onenine ⟨hd1, hd9⟩)))
            ⟨hd1, hd9⟩ hr
        obtain ⟨e1, he1, -⟩ := negManyDigits_fail_tail hq hhead hm
        rw [Source.tryAlts_of_mismatch (a := fun q _ => negManyDigits s q) he1]
        exact Source.tryAlts_of_ok_at hq
          (negOneDigit_of_runTo hs hq hrun hsol (isDigit_of_onenine ⟨hd1, hd9⟩)) hend
      | cons d' ds =>
        exact Source.tryAlts_of_ok_at hq
          (negManyDigits_of_runTo hs hq hrun hsol ⟨hd1, hd9⟩ (List.cons_ne_nil d' ds) hds hr) hend

/-- What the integer forms read is the integer part of a literal. -/
theorem integerForms_sound (hs : s.dialect = .json) (hp : -1 ≤ p) {v : String}
    (h : (s.choice (integerForms s) p).out = .ok v) :
    ∃ neg whole, NumLit.WholeDigits whole ∧ v = String.ofList (signed neg whole) ∧
      s.RunTo p (signed neg whole) (s.choice (integerForms s) p).pos
        (s.after (s.choice (integerForms s) p).pos) := by
  have hq := Int.le_trans hp (s.skipBlank p).le
  obtain ⟨ra, hmem, hra, hpos⟩ := Source.choiceAt_sound hp h
  have hpos' : (s.choice (integerForms s) p).pos = _ := hpos
  rw [hpos']
  simp only [integerForms, List.map, List.mem_cons, List.mem_nil_iff, or_false] at hmem
  rcases hmem with rfl | rfl | rfl | rfl
  · obtain ⟨d, ds, hd, -, hds, rfl, hrun⟩ := negManyDigits_sound hs hq hra
    refine ⟨true, d :: ds, .inr ⟨d, ds, rfl, hd.1, hd.2, hds⟩, rfl, ?_⟩
    rw [hrun.skip_end hs hq]
    exact Source.RunTo.skip_before hs hp hrun
  · obtain ⟨d, hd, rfl, hrun⟩ := negOneDigit_sound hs hq hra
    refine ⟨true, [d], wholeDigits_single hd, rfl, ?_⟩
    rw [hrun.skip_end hs hq]
    exact Source.RunTo.skip_before hs hp hrun
  · obtain ⟨d, ds, hd, -, hds, rfl, hrun⟩ := manyDigits_sound hs hq hra
    refine ⟨false, d :: ds, .inr ⟨d, ds, rfl, hd.1, hd.2, hds⟩, rfl, ?_⟩
    rw [hrun.skip_end hs hq]
    exact Source.RunTo.skip_before hs hp hrun
  · obtain ⟨d, hd, rfl, hrun⟩ := oneDigit_sound hs hq hra
    refine ⟨false, [d], wholeDigits_single hd, rfl, ?_⟩
    rw [hrun.skip_end hs hq]
    exact Source.RunTo.skip_before hs hp hrun

/-- On the integer part of a literal before anything but a digit, the integer rule reads it and
gives its value, or the fault of one with too many digits. -/
theorem integer_of_runTo (hs : s.dialect = .json) (hp : -1 ≤ p) {neg : Bool} {whole : List Char}
    (hw : NumLit.WholeDigits whole) {e : Int} {r : List Char} (h : s.RunTo p (signed neg whole) e r)
    (hr : NoDigit r) :
    (integer s p).out = (Numeral.readInteger (String.ofList (signed neg whole))).mapError .fault ∧
      (integer s p).pos = e := by
  obtain ⟨h1, h2⟩ := integerForms_of_runTo hs hp hw h hr
  rw [integer_eq]
  exact Scan.bind_ends_as h1 h2 ⟨Scan.ofExcept_out _ _, Scan.ofExcept_pos _ _⟩

/-- What the integer rule reads is the integer part of a literal, and it gives its value. -/
theorem integer_sound (hs : s.dialect = .json) (hp : -1 ≤ p) {i : Int}
    (h : (integer s p).out = .ok i) :
    ∃ neg whole, NumLit.WholeDigits whole ∧
      Numeral.readInteger (String.ofList (signed neg whole)) = .ok i ∧
      s.RunTo p (signed neg whole) (integer s p).pos (s.after (integer s p).pos) := by
  rw [integer_eq] at h ⊢
  obtain ⟨t, h1, hk, hpos⟩ := Scan.bind_ok h
  obtain ⟨neg, whole, hw, rfl, hrun⟩ := integerForms_sound hs hp h1
  rw [Scan.ofExcept_out] at hk
  refine ⟨neg, whole, hw, ?_, by rw [hpos, Scan.ofExcept_pos]; exact hrun⟩
  cases hi : Numeral.readInteger (String.ofList (signed neg whole)) with
  | error f =>
    rw [hi] at hk
    cases hk
  | ok i' =>
    rw [hi] at hk
    cases hk
    rfl

/-! ## Fractions -/

theorem segments_point : segments ".".toList = .ok [.single '.'] := rfl

theorem solidChars_fraction {ds : List Char} (hds : Digits ds) : SolidChars ('.' :: ds) := by
  intro c hc
  rcases List.mem_cons.1 hc with rfl | hc
  · exact ⟨by decide, by decide⟩
  · exact SolidChars.of_digits hds.2 c hc

theorem fractionDigits_of_runTo (hs : s.dialect = .json) (hp : -1 ≤ p) {ds : List Char}
    {e : Int} {r : List Char} (h : s.RunTo p ('.' :: ds) e r) (hsol : Solid (s.after p))
    (hds : Digits ds) (hr : NoDigit r) :
    (fractionDigits s p).out = .ok (String.ofList ('.' :: ds)) ∧ (fractionDigits s p).pos = e := by
  obtain ⟨hhead, hrun⟩ := h.uncons hp hsol
  obtain ⟨hm, hmpos⟩ := Source.char_mem segments_point hp hhead (by decide)
  obtain ⟨d, ds', rfl⟩ := List.exists_cons_of_ne_nil hds.1
  obtain ⟨h2, h2pos⟩ := choice_one_runTo (l := .digits) hs (by omega) hrun
    (SolidChars.of_digits hds.2) (fun q hq hrun' _ => digits_of_runTo hs hq hrun' hds.2 hr)
  refine Scan.bind_ends_as hm hmpos (Scan.bind_ends_as h2 h2pos ⟨?_, rfl⟩)
  exact congrArg Except.ok (singleton_append_ofList '.' (d :: ds'))

theorem fractionDigits_fail (hp : -1 ≤ p) (hr : ∀ c ∈ (s.after p).head?, c ≠ '.') :
    (fractionDigits s p).Mismatched :=
  Scan.bind_mismatched (Source.char_fail segments_point hp (fun c hc => by
    simpa [classContains, Segment.contains] using hr c hc))

theorem fractionDigits_sound (hs : s.dialect = .json) (hp : -1 ≤ p) {v : String}
    (h : (fractionDigits s p).out = .ok v) :
    ∃ ds, Digits ds ∧ v = String.ofList ('.' :: ds) ∧
      s.RunTo p ('.' :: ds) (fractionDigits s p).pos (s.after (fractionDigits s p).pos) := by
  obtain ⟨m, hm, hk, hpos⟩ := Scan.bind_ok h
  obtain ⟨rfl, hmpos, hhead⟩ := char_single_sound segments_point hp hm
  obtain ⟨dstr, h2, hk2, hpos2⟩ := Scan.bind_ok hk
  have hq : -1 ≤ (s.char (some ".") p).pos := by rw [hmpos]; omega
  obtain ⟨ds, ⟨hne, hds, rfl⟩, hrun⟩ := choice_one_sound
    (Q := fun ds => ds ≠ [] ∧ (∀ c ∈ ds, c.isDigit = true) ∧ dstr = String.ofList ds) hs hq h2
    (fun q hq' hx => by
      obtain ⟨ds, hne, hds, -, hrun, rfl⟩ := digits_sound hs hq' hx
      exact ⟨ds, ⟨hne, hds, rfl⟩, hrun⟩)
  have hv : String.singleton '.' ++ String.ofList ds = v := Except.ok.inj hk2
  have hpos' : (fractionDigits s p).pos =
      (s.choice [(.digits, digits s)] (s.char (some ".") p).pos).pos := hpos.trans hpos2
  refine ⟨ds, ⟨hne, hds⟩, by rw [← hv, singleton_append_ofList], ?_⟩
  rw [hpos']
  rw [hmpos] at hrun ⊢
  exact .cons hhead hrun

theorem fraction_of_runTo (hs : s.dialect = .json) (hp : -1 ≤ p) {f : Option (List Char)}
    (hf : ∀ ds ∈ f, Digits ds) {e : Int} {r : List Char} (h : s.RunTo p (NumLit.fractionChars f) e r)
    (hr : ∀ c ∈ r.head?, c.isDigit = false ∧ c ≠ '.') :
    (fraction s p).out = .ok (NumLit.fractionValue f) ∧ (fraction s p).pos = e := by
  cases f with
  | none =>
    change s.RunTo p [] e r at h
    have hskip := h.skip hs hp (by simp [SolidChars])
    have hq : (s.skipBlank p).pos = e := hskip.eq_of_solid (Source.solid_skipBlank hs hp)
    have hm : (fractionDigits s (s.skipBlank p).pos).Mismatched := by
      refine fractionDigits_fail (Int.le_trans hp (s.skipBlank p).le) ?_
      rw [hq, hskip.after_end (Int.le_trans hp (s.skipBlank p).le)]
      exact fun c hc => (hr c hc).2
    obtain ⟨⟨e', he', -⟩, hpos⟩ := Source.choice_one_of_mismatched (r := .fractionDigits) hp hm
    have hx : ((s.choice [(.fractionDigits, fractionDigits s)]).optional p).out = .ok none := by
      rw [Scan.optional_apply, Step.optional_out, he']; rfl
    exact Scan.bind_ends_as hx (hpos.trans hq) ⟨rfl, rfl⟩
  | some ds =>
    change s.RunTo p ('.' :: ds) e r at h
    have hds := hf ds rfl
    obtain ⟨h1, h2⟩ := choice_one_runTo (l := .fractionDigits) hs hp h (solidChars_fraction hds)
      (fun q hq hrun hsol => fractionDigits_of_runTo hs hq hrun hsol hds (fun c hc => (hr c hc).1))
    have hx : ((s.choice [(.fractionDigits, fractionDigits s)]).optional p).out =
        .ok (some (String.ofList ('.' :: ds))) := by
      rw [Scan.optional_apply, Step.optional_out, h1]; rfl
    refine Scan.bind_ends_as hx h2 ⟨?_, rfl⟩
    show Except.ok _ = Except.ok _
    simp [NumLit.fractionValue]

theorem fraction_sound (hs : s.dialect = .json) (hp : -1 ≤ p) {v : Number}
    (h : (fraction s p).out = .ok v) :
    ∃ f, (∀ ds ∈ f, Digits ds) ∧ v = NumLit.fractionValue f ∧
      s.RunTo p (NumLit.fractionChars f) (fraction s p).pos (s.after (fraction s p).pos) := by
  obtain ⟨o, ho, hk, hpos⟩ := Scan.bind_ok h
  have hpos' : (fraction s p).pos = (s.choice [(.fractionDigits, fractionDigits s)] p).pos :=
    hpos.trans (by cases o <;> rfl)
  rw [hpos']
  rw [Scan.optional_apply, Step.optional_out] at ho
  cases o with
  | none =>
    obtain ⟨e, he⟩ := Step.recover_eq_none ho
    have hv : NumLit.fractionValue none = v := Except.ok.inj hk
    refine ⟨none, by simp, hv.symm, ?_⟩
    rw [Source.choice_one_mismatch_pos hp he]
    exact Source.RunTo.gap hs hp
  | some t =>
    have ht := Step.recover_eq_some ho
    obtain ⟨cs, ⟨ds, hds, rfl, rfl⟩, hrun⟩ := choice_one_sound
      (Q := fun cs => ∃ ds, Digits ds ∧ cs = '.' :: ds ∧ t = String.ofList ('.' :: ds)) hs hp ht
      (fun q hq hx => by
        obtain ⟨ds, hds, rfl, hrun⟩ := fractionDigits_sound hs hq hx
        exact ⟨'.' :: ds, ⟨ds, hds, rfl, rfl⟩, hrun⟩)
    have hv : Number.float (Numeral.readFraction ((String.ofList ('.' :: ds)).toList.drop 1)) = v :=
      Except.ok.inj hk
    refine ⟨some ds, by simpa using hds, ?_, hrun⟩
    rw [← hv]
    simp [NumLit.fractionValue]

/-! ## Exponents -/

theorem segments_sign : segments "+-".toList = .ok [.single '+', .single '-'] := rfl

theorem segments_mark : segments "eE".toList = .ok [.single 'e', .single 'E'] := rfl

theorem sign_text_minus (sg : Option Char) :
    (String.ofList sg.toList == "-") = decide (sg = some '-') := by
  cases sg with
  | none => decide
  | some c =>
    simp only [Option.toList_some, Option.some.injEq]
    by_cases h : c = '-'
    · subst h
      decide
    · rw [decide_eq_false h, beq_eq_false_iff_ne]
      intro h'
      apply h
      simpa using congrArg String.toList h'

/-- A choice of the sign reads the sign of a run, or nothing before a digit. -/
theorem choice_sign_of_runTo (hs : s.dialect = .json) (hp : -1 ≤ p) {sg : Option Char}
    (hsg : ∀ c ∈ sg, c = '+' ∨ c = '-') {m : Int} (h : s.RunTo p sg.toList m (s.after m))
    (hr : ∀ c ∈ (s.after m).head?, c ≠ '+' ∧ c ≠ '-') :
    (s.choice [(.sign, sign s)] p).out = .ok (String.ofList sg.toList) ∧
      (s.choice [(.sign, sign s)] p).pos = m := by
  have hq := Int.le_trans hp (s.skipBlank p).le
  cases sg with
  | none =>
    have hskip := h.skip hs hp (by simp [SolidChars])
    have hqm : (s.skipBlank p).pos = m := hskip.eq_of_solid (Source.solid_skipBlank hs hp)
    have hfail : ∀ c ∈ (s.after (s.skipBlank p).pos).head?,
        classContains [.single '+', .single '-'] c = false := by
      rw [hqm]
      intro c hc
      simpa [classContains, Segment.contains] using hr c hc
    obtain ⟨e, he, -⟩ := Source.char_fail segments_sign hq hfail
    have hx : ((s.char (some "+-")).optional (s.skipBlank p).pos).out = .ok none ∧
        ((s.char (some "+-")).optional (s.skipBlank p).pos).pos = (s.skipBlank p).pos := by
      rw [Scan.optional_apply, Step.optional_out, Step.optional_pos, he]
      exact ⟨rfl, Source.char_error_pos he⟩
    have hsign : (sign s (s.skipBlank p).pos).out = .ok "" ∧
        (sign s (s.skipBlank p).pos).pos = (s.skipBlank p).pos :=
      Scan.bind_ends_as hx.1 hx.2 ⟨rfl, rfl⟩
    obtain ⟨h1, h2⟩ := Source.choice_one_of_ok (r := .sign) hp hsign.1
    exact ⟨h1, by rw [h2, hsign.2, Source.skipBlank_idem hs hp, hqm]⟩
  | some c =>
    have hc : c = '+' ∨ c = '-' := hsg c rfl
    have hcs : SolidChars [c] := by
      intro c' hc'
      simp only [List.mem_singleton] at hc'
      subst hc'
      rcases hc with rfl | rfl <;> exact ⟨by decide, by decide⟩
    obtain ⟨hhead, hrest⟩ := (h.skip hs hp hcs).uncons hq (Source.solid_skipBlank hs hp)
    obtain ⟨h1, h1pos⟩ := Source.char_mem segments_sign hq hhead
      (by rcases hc with rfl | rfl <;> decide)
    have hx : ((s.char (some "+-")).optional (s.skipBlank p).pos).out = .ok (some c) := by
      rw [Scan.optional_apply, Step.optional_out, h1]; rfl
    have hsign : (sign s (s.skipBlank p).pos).out = .ok (String.singleton c) ∧
        (sign s (s.skipBlank p).pos).pos = (s.skipBlank p).pos + 1 :=
      Scan.bind_ends_as hx h1pos ⟨rfl, rfl⟩
    obtain ⟨h2, h3⟩ := Source.choice_one_of_ok (r := .sign) hp hsign.1
    have hskip := hrest.skip hs (by omega) (by simp [SolidChars])
    refine ⟨h2.trans (congrArg Except.ok (String.toList_inj.1 (by simp))), ?_⟩
    rw [h3, hsign.2]
    exact hskip.eq_of_solid (Source.solid_skipBlank hs (by omega))

theorem choice_sign_sound (hs : s.dialect = .json) (hp : -1 ≤ p) {v : String}
    (h : (s.choice [(.sign, sign s)] p).out = .ok v) :
    ∃ sg : Option Char, (∀ c ∈ sg, c = '+' ∨ c = '-') ∧ v = String.ofList sg.toList ∧
      s.RunTo p sg.toList (s.choice [(.sign, sign s)] p).pos
        (s.after (s.choice [(.sign, sign s)] p).pos) := by
  have hq := Int.le_trans hp (s.skipBlank p).le
  obtain ⟨h1, h2⟩ := Source.choice_one_ok hp h
  rw [h2]
  obtain ⟨o, ho, hk, hpos⟩ := Scan.bind_ok h1
  rw [Scan.optional_apply, Step.optional_out] at ho
  cases o with
  | none =>
    obtain ⟨e, he⟩ := Step.recover_eq_none ho
    have hv : "" = v := Except.ok.inj hk
    have hstay : (sign s (s.skipBlank p).pos).pos = (s.skipBlank p).pos :=
      hpos.trans (Source.char_error_pos he)
    refine ⟨none, by simp, by rw [← hv]; rfl, ?_⟩
    rw [hstay, Source.skipBlank_idem hs hp]
    exact Source.RunTo.gap hs hp
  | some c =>
    have hc := Step.recover_eq_some ho
    obtain ⟨hcpos, hhead, hcls⟩ := Source.char_sound hq hc
    have hpm : c = '+' ∨ c = '-' := by
      simpa [classContains, Segment.contains] using hcls "+-" _ rfl segments_sign
    have hv : String.singleton c = v := Except.ok.inj hk
    have hend : (sign s (s.skipBlank p).pos).pos = (s.skipBlank p).pos + 1 := hpos.trans hcpos
    refine ⟨some c, by simpa using hpm, by rw [← hv]; exact String.toList_inj.1 (by simp), ?_⟩
    rw [hend]
    exact Source.RunTo.skip_before hs hp (.cons hhead (Source.RunTo.gap hs (by omega)))

theorem solidChars_exponent {x : Exponent} (hx : x.Valid) : SolidChars x.chars := by
  obtain ⟨hmark, hsg, hds⟩ := hx
  intro c hc
  simp only [Exponent.chars, List.cons_append, List.mem_cons, List.mem_append] at hc
  rcases hc with rfl | hc | hc
  · rcases hmark with h | h <;> rw [h] <;> exact ⟨by decide, by decide⟩
  · have := hsg c (by simpa using hc)
    rcases this with rfl | rfl <;> exact ⟨by decide, by decide⟩
  · exact SolidChars.of_digits hds.2 c hc

theorem exponentDigits_of_runTo (hs : s.dialect = .json) (hp : -1 ≤ p) {x : Exponent}
    (hx : x.Valid) {e : Int} {r : List Char} (h : s.RunTo p x.chars e r) (hsol : Solid (s.after p))
    (hr : NoDigit r) :
    (exponentDigits s p).out = x.value.mapError .fault ∧ (exponentDigits s p).pos = e := by
  obtain ⟨hmark, hsg, hds⟩ := hx
  have hmk : classContains [.single 'e', .single 'E'] x.mark = true := by
    rcases hmark with h | h <;> simp [h, classContains, Segment.contains]
  change s.RunTo p (x.mark :: (x.sign.toList ++ x.digits)) e r at h
  obtain ⟨hhead, hrest⟩ := h.uncons hp hsol
  obtain ⟨hm, hmpos⟩ := Source.char_mem segments_mark hp hhead hmk
  obtain ⟨m, hsgrun, hdrun⟩ := hrest.split (by omega) (SolidChars.of_digits hds.2)
  have hm1 : -1 ≤ m := Int.le_trans (by omega) hsgrun.le
  -- the digits start right where the sign ends
  obtain ⟨d, ds, hdd⟩ := List.exists_cons_of_ne_nil hds.1
  rw [hdd] at hdrun
  have hdig : ∀ c ∈ d :: ds, c.isDigit = true := hdd ▸ hds.2
  obtain ⟨hmhead, -⟩ := hdrun.uncons hm1 hsgrun.solid
  have hnotsign : ∀ c ∈ (s.after m).head?, c ≠ '+' ∧ c ≠ '-' := by
    rw [hmhead]
    intro c hc
    simp only [List.head?_cons, Option.mem_def, Option.some.injEq] at hc
    have hd : c.isDigit = true := hc ▸ hdig d List.mem_cons_self
    exact ⟨fun h => absurd (h ▸ hd) (by decide), fun h => absurd (h ▸ hd) (by decide)⟩
  obtain ⟨h2, h2pos⟩ := choice_sign_of_runTo hs (by omega) hsg hsgrun hnotsign
  obtain ⟨h3, h3pos⟩ := choice_one_runTo (l := .digits) hs hm1 hdrun (SolidChars.of_digits hdig)
    (fun q hq hrun _ => digits_of_runTo hs hq hrun hdig hr)
  obtain ⟨h4, h4pos⟩ := Scan.ofExcept_bind_pure (Numeral.readInteger (String.ofList (d :: ds)))
    (fun n => if (String.ofList x.sign.toList == "-") = true then -n else n) e
  refine Scan.bind_ends_as hm hmpos (Scan.bind_ends_as h2 h2pos
    (Scan.bind_ends_as h3 h3pos ⟨h4.trans ?_, h4pos⟩))
  simp only [Exponent.value, hdd, sign_text_minus, decide_eq_true_eq]

theorem exponentDigits_fail (hp : -1 ≤ p) (hr : ∀ c ∈ (s.after p).head?, c ≠ 'e' ∧ c ≠ 'E') :
    (exponentDigits s p).Mismatched :=
  Scan.bind_mismatched (Source.char_fail segments_mark hp (fun c hc => by
    simpa [classContains, Segment.contains] using hr c hc))

theorem exponentDigits_sound (hs : s.dialect = .json) (hp : -1 ≤ p) {n : Int}
    (h : (exponentDigits s p).out = .ok n) :
    ∃ x : Exponent, x.Valid ∧ x.value = .ok n ∧
      s.RunTo p x.chars (exponentDigits s p).pos (s.after (exponentDigits s p).pos) := by
  obtain ⟨mk, h1, hk, hpos⟩ := Scan.bind_ok h
  obtain ⟨h1pos, hhead, hcls⟩ := Source.char_sound hp h1
  have hmk : mk = 'e' ∨ mk = 'E' := by
    simpa [classContains, Segment.contains] using hcls "eE" _ rfl segments_mark
  obtain ⟨sgs, h2, hk2, hpos2⟩ := Scan.bind_ok hk
  have hq1 : -1 ≤ (s.char (some "eE") p).pos := by rw [h1pos]; omega
  obtain ⟨sg, hsg, rfl, hrun2⟩ := choice_sign_sound hs hq1 h2
  obtain ⟨dstr, h3, hk3, hpos3⟩ := Scan.bind_ok hk2
  have hq2 := Int.le_trans hq1 (s.choice [(.sign, sign s)] (s.char (some "eE") p).pos).le
  obtain ⟨ds, ⟨hne, hds, rfl⟩, hrun3⟩ := choice_one_sound
    (Q := fun ds => ds ≠ [] ∧ (∀ c ∈ ds, c.isDigit = true) ∧ dstr = String.ofList ds) hs hq2 h3
    (fun q hq hx => by
      obtain ⟨ds, hne, hds, -, hrun, rfl⟩ := digits_sound hs hq hx
      exact ⟨ds, ⟨hne, hds, rfl⟩, hrun⟩)
  obtain ⟨h4, h4pos⟩ := Scan.ofExcept_bind_pure (Numeral.readInteger (String.ofList ds))
    (fun n => if (String.ofList sg.toList == "-") = true then -n else n)
    (s.choice [(.digits, digits s)] (s.choice [(.sign, sign s)] (s.char (some "eE") p).pos).pos).pos
  rw [h4] at hk3
  refine ⟨⟨mk, sg, ds⟩, ⟨hmk, hsg, hne, hds⟩, ?_, ?_⟩
  · cases hi : Numeral.readInteger (String.ofList ds) with
    | error f =>
      rw [hi] at hk3
      cases hk3
    | ok i =>
      rw [hi] at hk3
      have hv := Except.ok.inj hk3
      simp only [sign_text_minus, decide_eq_true_eq] at hv
      simp only [Exponent.value, hi]
      rw [← hv]
      rfl
  · have hpos' : (exponentDigits s p).pos =
        (s.choice [(.digits, digits s)] (s.choice [(.sign, sign s)] (s.char (some "eE") p).pos).pos).pos :=
      hpos.trans (hpos2.trans (hpos3.trans h4pos))
    rw [hpos']
    rw [h1pos] at hrun2 hrun3 ⊢
    exact .cons hhead (hrun2.append hrun3)

theorem exponent_of_runTo (hs : s.dialect = .json) (hp : -1 ≤ p) {x : Option Exponent}
    (hx : ∀ y ∈ x, y.Valid) {e : Int} {r : List Char} (h : s.RunTo p (NumLit.exponentChars x) e r)
    (hr : ∀ c ∈ r.head?, c.isDigit = false ∧ c ≠ 'e' ∧ c ≠ 'E') :
    (exponent s p).out = (NumLit.exponentValue x).mapError .fault ∧
      ∀ n, NumLit.exponentValue x = .ok n → (exponent s p).pos = e := by
  have hq := Int.le_trans hp (s.skipBlank p).le
  cases x with
  | none =>
    change s.RunTo p [] e r at h
    have hskip := h.skip hs hp (by simp [SolidChars])
    have hqe : (s.skipBlank p).pos = e := hskip.eq_of_solid (Source.solid_skipBlank hs hp)
    have hm : (exponentDigits s (s.skipBlank p).pos).Mismatched := by
      refine exponentDigits_fail hq ?_
      rw [hqe, hskip.after_end hq]
      exact fun c hc => (hr c hc).2
    obtain ⟨⟨e', he', -⟩, hpos⟩ := Source.choice_one_of_mismatched (r := .exponentDigits) hp hm
    have hx : ((s.choice [(.exponentDigits, exponentDigits s)]).optional p).out = .ok none := by
      rw [Scan.optional_apply, Step.optional_out, he']; rfl
    obtain ⟨h1, h2⟩ : (exponent s p).out = .ok 0 ∧ (exponent s p).pos = e :=
      Scan.bind_ends_as hx (hpos.trans hqe) ⟨rfl, rfl⟩
    exact ⟨h1, fun _ _ => h2⟩
  | some y =>
    change s.RunTo p y.chars e r at h
    have hy := hx y rfl
    have hrun := h.skip hs hp (solidChars_exponent hy)
    obtain ⟨hd1, hd2⟩ := exponentDigits_of_runTo hs hq hy hrun (Source.solid_skipBlank hs hp)
      (fun c hc => (hr c hc).1)
    cases hv : y.value with
    | error f =>
      rw [hv] at hd1
      have hc := Source.choice_one_of_fault (r := .exponentDigits) hp hd1
      have hx : ((s.choice [(.exponentDigits, exponentDigits s)]).optional p).out =
          .error (.fault f) := by
        rw [Scan.optional_apply, Step.optional_out, hc]; rfl
      have h3 : (exponent s p).out = .error (.fault f) := Scan.bind_of_error hx
      refine ⟨by rw [h3]; simp only [NumLit.exponentValue, hv]; rfl, fun n hn => ?_⟩
      simp only [NumLit.exponentValue, hv] at hn
      cases hn
    | ok n =>
      rw [hv] at hd1
      obtain ⟨h1, h2⟩ := choice_one_runTo (l := .exponentDigits) hs hp h (solidChars_exponent hy)
        (fun q hq' hrun' hsol => by
          obtain ⟨o1, o2⟩ := exponentDigits_of_runTo hs hq' hy hrun' hsol (fun c hc => (hr c hc).1)
          rw [hv] at o1
          exact ⟨o1, o2⟩)
      have hx : ((s.choice [(.exponentDigits, exponentDigits s)]).optional p).out = .ok (some n) := by
        rw [Scan.optional_apply, Step.optional_out, h1]; rfl
      obtain ⟨h3, h4⟩ : (exponent s p).out = .ok n ∧ (exponent s p).pos = e :=
        Scan.bind_ends_as hx h2 ⟨rfl, rfl⟩
      refine ⟨by rw [h3]; simp only [NumLit.exponentValue, hv]; rfl, fun _ _ => h4⟩

theorem exponent_sound (hs : s.dialect = .json) (hp : -1 ≤ p) {n : Int}
    (h : (exponent s p).out = .ok n) :
    ∃ x, (∀ y ∈ x, Exponent.Valid y) ∧ NumLit.exponentValue x = .ok n ∧
      s.RunTo p (NumLit.exponentChars x) (exponent s p).pos (s.after (exponent s p).pos) := by
  obtain ⟨o, ho, hk, hpos⟩ := Scan.bind_ok h
  have hpos' : (exponent s p).pos = (s.choice [(.exponentDigits, exponentDigits s)] p).pos :=
    hpos.trans (by cases o <;> rfl)
  rw [hpos']
  rw [Scan.optional_apply, Step.optional_out] at ho
  cases o with
  | none =>
    obtain ⟨e, he⟩ := Step.recover_eq_none ho
    have hv : (0 : Int) = n := Except.ok.inj hk
    refine ⟨none, by simp, by rw [← hv]; rfl, ?_⟩
    rw [Source.choice_one_mismatch_pos hp he]
    exact Source.RunTo.gap hs hp
  | some m =>
    have hm := Step.recover_eq_some ho
    have hv : m = n := Except.ok.inj hk
    subst hv
    obtain ⟨cs, ⟨y, hy, rfl, hval⟩, hrun⟩ := choice_one_sound
      (Q := fun cs => ∃ y : Exponent, y.Valid ∧ cs = y.chars ∧ y.value = .ok m) hs hp hm
      (fun q hq hx => by
        obtain ⟨y, hy, hval, hrun⟩ := exponentDigits_sound hs hq hx
        exact ⟨y.chars, ⟨y, hy, rfl, hval⟩, hrun⟩)
    exact ⟨some y, by simpa using hy, hval, hrun⟩

/-! ### Number literals -/

/-- Text that cannot continue a number literal: no digit, point or exponent mark comes first. -/
def NumberFollow (r : List Char) : Prop :=
  ∀ c ∈ r.head?, c.isDigit = false ∧ c ≠ '.' ∧ c ≠ 'e' ∧ c ≠ 'E'

theorem solidChars_fractionChars {f : Option (List Char)} (hf : ∀ ds ∈ f, Digits ds) :
    SolidChars (NumLit.fractionChars f) := by
  cases f with
  | none => simp [NumLit.fractionChars, SolidChars]
  | some ds => exact solidChars_fraction (hf ds rfl)

theorem solidChars_exponentChars {x : Option Exponent} (hx : ∀ y ∈ x, y.Valid) :
    SolidChars (NumLit.exponentChars x) := by
  cases x with
  | none => simp [NumLit.exponentChars, SolidChars]
  | some y => exact solidChars_exponent (hx y rfl)

/-- An exponent, or the end of the literal, cannot continue a fraction. -/
theorem exponentChars_follow {x : Option Exponent} (hx : ∀ y ∈ x, y.Valid) {r : List Char}
    (hr : NumberFollow r) :
    ∀ c ∈ (NumLit.exponentChars x ++ r).head?, c.isDigit = false ∧ c ≠ '.' := by
  intro c hc
  cases x with
  | none => exact ⟨(hr c hc).1, (hr c hc).2.1⟩
  | some y =>
    simp only [NumLit.exponentChars, Exponent.chars, List.cons_append, List.head?_cons,
      Option.mem_def, Option.some.injEq] at hc
    subst hc
    rcases (hx y rfl).1 with h | h <;> rw [h] <;> exact ⟨by decide, by decide⟩

/-- A fraction, or what may follow one, cannot continue the integer part. -/
theorem fractionChars_follow {f : Option (List Char)} {r : List Char}
    (hr : ∀ c ∈ r.head?, c.isDigit = false ∧ c ≠ '.') : NoDigit (NumLit.fractionChars f ++ r) := by
  intro c hc
  cases f with
  | none => exact (hr c hc).1
  | some ds =>
    simp only [NumLit.fractionChars, List.cons_append, List.head?_cons, Option.mem_def,
      Option.some.injEq] at hc
    subst hc
    rfl

/-- A number literal followed by what cannot continue it reads as the literal's value, or fails
with the fault its evaluation meets. -/
theorem number_of_runTo (hs : s.dialect = .json) (hp : -1 ≤ p) {n : NumLit} (hn : n.Valid)
    {e : Int} {r : List Char} (h : s.RunTo p n.chars e r) (hr : NumberFollow r) :
    (number s p).out = n.eval.mapError .fault ∧ ∀ v, n.eval = .ok v → (number s p).pos = e := by
  have hc2 := solidChars_fractionChars hn.fraction
  have hc3 := solidChars_exponentChars hn.exponent
  obtain ⟨m2, h12, h3⟩ := h.split hp hc3
  obtain ⟨m1, h1, h2⟩ := h12.split hp hc2
  have h1' : s.RunTo p (signed n.negative n.whole) m1 (s.after m1) := h1
  have hm1 : -1 ≤ m1 := Int.le_trans hp h1.le
  have hm2 : -1 ≤ m2 := Int.le_trans hm1 h2.le
  -- what follows each part, seen from where the part ends
  have hr2 : ∀ c ∈ (s.after m2).head?, c.isDigit = false ∧ c ≠ '.' := by
    rw [h3.head hm2 h2.solid]
    exact exponentChars_follow hn.exponent hr
  have hr1 : NoDigit (s.after m1) := by
    intro c hc
    rw [h2.head hm1 h1.solid] at hc
    exact fractionChars_follow hr2 c hc
  have hr3 : ∀ c ∈ r.head?, c.isDigit = false ∧ c ≠ 'e' ∧ c ≠ 'E' :=
    fun c hc => ⟨(hr c hc).1, (hr c hc).2.2⟩
  have hwhole : n.wholeChars = signed n.negative n.whole := rfl
  cases hint : Numeral.readInteger (String.ofList (signed n.negative n.whole)) with
  | error f =>
    have hq := Int.le_trans hp (s.skipBlank p).le
    have hx := (integer_of_runTo hs hq hn.whole (h1'.skip hs hp (solidChars_signed hn.whole)) hr1).1
    rw [hint] at hx
    have hout : (number s p).out = .error (.fault f) :=
      Scan.bind_of_error (Source.choice_one_of_fault (r := .integer) hp hx)
    have hev : n.eval = .error f := by
      simp only [NumLit.eval, hwhole, hint]
      rfl
    rw [hev, hout]
    exact ⟨rfl, fun v hv => nomatch hv⟩
  | ok i =>
    obtain ⟨o1, p1⟩ := choice_one_runTo (l := .integer) hs hp h1' (solidChars_signed hn.whole)
      (fun q hq hrun _ => by
        obtain ⟨a, b⟩ := integer_of_runTo hs hq hn.whole hrun hr1
        rw [hint] at a
        exact ⟨a, b⟩)
    obtain ⟨o2, p2⟩ := choice_one_runTo (l := .fraction) hs hm1 h2 hc2
      (fun q hq hrun _ => fraction_of_runTo hs hq hn.fraction hrun hr2)
    cases hexp : NumLit.exponentValue n.exponent with
    | error f =>
      have hq2 := Int.le_trans hm2 (s.skipBlank m2).le
      have hx := (exponent_of_runTo hs hq2 hn.exponent (h3.skip hs hm2 hc3) hr3).1
      rw [hexp] at hx
      have hout : (number s p).out = .error (.fault f) := by
        refine (Scan.bind_out o1 p1).trans ((Scan.bind_out o2 p2).trans ?_)
        exact Scan.bind_of_error (Source.choice_one_of_fault (r := .exponent) hm2 hx)
      have hev : n.eval = .error f := by
        simp only [NumLit.eval, hwhole, hint, hexp]
        rfl
      rw [hev, hout]
      exact ⟨rfl, fun v hv => nomatch hv⟩
    | ok x =>
      obtain ⟨o3, p3⟩ := choice_one_runTo (l := .exponent) hs hm2 h3 hc3
        (fun q hq hrun _ => by
          obtain ⟨a, b⟩ := exponent_of_runTo hs hq hn.exponent hrun hr3
          rw [hexp] at a
          exact ⟨a, b x hexp⟩)
      have hev : n.eval = Number.ofParts i (NumLit.fractionValue n.fraction) x := by
        simp only [NumLit.eval, hwhole, hint, hexp]
        rfl
      obtain ⟨hout, hpos⟩ : (number s p).out =
          (Number.ofParts i (NumLit.fractionValue n.fraction) x).mapError .fault ∧
          (number s p).pos = e :=
        Scan.bind_ends_as o1 p1 (Scan.bind_ends_as o2 p2
          (Scan.bind_ends_as o3 p3 ⟨Scan.ofExcept_out _ _, Scan.ofExcept_pos _ _⟩))
      rw [hev]
      exact ⟨hout, fun _ _ => hpos⟩

/-- A number that reads is the value of a valid literal, which runs to where the reading stopped. -/
theorem number_sound (hs : s.dialect = .json) (hp : -1 ≤ p) {v : Number}
    (h : (number s p).out = .ok v) :
    ∃ n : NumLit, n.Valid ∧ n.eval = .ok v ∧
      s.RunTo p n.chars (number s p).pos (s.after (number s p).pos) := by
  obtain ⟨i, h1, hk1, hpos1⟩ := Scan.bind_ok h
  obtain ⟨fv, h2, hk2, hpos2⟩ := Scan.bind_ok hk1
  obtain ⟨x, h3, hk3, hpos3⟩ := Scan.bind_ok hk2
  obtain ⟨-, ⟨neg, whole, hw, hint, rfl⟩, hrun1⟩ := choice_one_sound
    (Q := fun cs => ∃ neg whole, NumLit.WholeDigits whole ∧
      Numeral.readInteger (String.ofList (signed neg whole)) = .ok i ∧ cs = signed neg whole)
    hs hp h1 (fun q hq hx => by
      obtain ⟨neg, whole, hw, hint, hrun⟩ := integer_sound hs hq hx
      exact ⟨_, ⟨neg, whole, hw, hint, rfl⟩, hrun⟩)
  have hq1 := Int.le_trans hp (s.choice [(.integer, integer s)] p).le
  obtain ⟨-, ⟨f, hf, rfl, rfl⟩, hrun2⟩ := choice_one_sound
    (Q := fun cs => ∃ f, (∀ ds ∈ f, Digits ds) ∧ fv = NumLit.fractionValue f ∧
      cs = NumLit.fractionChars f)
    hs hq1 h2 (fun q hq hx => by
      obtain ⟨f, hf, hv, hrun⟩ := fraction_sound hs hq hx
      exact ⟨_, ⟨f, hf, hv, rfl⟩, hrun⟩)
  have hq2 := Int.le_trans hq1 (s.choice [(.fraction, fraction s)]
    (s.choice [(.integer, integer s)] p).pos).le
  obtain ⟨-, ⟨y, hy, hexp, rfl⟩, hrun3⟩ := choice_one_sound
    (Q := fun cs => ∃ y, (∀ z ∈ y, Exponent.Valid z) ∧ NumLit.exponentValue y = .ok x ∧
      cs = NumLit.exponentChars y)
    hs hq2 h3 (fun q hq hx => by
      obtain ⟨y, hy, hv, hrun⟩ := exponent_sound hs hq hx
      exact ⟨_, ⟨y, hy, hv, rfl⟩, hrun⟩)
  refine ⟨⟨neg, whole, f, y⟩, ⟨hw, hf, hy⟩, ?_, ?_⟩
  · have hwhole : NumLit.wholeChars ⟨neg, whole, f, y⟩ = signed neg whole := rfl
    simp only [NumLit.eval, hwhole, hint, hexp]
    exact Scan.ofExcept_eq_ok hk3
  · have hpos : (number s p).pos = (s.choice [(.exponent, exponent s)]
        (s.choice [(.fraction, fraction s)] (s.choice [(.integer, integer s)] p).pos).pos).pos :=
      hpos1.trans (hpos2.trans (hpos3.trans (Scan.ofExcept_pos _ _)))
    rw [hpos]
    exact (hrun1.append hrun2).append hrun3

end Grammar

end LaxJson
