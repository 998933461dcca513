import LaxJson.Proofs.Tokens
import LaxJson.Grammar.Document
import LaxJson.Cli
/-!
# How a parse fails

A parse that gives no value stops with a syntax error or with a fault. The syntax errors name a
position of the text. The faults are those of numbers (too many digits, a double out of range)
and two that come of slips in the scanner: an ordered choice whose only furthest failure lay at
-1 loses it (`lostFailure`), which happens only in a text of one character, and a character is
looked up past the end (`indexOutOfRange`), which happens only in the empty text and in a text
that ends in a raw control character or in a backslash and one more character. A malformed
character class and a missing rule never stop a parse.

`Failure.Possible s` says which failures a scan of `s` can meet, and `Scan.Safe` that a scan
meets no others. Safety is shown once for each primitive and each way of combining scans, the
ordered choice through its bookkeeping `Standing.Fair`, and then rule by rule up the grammar.
The main statement is `parse_fails_only_as`; `Transcript.abort_cases` says what it means for
the command line.
-/

set_option autoImplicit false
namespace LaxJson

/-- The source ends in a raw control character, or in a backslash and one more character. -/
def Source.EndsInSlip (s : Source) : Prop :=
  (∃ c, s.get? s.last = some c ∧ Unicode.isControl c.toNat = true) ∨
    (1 ≤ s.last ∧ s.get? (s.last - 1) = some '\\')

/-- The faults of reading a number. -/
def Fault.OfNumber : Fault → Prop
  | .powerOverflow | .floatOverflow | .tooManyDigits _ => True
  | _ => False

/-- The failures a scan of `s` can meet: a syntax error at a position of the text, or at -1 in a
text of one character; the lost failure in a text of one character; the index fault in the empty
text or one that ends in a slip; and the faults of numbers. -/
def Failure.Possible (s : Source) : Failure → Prop
  | .mismatch e => -1 ≤ e.pos ∧ (e.pos = -1 → s.last = 0)
  | .fault .lostFailure => s.last = 0
  | .fault .indexOutOfRange => s.last = -1 ∨ s.EndsInSlip
  | .fault f => f.OfNumber

section Safety

variable {s : Source} {p q : Int} {α β : Type}

/-- Every failure of the step is one its source can meet. -/
def Step.Safe (s : Source) (x : Step p α) : Prop := ∀ f, x.out = .error f → f.Possible s

/-- From every cursor on, the scan meets only failures its source can meet. -/
def Scan.Safe (s : Source) (m : Scan α) : Prop := ∀ p, -1 ≤ p → (m p).Safe s

theorem Failure.possible_of_pos {e : SyntaxError} (h : 0 ≤ e.pos) :
    (Failure.mismatch e).Possible s :=
  ⟨by omega, fun h' => by omega⟩

theorem Failure.possible_of_number {f : Fault} (h : f.OfNumber) : (Failure.fault f).Possible s := by
  cases f <;> first | exact h | exact absurd h id

theorem Source.last_ge (s : Source) : -1 ≤ s.last := by
  unfold Source.last
  omega

theorem Source.last_nonneg_of_get? {i : Int} {c : Char} (h : s.get? i = some c) : 0 ≤ s.last := by
  have key : ∀ j : Int, (if 0 ≤ j then s.chars[j.toNat]? else none) = some c → 0 ≤ s.last := by
    intro j hj
    split at hj
    · obtain ⟨hlt, -⟩ := Array.getElem?_eq_some_iff.1 hj
      unfold Source.last
      omega
    · cases hj
  exact key _ h

/-! ## Steps and their combinations -/

namespace Step

theorem safe_ok (a : α) : (Step.ok p a).Safe s := by
  intro f hf
  cases hf

theorem safe_fail {f : Failure} (h : f.Possible s) : (Step.fail p f : Step p α).Safe s := by
  intro f' hf
  cases hf
  exact h

theorem Safe.after {x : Step q α} (hx : x.Safe s) (h : p ≤ q) : (x.after h).Safe s := hx

theorem Safe.map {x : Step p α} (hx : x.Safe s) (f : α → β) : (x.map f).Safe s := by
  intro g hg
  cases hout : x.out with
  | ok a => rw [map_out, hout] at hg; cases hg
  | error g' =>
    simp only [map_out, hout, Except.map, Except.error.injEq] at hg
    subst hg
    exact hx _ hout

theorem Safe.optional {x : Step p α} (hx : x.Safe s) : x.optional.Safe s := by
  intro g hg
  obtain ⟨g', rfl, hout⟩ := recover_eq_error hg
  exact hx _ hout

theorem Safe.andThen {x : Step p α} {k : (a : α) → x.out = .ok a → Step x.pos β}
    (hx : x.Safe s) (hk : ∀ a h, (k a h).Safe s) : (x.andThen k).Safe s := by
  intro f hf
  rcases andThen_error hf with ⟨h1, -⟩ | ⟨a, ha, h2, -⟩
  · exact hx f h1
  · exact hk a ha f h2

end Step

namespace Scan

theorem safe_pure (a : α) : (pure a : Scan α).Safe s := fun _ _ => Step.safe_ok a

theorem Safe.bind {x : Scan α} {k : α → Scan β} (hx : x.Safe s) (hk : ∀ a, (k a).Safe s) :
    (x >>= k).Safe s := by
  intro p hp
  rw [bind_apply]
  exact (hx p hp).andThen fun a _ => hk a _ (Int.le_trans hp (x p).le)

theorem Safe.map {x : Scan α} (hx : x.Safe s) (f : α → β) : (f <$> x).Safe s := by
  intro p hp
  rw [map_apply]
  exact (hx p hp).andThen fun _ _ => Step.safe_ok _

theorem Safe.optional {x : Scan α} (hx : x.Safe s) : x.optional.Safe s :=
  fun p hp => (hx p hp).optional

theorem safe_ofExcept {v : Except Fault α} (h : ∀ f, v = .error f → f.OfNumber) :
    (ofExcept v).Safe s := by
  cases v with
  | ok a => exact safe_pure a
  | error f => exact fun p _ => Step.safe_fail (Failure.possible_of_number (h f rfl))

end Scan

/-! ## The primitive scans -/

namespace Source

theorem skipBlankFrom_safe (b : Bool) (hp : -1 ≤ p) : (s.skipBlankFrom b p).Safe s := by
  intro f hf
  rw [skipBlankFrom_ok b hp] at hf
  cases hf

theorem skipBlank_safe : s.skipBlank.Safe s := fun _ hp => skipBlankFrom_safe false hp

/-- A class that the scanner can read: its spec, if any, has no range out of order. -/
def WellFormed (spec : Option String) : Prop := ∀ sp, spec = some sp → ∃ segs, segments sp.toList = .ok segs

theorem nextIn?_possible {spec : Option String} (hspec : WellFormed spec) (hp : -1 ≤ p)
    {f : Failure} (h : s.nextIn? spec p = .error f) : f.Possible s := by
  rw [nextIn?_eq] at h
  split at h
  · cases h
    exact Failure.possible_of_pos (by show (0 : Int) ≤ p + 1; omega)
  · next hlt =>
    obtain ⟨c, hc⟩ := s.get?_isSome (i := p + 1) (by omega) (by omega) (by omega)
    simp only [hc] at h
    split at h
    · cases h
    · next sp =>
      obtain ⟨segs, hsegs⟩ := hspec sp rfl
      simp only [hsegs] at h
      split at h
      · cases h
      · simp only [Except.error.injEq] at h
        subst h
        exact Failure.possible_of_pos (by show (0 : Int) ≤ p + 1; omega)

theorem char_safe {spec : Option String} (hspec : WellFormed spec) : (s.char spec).Safe s := by
  intro p hp f hf
  unfold char Step.ofFound at hf
  split at hf
  · cases hf
  · next f' hn =>
    cases hf
    exact nextIn?_possible hspec hp hn

theorem keywordAt_possible {kws : List String} (hq : -1 ≤ q) {f : Failure}
    (h : s.keywordAt kws q = .error f) : f.Possible s := by
  unfold keywordAt at h
  split at h
  · cases h
    exact Failure.possible_of_pos (by show (0 : Int) ≤ q + 1; omega)
  · next hlt =>
    split at h
    · cases h
    · obtain ⟨c, hc⟩ := s.get?_isSome (i := q + 1) (by omega) (by omega) (by omega)
      simp only [hc, Except.error.injEq] at h
      subst h
      exact Failure.possible_of_pos (by show (0 : Int) ≤ q + 1; omega)

theorem keyword_safe (kws : List String) : (s.keyword kws).Safe s := by
  intro p hp
  unfold keyword
  refine (skipBlank_safe p hp).andThen fun _ _ => ?_
  have hb : -1 ≤ (s.skipBlank p).pos := Int.le_trans hp (s.skipBlank p).le
  split
  · exact ((skipBlank_safe _ (by omega)).map _).after _
  · next f hf => exact Step.safe_fail (keywordAt_possible hb hf)

theorem atEnd_safe : s.atEnd.Safe s := by
  intro p hp
  unfold atEnd
  split
  · next hlt =>
    obtain ⟨c, hc⟩ := s.get?_isSome (i := p + 1) (by omega) (by omega) (by omega)
    rw [hc]
    exact Step.safe_fail (Failure.possible_of_pos (by show (0 : Int) ≤ p + 1; omega))
  · exact Step.safe_ok ()

theorem atEnd_mismatch_pos (hp : -1 ≤ p) {e : SyntaxError}
    (h : (s.atEnd p).out = .error (.mismatch e)) : 0 ≤ e.pos := by
  unfold atEnd at h
  split at h
  · split at h
    · cases h
      show (0 : Int) ≤ p + 1
      omega
    · cases h
  · cases h

end Source

/-! ## The bookkeeping of a choice -/

namespace Standing

/-- The bookkeeping of a choice is fair: its furthest position is -1 or later, and -1 only
before anything failed or in a text of one character; it keeps an error exactly when something
failed beyond -1, and that error stands at the furthest position. -/
structure Fair (s : Source) (st : Standing) : Prop where
  pos_ge : -1 ≤ st.pos
  at_start : st.pos = -1 → st.rules = [] ∨ s.last = 0
  none_at_start : st.error = none → st.pos = -1
  kept : ∀ e, st.error = some e → e.pos = st.pos ∧ 0 ≤ e.pos
  rules_nil : st.rules = [] → st.pos = -1

theorem fair_start : start.Fair s :=
  ⟨by decide, fun _ => .inl rfl, fun _ => rfl, (fun _ h => nomatch h), fun _ => rfl⟩

variable {st : Standing} {r : Rule} {e : SyntaxError}

theorem Fair.record (h : st.Fair s) (he : (Failure.mismatch e).Possible s) :
    (st.record r e).Fair s := by
  obtain ⟨he1, he2⟩ := he
  unfold Standing.record
  split
  · -- a new furthest failure, beyond -1: its error is kept
    next hlt =>
    have := h.pos_ge
    refine ⟨by dsimp only; omega, fun h' => by dsimp only at h'; omega, (fun h' => nomatch h'),
      fun e' h' => ?_, (fun h' => nomatch h')⟩
    obtain rfl : e = e' := Option.some.inj h'
    exact ⟨rfl, by omega⟩
  · split
    · -- one more failure at the furthest position
      next hlt heq =>
      refine ⟨h.pos_ge, fun h' => .inr (he2 (by dsimp only at h'; omega)), h.none_at_start,
        h.kept, fun h' => by simp at h'⟩
    · exact h

theorem Fair.record_rules (h : st.Fair s) (he : (Failure.mismatch e).Possible s) :
    (st.record r e).rules ≠ [] := by
  obtain ⟨he1, -⟩ := he
  unfold Standing.record
  split
  · simp
  · split
    · simp
    · next hlt hne =>
      intro hnil
      have := h.rules_nil hnil
      omega

/-- A fair bookkeeping in which something failed gives a failure the source can meet. -/
theorem Fair.failure (h : st.Fair s) (hr : st.rules ≠ []) : (st.failure s).Possible s := by
  unfold Standing.failure
  split
  · -- one alternative failed furthest: its error, or the lost failure when it was at -1
    next r hone =>
    cases herr : st.error with
    | some e =>
      obtain ⟨-, he⟩ := h.kept e herr
      exact Failure.possible_of_pos he
    | none =>
      have hpos := h.none_at_start herr
      rcases h.at_start hpos with hnil | hlast
      · exact absurd (hone ▸ hnil) (by simp)
      · exact hlast
  · -- several failed furthest: a new error at the furthest position, moved off the end
    next hmany =>
    have hge := h.pos_ge
    dsimp only
    generalize hi : (if s.last ≤ st.pos then s.last - 1 else st.pos) = i
    have hat : 0 ≤ s.last → -1 ≤ i ∧ i ≤ s.last ∧ (i = -1 → s.last = 0) := by
      intro hl
      rw [← hi]
      split
      · omega
      · refine ⟨by omega, by omega, fun h' => ?_⟩
        rcases h.at_start h' with hnil | hlast
        · exact absurd hnil hr
        · exact hlast
    cases hc : s.get? i with
    | some c =>
      obtain ⟨h1, -, h3⟩ := hat (Source.last_nonneg_of_get? hc)
      exact ⟨h1, h3⟩
    | none =>
      -- every position the choice can name lies in a nonempty text
      refine Or.inl ?_
      have hl := s.last_ge
      by_cases hl0 : 0 ≤ s.last
      · obtain ⟨h1, h2, -⟩ := hat hl0
        obtain ⟨c, hc'⟩ := s.get?_isSome h1 h2 hl0
        rw [hc'] at hc
        cases hc
      · omega

/-- The first failure a choice records is kept when it lies beyond -1, and lost at -1. -/
theorem start_record_failure {e : SyntaxError} (he : -1 ≤ e.pos) (r : Rule) :
    (0 ≤ e.pos ∧ (start.record r e).failure s = .mismatch e) ∨
      (start.record r e).failure s = .fault .lostFailure := by
  by_cases hpos : (-1 : Int) < e.pos
  · exact .inl ⟨by omega, by simp [Standing.record, start, hpos, Standing.failure]⟩
  · have he1 : e.pos = -1 := by omega
    exact .inr (by simp [Standing.record, start, he1, Standing.failure])

end Standing

namespace Source

variable {alts : List (Rule × Alt p α)}

theorem tryAlts_safe (hq' : -1 ≤ q) {hq : p ≤ q} (halts : ∀ ra ∈ alts, (ra.2 q hq).Safe s)
    {st : Standing} (hst : st.Fair s) (hne : alts ≠ [] ∨ st.rules ≠ []) :
    (s.tryAlts q hq alts st).Safe s := by
  induction alts generalizing st with
  | nil =>
    exact Step.safe_fail (hst.failure (hne.resolve_left (fun h => h rfl)))
  | cons ra more ih =>
    obtain ⟨r, a⟩ := ra
    have ha := halts (r, a) List.mem_cons_self
    rcases hout : (a q hq).out with (e | f) | v
    · have he := ha _ hout
      rw [tryAlts_of_mismatch hout]
      exact ih (fun ra hra => halts ra (List.mem_cons_of_mem _ hra)) (hst.record he)
        (.inr (hst.record_rules he))
    · intro g hg
      rw [(tryAlts_of_fault hout).1] at hg
      cases hg
      exact ha _ hout
    · intro g hg
      rw [(tryAlts_of_ok (s := s) (r := r) (m := more) (σ := st) hout hq').1] at hg
      cases hg

/-- A choice meets only what its alternatives meet from where the gap before them ends, and what
its fair bookkeeping gives. -/
theorem choiceAt_safe (hp : -1 ≤ p)
    (halts : ∀ ra ∈ alts, (ra.2 (s.skipBlank p).pos (s.skipBlank p).le).Safe s)
    (hne : alts ≠ []) : (s.choiceAt p alts).Safe s := by
  unfold choiceAt
  exact (skipBlank_safe p hp).andThen fun _ _ =>
    tryAlts_safe (Int.le_trans hp (s.skipBlank p).le) halts Standing.fair_start (.inl hne)

theorem choice_safe {alts : List (Rule × Scan α)} (halts : ∀ ra ∈ alts, ra.2.Safe s)
    (hne : alts ≠ []) : (s.choice alts).Safe s := by
  intro p hp
  refine choiceAt_safe hp (fun ra hra => ?_) (by simpa using hne)
  obtain ⟨ra', hmem, rfl⟩ := List.mem_map.1 hra
  exact halts ra' hmem _ (Int.le_trans hp (s.skipBlank p).le)

theorem choice_one_safe {x : Scan α} {r : Rule} (hx : x.Safe s) : (s.choice [(r, x)]).Safe s :=
  choice_safe (fun ra hra => by rw [List.mem_singleton] at hra; subst hra; exact hx)
    (List.cons_ne_nil _ _)

theorem choiceAt_one_safe (hp : -1 ≤ p) {r : Rule} {a : Alt p α}
    (ha : (a (s.skipBlank p).pos (s.skipBlank p).le).Safe s) : (s.choiceAt p [(r, a)]).Safe s :=
  choiceAt_safe hp (fun ra hra => by rw [List.mem_singleton] at hra; subst hra; exact ha)
    (List.cons_ne_nil _ _)

/-- A choice of one alternative never names -1: a failure of its alternative there is lost. -/
theorem choice_one_mismatch_nonneg {x : Scan α} {r : Rule} (hx : x.Safe s) (hp : -1 ≤ p)
    {e : SyntaxError} (h : (s.choice [(r, x)] p).out = .error (.mismatch e)) : 0 ≤ e.pos := by
  have hq := Int.le_trans hp (s.skipBlank p).le
  obtain ⟨hout, -⟩ := choiceAt_eq (s := s) hp [(r, fun q _ => x q)]
  rcases hxo : (x (s.skipBlank p).pos).out with (e' | f) | v
  · obtain ⟨he', -⟩ := hx _ hq _ hxo
    rw [tryAlts_of_mismatch (a := fun q _ => x q) hxo] at hout
    have h' : (s.choiceAt p [(r, fun q _ => x q)]).out = .error (.mismatch e) := h
    rw [hout] at h'
    simp only [tryAlts] at h'
    rcases Standing.start_record_failure (s := s) he' r with ⟨h0, hf⟩ | hf
    · rw [hf] at h'
      cases h'
      exact h0
    · rw [hf] at h'
      cases h'
  · rw [choice_one_of_fault hp hxo] at h
    cases h
  · rw [(choice_one_of_ok (r := r) hp hxo).1] at h
    cases h

end Source

/-! ## Numbers -/

theorem Numeral.toDouble_fault {i : Int} {f : Fault} (h : Numeral.toDouble i = .error f) :
    f = .floatOverflow := by
  unfold Numeral.toDouble at h
  dsimp only at h
  split at h
  · exact (Except.error.inj h).symm
  · cases h

theorem Numeral.readInteger_fault {t : String} {f : Fault} (h : Numeral.readInteger t = .error f) :
    f.OfNumber := by
  unfold Numeral.readInteger at h
  split at h
  dsimp only at h
  split at h
  · cases h
    trivial
  · cases h

theorem Numeral.powerOfTen_fault {e : Int} {f : Fault} (h : Numeral.powerOfTen e = .error f) :
    f.OfNumber := by
  unfold Numeral.powerOfTen at h
  cases hd : Numeral.toDouble e with
  | error g =>
    simp only [hd, bind, Except.bind, Except.error.injEq] at h
    rw [← h, Numeral.toDouble_fault hd]
    trivial
  | ok x =>
    simp only [hd, bind, Except.bind] at h
    split at h
    · cases h
      trivial
    · split at h <;> cases h

/-- Combining the parts of a number fails only with the faults of numbers. -/
theorem Number.ofParts_fault {i : Int} {fr : Number} {e : Int} {f : Fault}
    (h : Number.ofParts i fr e = .error f) : f.OfNumber := by
  unfold Number.ofParts at h
  cases hs : Number.addInt i fr with
  | error g =>
    simp only [hs, bind, Except.bind, Except.error.injEq] at h
    subst h
    cases fr with
    | int j => cases hs
    | float x =>
      simp only [Number.addInt, bind, Except.bind] at hs
      split at hs
      · next g' hg => rw [Numeral.toDouble_fault hg] at hs; cases hs; trivial
      · cases hs
  | ok sum =>
    simp only [hs, bind, Except.bind] at h
    split at h
    · cases h
    · cases hp : Numeral.powerOfTen e with
      | error g =>
        simp only [hp, Except.error.injEq] at h
        exact h ▸ Numeral.powerOfTen_fault hp
      | ok pw =>
        simp only [hp] at h
        cases sum with
        | float x => cases h
        | int j =>
          simp only [Number.toDouble] at h
          cases hd : Numeral.toDouble j with
          | error g =>
            simp only [hd, Except.error.injEq] at h
            rw [← h, Numeral.toDouble_fault hd]
            trivial
          | ok y => simp only [hd] at h; cases h

/-! ## The number grammar -/

namespace Grammar

open Source Scan

theorem wellFormed_none : WellFormed none := fun _ h => nomatch h

theorem wellFormed_of {sp : String} {segs : List Segment} (h : segments sp.toList = .ok segs) :
    WellFormed (some sp) := by
  intro sp' h'
  cases h'
  exact ⟨segs, h⟩

theorem onenine_safe : (onenine s).Safe s := s.char_safe (wellFormed_of rfl)

theorem digit_safe : (digit s).Safe s := by
  unfold digit
  refine (s.char_safe (wellFormed_of rfl)).optional.bind fun o => ?_
  cases o with
  | some c => exact safe_pure c
  | none => exact choice_one_safe onenine_safe

theorem moreDigits_safe (acc : String) {p : Int} (hp : -1 ≤ p) :
    (moreDigits s acc p).Safe s := by
  rw [moreDigits]
  refine ((choice_one_safe digit_safe) p hp).optional.andThen fun o ho => ?_
  cases o with
  | none => exact Step.safe_ok _
  | some d =>
    -- a digit was read, so the loop goes on from further along
    have hadv := Source.choice_advances s [(.digit, digit s)]
      (by intro ra hra; simp only [List.mem_singleton] at hra; subst hra; exact digit_advances s)
      p d (Step.recover_eq_some ho)
    exact moreDigits_safe (acc.push d) (Int.le_trans hp ((s.choice [(.digit, digit s)]).optional p).le)
termination_by s.rest p
decreasing_by exact hadv

theorem digits_safe : (digits s).Safe s :=
  (choice_one_safe digit_safe).bind fun _ _ hp => moreDigits_safe _ hp

theorem oneDigit_safe : (oneDigit s).Safe s :=
  (choice_one_safe digit_safe).bind fun _ => safe_pure _

theorem manyDigits_safe : (manyDigits s).Safe s :=
  (choice_one_safe onenine_safe).bind fun _ => (choice_one_safe digits_safe).bind fun _ => safe_pure _

theorem negOneDigit_safe : (negOneDigit s).Safe s :=
  (s.char_safe (wellFormed_of rfl)).bind fun _ =>
    (choice_one_safe oneDigit_safe).bind fun _ => safe_pure _

theorem negManyDigits_safe : (negManyDigits s).Safe s :=
  (s.char_safe (wellFormed_of rfl)).bind fun _ =>
    (choice_one_safe manyDigits_safe).bind fun _ => safe_pure _

theorem integer_safe : (integer s).Safe s := by
  unfold integer
  refine (choice_safe ?_ (List.cons_ne_nil _ _)).bind fun t =>
    safe_ofExcept fun _ hf => Numeral.readInteger_fault hf
  simp only [List.forall_mem_cons, List.not_mem_nil, false_imp_iff, implies_true, and_true]
  exact ⟨negManyDigits_safe, negOneDigit_safe, manyDigits_safe, oneDigit_safe⟩

theorem fractionDigits_safe : (fractionDigits s).Safe s :=
  (s.char_safe (wellFormed_of rfl)).bind fun _ =>
    (choice_one_safe digits_safe).bind fun _ => safe_pure _

theorem fraction_safe : (fraction s).Safe s := by
  unfold fraction
  refine (choice_one_safe fractionDigits_safe).optional.bind fun o => ?_
  cases o <;> exact safe_pure _

theorem sign_safe : (sign s).Safe s := by
  unfold sign
  refine (s.char_safe (wellFormed_of rfl)).optional.bind fun o => ?_
  cases o <;> exact safe_pure _

theorem exponentDigits_safe : (exponentDigits s).Safe s :=
  (s.char_safe (wellFormed_of rfl)).bind fun _ =>
    (choice_one_safe sign_safe).bind fun _ => (choice_one_safe digits_safe).bind fun _ =>
      (safe_ofExcept fun _ hf => Numeral.readInteger_fault hf).bind fun _ => safe_pure _

theorem exponent_safe : (exponent s).Safe s := by
  unfold exponent
  refine (choice_one_safe exponentDigits_safe).optional.bind fun o => ?_
  cases o <;> exact safe_pure _

theorem number_safe : (number s).Safe s :=
  (choice_one_safe integer_safe).bind fun _ => (choice_one_safe fraction_safe).bind fun _ =>
    (choice_one_safe exponent_safe).bind fun _ =>
      safe_ofExcept fun _ hf => Number.ofParts_fault hf

/-! ## Quoted strings -/

theorem hexDigit_safe : (hexDigit s).Safe s := s.char_safe (wellFormed_of rfl)

/-- A complaint about the character after `q` meets the index fault only when `q` is the last
position, and then only where the text ends in a slip. -/
theorem complainNext_safe {mk : String → Complaint} {q : Int} (hq : -1 ≤ q) (hle : q ≤ s.last)
    (hslip : q = s.last → s.EndsInSlip) : (complainNext s mk q : Step q α).Safe s := by
  unfold complainNext
  split
  · exact Step.safe_fail (Failure.possible_of_pos (by show (0 : Int) ≤ q + 1; omega))
  · next hnone =>
    refine Step.safe_fail (Or.inr (hslip ?_))
    rcases Int.lt_or_eq_of_le hle with hlt | heq
    · obtain ⟨c, hc⟩ := s.get?_isSome (i := q + 1) (by omega) (by omega) (by omega)
      rw [hc] at hnone
      cases hnone
    · exact heq

/-- An escape read after the backslash at `p`. -/
theorem escape_safe (quote : Char) {p : Int} (hp : 0 ≤ p) (hb : s.get? p = some '\\') :
    (escape s quote p).Safe s := by
  unfold escape
  rw [bind_apply]
  refine (s.char_safe wellFormed_none p (by omega)).andThen fun e he => ?_
  obtain ⟨hpos, hlt⟩ := char_ok he
  split
  · exact (hexDigit_safe.bind fun _ => hexDigit_safe.bind fun _ => hexDigit_safe.bind fun _ =>
      hexDigit_safe.bind fun _ => safe_pure _) _ (by omega)
  · cases simpleEscape quote e with
    | some cs => exact safe_pure _ _ (by omega)
    | none =>
      -- a refused escape is the last character only when the backslash before it is the one
      -- before last
      refine complainNext_safe (by omega) (by omega) fun hend => Or.inr ⟨by omega, ?_⟩
      have hp' : s.last - 1 = p := by omega
      rw [hp']
      exact hb

theorem stringBody_safe (quote : Char) (acc : Array CodePoint) {p : Int} (hp : -1 ≤ p) :
    (stringBody s quote acc p).Safe s := by
  rw [stringBody]
  refine (s.char_safe wellFormed_none p hp).andThen fun c hc => ?_
  obtain ⟨hpos, hlt⟩ := char_ok hc
  have hget : s.get? (p + 1) = some c := by
    obtain ⟨-, hafter, -⟩ := char_sound hp hc
    rw [get?_succ hp, hafter]
    rfl
  have hnext : s.rest (s.char none p).pos < s.rest p := by
    rw [hpos]
    exact rest_lt_rest (by omega) hlt
  split
  · exact Step.safe_ok _
  · split
    · -- an escape, then the rest of the string
      next hq hbs =>
      have hesc := escape_safe quote (p := (s.char none p).pos) (by omega)
        (by rw [hpos, ← hbs]; exact hget)
      refine hesc.andThen fun cps _ => ?_
      have hle := rest_le_rest (s := s) (escape s quote (s.char none p).pos).le
      exact stringBody_safe quote _ (by have := (escape s quote (s.char none p).pos).le; omega)
    · split
      · -- a raw control character, the last one only when the text ends in it
        next hq hbs hctl =>
        exact complainNext_safe (by omega) (by omega) fun hend =>
          Or.inl ⟨c, by rw [← hend, hpos]; exact hget, hctl⟩
      · exact stringBody_safe quote _ (by omega)
termination_by s.rest p
decreasing_by all_goals omega

theorem quotedString_safe : (quotedString s).Safe s := by
  intro p hp
  unfold quotedString
  exact (s.char_safe (wellFormed_of rfl) p hp).andThen fun quote _ =>
    stringBody_safe quote #[] (Int.le_trans hp (s.char _ p).le)

/-! ## Values -/

theorem null_safe : (null s).Safe s := (s.keyword_safe _).bind fun _ => safe_pure _

theorem boolean_safe : (boolean s).Safe s := (s.keyword_safe _).bind fun _ => safe_pure _

theorem primitiveType_safe : (primitiveType s).Safe s := by
  unfold primitiveType
  refine choice_safe ?_ (List.cons_ne_nil _ _)
  simp only [List.forall_mem_cons, List.not_mem_nil, false_imp_iff, implies_true, and_true]
  exact ⟨null_safe, boolean_safe, quotedString_safe.map _, number_safe.map _⟩

/-- A keyword read stops after its last character and no later than the end of the text. -/
theorem keyword_pos (hs : s.dialect = .json) {kws : List String} {k : String} {p : Int}
    (hp : -1 ≤ p) (h : (s.keyword kws p).out = .ok k) (hk : k.toList ≠ []) :
    p < (s.keyword kws p).pos ∧ (s.keyword kws p).pos ≤ s.last := by
  obtain ⟨-, w, w', hsplit, -, -, hpos⟩ := keyword_sound hs hp h
  have hlen := congrArg List.length hsplit
  have hk0 : 0 < k.toList.length := List.length_pos_iff.2 hk
  simp only [List.length_append, length_after hp,
    length_after (Int.le_trans hp (s.keyword kws p).le)] at hlen
  unfold Source.rest at hlen
  omega

/-- After a trailing comma the closing bracket is refused where it stands, always a character of
the text. -/
theorem closing_safe (hs : s.dialect = .json) {close : String} (hc : close.toList ≠ [])
    (b : Bool) {p : Int} (hp : -1 ≤ p) : (closing s close b p).Safe s := by
  unfold closing
  rw [bind_apply]
  refine (s.keyword_safe [close] p hp).andThen fun k hk => ?_
  have hmem := (keyword_sound hs hp hk).1
  rw [List.mem_singleton] at hmem
  subst hmem
  obtain ⟨hlt, hle⟩ := keyword_pos hs hp hk hc
  cases b with
  | false => exact Step.safe_ok ()
  | true =>
    obtain ⟨c, hget⟩ := s.get?_isSome (i := (s.keyword [k] p).pos) (by omega) hle (by omega)
    simp only [↓reduceIte, hget]
    exact Step.safe_fail (Failure.possible_of_pos (show (0 : Int) ≤ (s.keyword [k] p).pos by omega))

mutual

theorem anyType_safe (hs : s.dialect = .json) {p : Int} (hp : -1 ≤ p) : (anyType s p).Safe s := by
  have hq := Int.le_trans hp (s.skipBlank p).le
  have hle := Source.rest_le_rest (s := s) (s.skipBlank p).le
  rw [anyType]
  refine choiceAt_safe hp ?_ (List.cons_ne_nil _ _)
  simp only [List.forall_mem_cons, List.not_mem_nil, false_imp_iff, implies_true, and_true]
  exact ⟨complexType_safe hs hq, primitiveType_safe _ hq⟩
termination_by 8 * s.rest p + 2
decreasing_by omega

theorem complexType_safe (hs : s.dialect = .json) {p : Int} (hp : -1 ≤ p) :
    (complexType s p).Safe s := by
  have hq := Int.le_trans hp (s.skipBlank p).le
  have hle := Source.rest_le_rest (s := s) (s.skipBlank p).le
  rw [complexType]
  refine choiceAt_safe hp ?_ (List.cons_ne_nil _ _)
  simp only [List.forall_mem_cons, List.not_mem_nil, false_imp_iff, implies_true, and_true]
  exact ⟨list_safe hs hq, map_safe hs hq⟩
termination_by 8 * s.rest p + 1
decreasing_by all_goals omega

theorem list_safe (hs : s.dialect = .json) {p : Int} (hp : -1 ≤ p) : (list s p).Safe s := by
  rw [list]
  refine (s.keyword_safe ["["] p hp).andThen fun o ho => ?_
  have hadv := keyword_single_advances s "[" (by decide) p _ ho
  have hk : -1 ≤ (s.keyword ["["] p).pos := Int.le_trans hp (s.keyword ["["] p).le
  refine (listItems_safe hs hk false #[]).andThen fun r _ => ?_
  have hi := Int.le_trans hk (listItems s false #[] (s.keyword ["["] p).pos).le
  exact (closing_safe hs (by decide) r.2 hi).map _
termination_by 8 * s.rest p
decreasing_by omega

theorem listItems_safe (hs : s.dialect = .json) {p : Int} (hp : -1 ≤ p) (b : Bool)
    (acc : Array Value) : (listItems s b acc p).Safe s := by
  have hq := Int.le_trans hp (s.skipBlank p).le
  have hle := Source.rest_le_rest (s := s) (s.skipBlank p).le
  rw [listItems]
  have hx : (s.choiceAt p [(.anyType, fun r _ => anyType s r)]).Safe s :=
    choiceAt_one_safe hp (anyType_safe hs hq)
  refine hx.optional.andThen fun o ho => ?_
  have hx' := Int.le_trans hp (s.choiceAt p [(.anyType, fun r _ => anyType s r)]).optional.le
  have hxle := Source.rest_le_rest (s := s)
    (s.choiceAt p [(.anyType, fun r _ => anyType s r)]).optional.le
  cases o with
  | none => exact Step.safe_ok _
  | some v =>
    refine (s.keyword_safe [","] _ hx').optional.andThen fun c hc => ?_
    cases c with
    | none => exact Step.safe_ok _
    | some c =>
      -- a comma was read, so the items go on from further along
      have hadv := optional_keyword_advances (by decide) hc
      have hc' := Int.le_trans hx' ((s.keyword [","]).optional
        (s.choiceAt p [(.anyType, fun r _ => anyType s r)]).optional.pos).le
      exact listItems_safe hs hc' true (acc.push v)
termination_by 8 * s.rest p + 3
decreasing_by all_goals omega

theorem map_safe (hs : s.dialect = .json) {p : Int} (hp : -1 ≤ p) : (map s p).Safe s := by
  rw [map]
  refine (s.keyword_safe ["\x7b"] p hp).andThen fun o ho => ?_
  have hadv := keyword_single_advances s "\x7b" (by decide) p _ ho
  have hk : -1 ≤ (s.keyword ["\x7b"] p).pos := Int.le_trans hp (s.keyword ["\x7b"] p).le
  refine (mapItems_safe hs hk false []).andThen fun r _ => ?_
  have hi := Int.le_trans hk (mapItems s false [] (s.keyword ["\x7b"] p).pos).le
  exact (closing_safe hs (by decide) r.2 hi).map _
termination_by 8 * s.rest p
decreasing_by omega

theorem mapItems_safe (hs : s.dialect = .json) {p : Int} (hp : -1 ≤ p) (b : Bool)
    (acc : List (Text × Value)) : (mapItems s b acc p).Safe s := by
  have hq := Int.le_trans hp (s.skipBlank p).le
  have hle := Source.rest_le_rest (s := s) (s.skipBlank p).le
  rw [mapItems]
  have hx : (s.choiceAt p [(.pair, fun r _ => pair s r)]).Safe s :=
    choiceAt_one_safe hp (pair_safe hs hq)
  refine hx.optional.andThen fun o ho => ?_
  have hx' := Int.le_trans hp (s.choiceAt p [(.pair, fun r _ => pair s r)]).optional.le
  have hxle := Source.rest_le_rest (s := s)
    (s.choiceAt p [(.pair, fun r _ => pair s r)]).optional.le
  cases o with
  | none => exact Step.safe_ok _
  | some kv =>
    refine (s.keyword_safe [","] _ hx').optional.andThen fun c hc => ?_
    cases c with
    | none => exact Step.safe_ok _
    | some c =>
      -- a comma was read, so the pairs go on from further along
      have hadv := optional_keyword_advances (by decide) hc
      have hc' := Int.le_trans hx' ((s.keyword [","]).optional
        (s.choiceAt p [(.pair, fun r _ => pair s r)]).optional.pos).le
      exact mapItems_safe hs hc' true _
termination_by 8 * s.rest p + 4
decreasing_by all_goals omega

theorem pair_safe (hs : s.dialect = .json) {p : Int} (hp : -1 ≤ p) : (pair s p).Safe s := by
  rw [pair]
  refine (choice_one_safe quotedString_safe p hp).andThen fun key _ => ?_
  have hk := Int.le_trans hp (s.choice [(.quotedString, quotedString s)] p).le
  have hkle := Source.rest_le_rest (s := s) (s.choice [(.quotedString, quotedString s)] p).le
  refine (s.keyword_safe [":"] _ hk).andThen fun c hc => ?_
  have hadv := keyword_single_advances s ":" (by decide) _ _ hc
  have hc' := Int.le_trans hk (s.keyword [":"] (s.choice [(.quotedString, quotedString s)] p).pos).le
  have hq := Int.le_trans hc' (s.skipBlank (s.keyword [":"]
    (s.choice [(.quotedString, quotedString s)] p).pos).pos).le
  have hle := Source.rest_le_rest (s := s) (s.skipBlank (s.keyword [":"]
    (s.choice [(.quotedString, quotedString s)] p).pos).pos).le
  exact (choiceAt_one_safe hc' (anyType_safe hs hq)).map _
termination_by 8 * s.rest p + 3
decreasing_by omega

end

theorem start_safe (hs : s.dialect = .json) : (start s).Safe s :=
  choice_one_safe fun _ hp => anyType_safe hs hp

theorem document_safe (hs : s.dialect = .json) : (document s).Safe s :=
  (start_safe hs).bind fun v => s.atEnd_safe.bind fun _ => safe_pure v

/-- A document fails only as its source can fail, and with a syntax error only at a position of
the text: the value is read by a choice of one alternative, and the end is looked for after it. -/
theorem document_failure (hs : s.dialect = .json) {f : Failure}
    (h : (document s (-1)).out = .error f) :
    f.Possible s ∧ ∀ e, f = .mismatch e → 0 ≤ e.pos := by
  refine ⟨document_safe hs (-1) (by decide) f h, ?_⟩
  rintro e rfl
  unfold document at h
  rw [bind_apply] at h
  rcases Step.andThen_error h with ⟨hstart, -⟩ | ⟨v, _, hrest, -⟩
  · exact choice_one_mismatch_nonneg (fun _ hp => anyType_safe hs hp) (by decide) hstart
  · have hq := Int.le_trans (by decide : (-1 : Int) ≤ -1) (start s (-1)).le
    rw [bind_apply] at hrest
    rcases Step.andThen_error hrest with ⟨hend, -⟩ | ⟨u, _, hpure, -⟩
    · exact s.atEnd_mismatch_pos hq hend
    · cases hpure

/-! ## Parses -/

/-- How a parse of the text `t` can fail: with a syntax error at a position of the text; with the
lost failure, in a text of one character; with the index fault, in the empty text or in one that
ends in a raw control character or in a backslash and one more character; or with a fault of a
number. -/
inductive ParseFailure (t : List Char) : Failure → Prop
  | mismatch {e : SyntaxError} : 0 ≤ e.pos → ParseFailure t (.mismatch e)
  | lost : t.length = 1 → ParseFailure t (.fault .lostFailure)
  | emptyIndex : t = [] → ParseFailure t (.fault .indexOutOfRange)
  | controlIndex {u : List Char} {c : Char} : t = u ++ [c] → Unicode.isControl c.toNat = true →
      ParseFailure t (.fault .indexOutOfRange)
  | escapeIndex {u : List Char} {c : Char} : t = u ++ ['\\', c] →
      ParseFailure t (.fault .indexOutOfRange)
  | number {f : Fault} : f.OfNumber → ParseFailure t (.fault f)

theorem last_of (d : Dialect) (t : String) :
    (Source.of d t).last = (t.toList.length : Int) - 1 := by
  simp [Source.last, Source.of]

theorem get?_of {d : Dialect} {t : String} {i : Int} (hi : 0 ≤ i) :
    (Source.of d t).get? i = t.toList[i.toNat]? := by
  have hn : ¬ i < 0 := by omega
  simp only [Source.get?, Source.of, hn, hi, ↓reduceIte, List.getElem?_toArray]

/-- The character at the last index of a text is its last character. -/
theorem eq_append_of_get?_last {t : String} {c : Char}
    (h : (Source.of .json t).get? (Source.of .json t).last = some c) :
    ∃ u, t.toList = u ++ [c] := by
  have hl := Source.last_nonneg_of_get? h
  rw [last_of] at hl h
  rw [get?_of hl] at h
  have hidx : ((t.toList.length : Int) - 1).toNat = t.toList.length - 1 := by omega
  rw [hidx, ← List.getLast?_eq_getElem?] at h
  exact List.getLast?_eq_some_iff.1 h

/-- A backslash at the index before the last: the text ends in it and one more character. -/
theorem eq_append_of_get?_prev {t : String} (hl : 1 ≤ (Source.of .json t).last)
    (h : (Source.of .json t).get? ((Source.of .json t).last - 1) = some '\\') :
    ∃ u c, t.toList = u ++ ['\\', c] := by
  rw [last_of] at hl h
  rw [get?_of (by omega)] at h
  rcases List.eq_nil_or_concat t.toList with hnil | ⟨ys, c, hys⟩
  · rw [hnil] at hl
    simp at hl
  · rw [List.concat_eq_append] at hys
    have hlen : t.toList.length = ys.length + 1 := by rw [hys]; simp
    have hidx : ((t.toList.length : Int) - 1 - 1).toNat = ys.length - 1 := by omega
    rw [hidx, hys, List.getElem?_append_left (by omega), ← List.getLast?_eq_getElem?] at h
    obtain ⟨u, rfl⟩ := List.getLast?_eq_some_iff.1 h
    exact ⟨u, c, by simp [hys]⟩

/-- A failure of a source read from a text, named at a position of the text when it is a syntax
error, is one of the ways a parse of the text fails. -/
theorem parseFailure_of {t : String} {f : Failure} (h1 : f.Possible (Source.of .json t))
    (h2 : ∀ e, f = .mismatch e → 0 ≤ e.pos) : ParseFailure t.toList f := by
  have hlast := last_of .json t
  cases f with
  | mismatch e => exact .mismatch (h2 e rfl)
  | fault g =>
    cases g with
    | lostFailure =>
      have h0 : (Source.of .json t).last = 0 := h1
      exact .lost (by omega)
    | indexOutOfRange =>
      rcases h1 with hempty | ⟨c, hc, hctl⟩ | ⟨hl, hb⟩
      · exact .emptyIndex (List.length_eq_zero_iff.1 (by omega))
      · obtain ⟨u, hu⟩ := eq_append_of_get?_last hc
        exact .controlIndex hu hctl
      · obtain ⟨u, c, hu⟩ := eq_append_of_get?_prev hl hb
        exact .escapeIndex hu
    | _ => exact .number h1

/-- A parse gives a value, or fails in one of the ways `ParseFailure` lists. -/
theorem parse_fails_only_as (text : String) :
    (∃ v, parse text = .ok v) ∨ ∃ f, parse text = .error f ∧ ParseFailure text.toList f := by
  cases h : parse text with
  | ok v => exact .inl ⟨v, rfl⟩
  | error f =>
    obtain ⟨h1, h2⟩ := document_failure (s := Source.of .json text) rfl h
    exact .inr ⟨f, rfl, parseFailure_of h1 h2⟩

end Grammar

end Safety

/-! ## The command line -/

/-- The complaints without a message: a trailing comma, a refused escape and a raw control
character. -/
theorem Complaint.describe?_eq_none {c : Complaint} :
    c.describe? = none ↔
      (∃ f, c = .trailingComma f) ∨ (∃ f, c = .badEscape f) ∨ ∃ f, c = .rawControl f := by
  cases c <;> simp [Complaint.describe?]

/-- The command line stops early only on a complaint without a message, or on a fault that a
parse of its input can meet. -/
theorem Transcript.abort_cases {input : String} {a : Abort}
    (h : (Transcript.ofInput input).abort = some a) :
    (a = .unformattable ∧ ∃ e, Grammar.parse input = .error (.mismatch e) ∧
        e.complaint.describe? = none) ∨
      ∃ f, a = .fault f ∧ Grammar.ParseFailure input.toList (.fault f) := by
  unfold Transcript.ofInput at h
  cases hp : Grammar.parse input with
  | ok v =>
    rw [hp] at h
    cases h
  | error f =>
    obtain ⟨h1, h2⟩ := Grammar.document_failure (s := Source.of .json input) rfl hp
    rw [hp] at h
    cases f with
    | mismatch e =>
      cases hd : e.complaint.describe? with
      | some m => simp [SyntaxError.describe?, hd] at h
      | none =>
        simp only [SyntaxError.describe?, hd, Option.map_none, Option.some.injEq] at h
        exact .inl ⟨h.symm, e, rfl, hd⟩
    | fault g =>
      simp only [Option.some.injEq] at h
      exact .inr ⟨g, h.symm, Grammar.parseFailure_of h1 h2⟩

end LaxJson
