import LaxJson.Proofs.Failures
import LaxJson.Session
/-!
# The cursor stays in the text

A scan started from a cursor between -1 and the last index of its source ends, whether it
succeeds or fails, at a cursor no later than the last index, and every syntax error it reports
names a position from -1 to one past the last index. That the cursor never moves back is part of
what a step is (`Step.le`); this module adds the two upper bounds.

`Step.Within` says both of one step and `Scan.Within` of a scan from every cursor in range. They
are shown once for each way of combining steps, for the primitive scans, for the ordered choice
through its bookkeeping (`Standing.Within`), and then rule by rule up the grammar, in either
dialect and for any character class: `Rule.scan_within`. A parse therefore reports its syntax
errors at positions from 0 to the length of the text (`parse_error_pos`); a position that far
on can still lie past every prefix of a document, as a trailing comma does when blanks follow
its closing bracket. A session keeps its cursor in range through each command
(`Session.run_within`) and so through every run (`Session.exec_within`).
-/

set_option autoImplicit false
namespace LaxJson

/-- A failure is within the source when the position it names, if any, lies from -1 to one past
the last index. -/
def Failure.Within (s : Source) : Failure → Prop
  | .mismatch e => -1 ≤ e.pos ∧ e.pos ≤ s.last + 1
  | .fault _ => True

section Bounds

variable {s : Source} {p q : Int} {α β : Type}

/-- The step stops no later than the last index, and its failure is within the source. -/
structure Step.Within (s : Source) (x : Step p α) : Prop where
  pos_le : x.pos ≤ s.last
  fails : ∀ f, x.out = .error f → f.Within s

/-- From every cursor from -1 to the last index, the scan's step is within the source. -/
def Scan.Within (s : Source) (m : Scan α) : Prop := ∀ p, -1 ≤ p → p ≤ s.last → (m p).Within s

theorem Failure.within_at {i : Int} {c : Complaint} (h1 : -1 ≤ i) (h2 : i ≤ s.last + 1) :
    (Failure.mismatch ⟨i, c⟩).Within s :=
  ⟨h1, h2⟩

/-! ## Steps and their combinations -/

namespace Step

theorem within_ok (a : α) (hp : p ≤ s.last) : (Step.ok p a).Within s :=
  ⟨hp, fun _ h => nomatch h⟩

theorem within_fail {f : Failure} (hp : p ≤ s.last) (hf : f.Within s) :
    (Step.fail p f : Step p α).Within s :=
  ⟨hp, fun _ h => by cases h; exact hf⟩

theorem Within.after {x : Step q α} (hx : x.Within s) (h : p ≤ q) : (x.after h).Within s :=
  ⟨hx.pos_le, hx.fails⟩

theorem Within.askedFirst {x : Step p α} (hx : x.Within s) (specs : List String) :
    (x.askedFirst specs).Within s :=
  ⟨hx.pos_le, hx.fails⟩

theorem Within.map {x : Step p α} (hx : x.Within s) (f : α → β) : (x.map f).Within s := by
  refine ⟨hx.pos_le, fun g hg => ?_⟩
  cases hout : x.out with
  | ok a => rw [map_out, hout] at hg; cases hg
  | error g' =>
    rw [map_out, hout] at hg
    cases hg
    exact hx.fails _ hout

theorem Within.optional {x : Step p α} (hx : x.Within s) : x.optional.Within s := by
  refine ⟨hx.pos_le, fun g hg => ?_⟩
  obtain ⟨g', rfl, hout⟩ := recover_eq_error hg
  exact hx.fails _ hout

theorem Within.andThen {x : Step p α} {k : (a : α) → x.out = .ok a → Step x.pos β}
    (hx : x.Within s) (hk : ∀ a h, (k a h).Within s) : (x.andThen k).Within s := by
  cases hout : x.out with
  | ok a =>
    obtain ⟨h1, h2⟩ := andThen_of_ok (k := k) hout
    refine ⟨by rw [h2]; exact (hk a hout).pos_le, fun f hf => (hk a hout).fails f ?_⟩
    rw [← h1]
    exact hf
  | error f =>
    obtain ⟨h1, h2⟩ := andThen_of_error (k := k) hout
    refine ⟨by rw [h2]; exact hx.pos_le, fun g hg => ?_⟩
    obtain rfl : f = g := Except.error.inj (h1.symm.trans hg)
    exact hx.fails f hout

end Step

namespace Scan

theorem within_pure (a : α) : (pure a : Scan α).Within s := fun _ _ hl => Step.within_ok a hl

theorem Within.bind {x : Scan α} {k : α → Scan β} (hx : x.Within s) (hk : ∀ a, (k a).Within s) :
    (x >>= k).Within s := by
  intro p hp hl
  rw [bind_apply]
  have hxp := hx p hp hl
  exact hxp.andThen fun a _ => hk a _ (Int.le_trans hp (x p).le) hxp.pos_le

theorem Within.map {x : Scan α} (hx : x.Within s) (f : α → β) : (f <$> x).Within s := by
  intro p hp hl
  rw [map_apply]
  have hxp := hx p hp hl
  exact hxp.andThen fun _ _ => Step.within_ok _ hxp.pos_le

theorem Within.optional {x : Scan α} (hx : x.Within s) : x.optional.Within s :=
  fun p hp hl => (hx p hp hl).optional

/-- Reading a value that may be a fault moves nothing and names no position. -/
theorem within_ofExcept (v : Except Fault α) : (ofExcept v).Within s := by
  cases v with
  | ok a => exact within_pure a
  | error f => exact fun _ _ hl => Step.within_fail hl trivial

theorem within_fail {f : Failure} (hf : f.Within s) : (Scan.fail f : Scan α).Within s :=
  fun _ _ hl => Step.within_fail hl hf

end Scan

/-! ## The primitive scans -/

namespace Source

/-- The skipper moves only onto a character that follows the cursor. -/
theorem skipBlankFrom_pos_le (b : Bool) (hl : p ≤ s.last) : (s.skipBlankFrom b p).pos ≤ s.last := by
  induction b, p using Source.skipBlankFrom.induct (s := s) with
  | case1 b p hlt hnone =>
    rw [skipBlankFrom, dif_pos hlt]
    simp only [hnone, Step.fail_pos]
    exact hl
  | case2 b p hlt c hc hmove =>
    rw [skipBlankFrom, dif_pos hlt]
    simp only [hc, hmove, Step.ok_pos]
    exact hl
  | case3 b p hlt c hc b' hmove ih =>
    rw [skipBlankFrom, dif_pos hlt]
    simp only [hc, hmove, Step.after_pos]
    exact ih (by omega)
  | case4 b p hlt =>
    rw [skipBlankFrom, dif_neg hlt]
    exact hl

theorem skipBlankFrom_within (b : Bool) (hp : -1 ≤ p) (hl : p ≤ s.last) :
    (s.skipBlankFrom b p).Within s :=
  ⟨skipBlankFrom_pos_le b hl, fun f hf => by rw [skipBlankFrom_ok b hp] at hf; cases hf⟩

theorem skipBlank_within : s.skipBlank.Within s := fun _ hp hl => skipBlankFrom_within false hp hl

/-- The class reader names the character after the cursor, or the end just after the last one. -/
theorem nextIn?_within {spec : Option String} (hp : -1 ≤ p) (hl : p ≤ s.last) {f : Failure}
    (h : s.nextIn? spec p = .error f) : f.Within s := by
  rw [nextIn?_eq] at h
  split at h
  · cases h
    exact Failure.within_at (by omega) (by omega)
  · split at h
    · cases h
      trivial
    · split at h
      · cases h
      · split at h
        · cases h
          trivial
        · split at h
          · cases h
          · cases h
            exact Failure.within_at (by omega) (by omega)

/-- A character is read for any class, a malformed one included. -/
theorem char_within (spec : Option String) : (s.char spec).Within s := by
  intro p hp hl
  unfold char Step.ofFound
  split
  · next c hn =>
    have hlt := nextIn?_ok hn
    exact ⟨show p + 1 ≤ s.last by omega, fun _ h => nomatch h⟩
  · next f hn => exact ⟨hl, fun _ h => by cases h; exact nextIn?_within hp hl hn⟩

/-- A keyword found after cursor `q` fits in what remains of the text. -/
theorem keywordAt_fits {kws : List String} {k : String} (hq : -1 ≤ q)
    (h : s.keywordAt kws q = .ok k) : q + k.length ≤ s.last := by
  obtain ⟨hlt, -⟩ := keywordAt_ok h
  unfold keywordAt at h
  rw [if_neg (by omega)] at h
  split at h
  · next k' hf =>
    cases h
    have hfound := List.find?_some hf
    have htake := eq_of_beq hfound
    rw [slice_eq_take hq] at htake
    have hlen := congrArg List.length htake
    rw [List.length_take, length_after hq, String.length_toList] at hlen
    unfold rest at hlen
    omega
  · split at h <;> cases h

theorem keywordAt_within {kws : List String} (hq : -1 ≤ q) (hl : q ≤ s.last) {f : Failure}
    (h : s.keywordAt kws q = .error f) : f.Within s := by
  unfold keywordAt at h
  split at h
  · cases h
    exact Failure.within_at (by omega) (by omega)
  · split at h
    · cases h
    · split at h
      · cases h
        exact Failure.within_at (by omega) (by omega)
      · cases h
        trivial

theorem keyword_within (kws : List String) : (s.keyword kws).Within s := by
  intro p hp hl
  unfold keyword
  have hb := skipBlankFrom_within (s := s) false hp hl
  refine hb.andThen fun _ _ => ?_
  have hq : -1 ≤ (s.skipBlank p).pos := Int.le_trans hp (s.skipBlank p).le
  split
  · next k hk =>
    exact ((skipBlankFrom_within false (by omega) (keywordAt_fits hq hk)).map _).after _
  · next f hf => exact Step.within_fail hb.pos_le (keywordAt_within hq hb.pos_le hf)

theorem atEnd_within : s.atEnd.Within s := by
  intro p hp hl
  unfold atEnd
  split
  · split
    · exact Step.within_fail hl (Failure.within_at (by omega) (by omega))
    · exact Step.within_fail hl trivial
  · exact Step.within_ok () hl

end Source

/-! ## The bookkeeping of a choice -/

namespace Standing

/-- The bookkeeping of a choice names positions within the source: its furthest position, and
the error it keeps. -/
structure Within (s : Source) (st : Standing) : Prop where
  pos_ge : -1 ≤ st.pos
  pos_le : st.pos ≤ s.last + 1
  kept : ∀ e, st.error = some e → (Failure.mismatch e).Within s

theorem within_start : start.Within s :=
  ⟨Int.le_refl _, by have := s.last_ge; simp only [start]; omega, fun _ h => nomatch h⟩

theorem Within.record {st : Standing} (h : st.Within s) (r : Rule) {e : SyntaxError}
    (he : (Failure.mismatch e).Within s) : (st.record r e).Within s := by
  unfold Standing.record
  split
  · exact ⟨he.1, he.2, fun e' h' => by cases h'; exact he⟩
  · split
    · exact ⟨h.pos_ge, h.pos_le, h.kept⟩
    · exact h

/-- The failure of a choice is the error it kept, a fault, or a new error at the furthest position
moved off the end, which names a character and so lies in the text. -/
theorem Within.failure {st : Standing} (h : st.Within s) : (st.failure s).Within s := by
  unfold Standing.failure
  split
  · cases herr : st.error with
    | some e => exact h.kept e herr
    | none => trivial
  · have hge := h.pos_ge
    dsimp only
    generalize hi : (if s.last ≤ st.pos then s.last - 1 else st.pos) = i
    cases hc : s.get? i with
    | some c =>
      have hl := Source.last_nonneg_of_get? hc
      rw [← hi]
      exact Failure.within_at (by split <;> omega) (by split <;> omega)
    | none => trivial

end Standing

namespace Source

theorem tryAlts_within (hq : -1 ≤ q) (hql : q ≤ s.last) {h : p ≤ q}
    {alts : List (Rule × Alt p α)} (halts : ∀ ra ∈ alts, (ra.2 q h).Within s) {st : Standing}
    (hst : st.Within s) : (s.tryAlts q h alts st).Within s := by
  induction alts generalizing st with
  | nil => exact Step.within_fail hql hst.failure
  | cons ra more ih =>
    obtain ⟨r, a⟩ := ra
    have ha := halts (r, a) List.mem_cons_self
    rcases hout : (a q h).out with (e | f) | v
    · rw [tryAlts_of_mismatch hout]
      exact (ih (fun ra hra => halts ra (List.mem_cons_of_mem _ hra))
        (hst.record r (ha.fails _ hout))).askedFirst _
    · obtain ⟨h1, h2⟩ := tryAlts_of_fault (s := s) (r := r) (m := more) (σ := st) hout
      refine ⟨by rw [h2]; exact ha.pos_le, fun g hg => ?_⟩
      rw [h1] at hg
      cases hg
      trivial
    · obtain ⟨h1, h2⟩ := tryAlts_of_ok (s := s) (r := r) (m := more) (σ := st) hout hq
      refine ⟨by rw [h2]; exact skipBlankFrom_pos_le false ha.pos_le, fun g hg => ?_⟩
      rw [h1] at hg
      cases hg

theorem choiceAt_within (hp : -1 ≤ p) (hl : p ≤ s.last) {alts : List (Rule × Alt p α)}
    (halts : ∀ ra ∈ alts, (ra.2 (s.skipBlank p).pos (s.skipBlank p).le).Within s) :
    (s.choiceAt p alts).Within s := by
  unfold choiceAt
  have hb := skipBlank_within p hp hl
  exact hb.andThen fun _ _ =>
    tryAlts_within (Int.le_trans hp (s.skipBlank p).le) hb.pos_le halts Standing.within_start

/-- An ordered choice among scans within the source is within it, whatever its alternatives, none
included. -/
theorem choice_within {alts : List (Rule × Scan α)} (halts : ∀ ra ∈ alts, ra.2.Within s) :
    (s.choice alts).Within s := by
  intro p hp hl
  have hb := skipBlank_within p hp hl
  refine choiceAt_within hp hl fun ra hra => ?_
  obtain ⟨ra', hmem, rfl⟩ := List.mem_map.1 hra
  exact halts ra' hmem _ (Int.le_trans hp (s.skipBlank p).le) hb.pos_le

theorem choice_one_within {x : Scan α} {r : Rule} (hx : x.Within s) : (s.choice [(r, x)]).Within s :=
  choice_within fun ra hra => by rw [List.mem_singleton] at hra; subst hra; exact hx

theorem choiceAt_one_within (hp : -1 ≤ p) (hl : p ≤ s.last) {r : Rule} {a : Alt p α}
    (ha : (a (s.skipBlank p).pos (s.skipBlank p).le).Within s) : (s.choiceAt p [(r, a)]).Within s :=
  choiceAt_within hp hl fun ra hra => by rw [List.mem_singleton] at hra; subst hra; exact ha

end Source

/-! ## The number grammar -/

namespace Grammar

open Source Scan

theorem onenine_within : (onenine s).Within s := s.char_within _

theorem digit_within : (digit s).Within s := by
  unfold digit
  refine (s.char_within _).optional.bind fun o => ?_
  cases o with
  | some c => exact within_pure c
  | none => exact choice_one_within onenine_within

theorem moreDigits_within (acc : String) {p : Int} (hp : -1 ≤ p) (hl : p ≤ s.last) :
    (moreDigits s acc p).Within s := by
  rw [moreDigits]
  have hx := ((choice_one_within (r := .digit) digit_within).optional (s := s)) p hp hl
  refine hx.andThen fun o ho => ?_
  cases o with
  | none => exact Step.within_ok _ hx.pos_le
  | some d =>
    -- a digit was read, so the loop goes on from further along
    have hadv := Source.choice_advances s [(.digit, digit s)]
      (by intro ra hra; simp only [List.mem_singleton] at hra; subst hra; exact digit_advances s)
      p d (Step.recover_eq_some ho)
    exact moreDigits_within (acc.push d)
      (Int.le_trans hp ((s.choice [(.digit, digit s)]).optional p).le) hx.pos_le
termination_by s.rest p
decreasing_by exact hadv

theorem digits_within : (digits s).Within s :=
  (choice_one_within digit_within).bind fun _ _ hp hl => moreDigits_within _ hp hl

theorem oneDigit_within : (oneDigit s).Within s :=
  (choice_one_within digit_within).bind fun _ => within_pure _

theorem manyDigits_within : (manyDigits s).Within s :=
  (choice_one_within onenine_within).bind fun _ =>
    (choice_one_within digits_within).bind fun _ => within_pure _

theorem negOneDigit_within : (negOneDigit s).Within s :=
  (s.char_within _).bind fun _ => (choice_one_within oneDigit_within).bind fun _ => within_pure _

theorem negManyDigits_within : (negManyDigits s).Within s :=
  (s.char_within _).bind fun _ => (choice_one_within manyDigits_within).bind fun _ => within_pure _

theorem integer_within : (integer s).Within s := by
  unfold integer
  refine (choice_within ?_).bind fun t => within_ofExcept _
  simp only [List.forall_mem_cons, List.not_mem_nil, false_imp_iff, implies_true, and_true]
  exact ⟨negManyDigits_within, negOneDigit_within, manyDigits_within, oneDigit_within⟩

theorem fractionDigits_within : (fractionDigits s).Within s :=
  (s.char_within _).bind fun _ => (choice_one_within digits_within).bind fun _ => within_pure _

theorem fraction_within : (fraction s).Within s := by
  unfold fraction
  refine (choice_one_within fractionDigits_within).optional.bind fun o => ?_
  cases o <;> exact within_pure _

theorem sign_within : (sign s).Within s := by
  unfold sign
  refine (s.char_within _).optional.bind fun o => ?_
  cases o <;> exact within_pure _

theorem exponentDigits_within : (exponentDigits s).Within s :=
  (s.char_within _).bind fun _ => (choice_one_within sign_within).bind fun _ =>
    (choice_one_within digits_within).bind fun _ => (within_ofExcept _).bind fun _ => within_pure _

theorem exponent_within : (exponent s).Within s := by
  unfold exponent
  refine (choice_one_within exponentDigits_within).optional.bind fun o => ?_
  cases o <;> exact within_pure _

theorem number_within : (number s).Within s :=
  (choice_one_within integer_within).bind fun _ => (choice_one_within fraction_within).bind fun _ =>
    (choice_one_within exponent_within).bind fun _ => within_ofExcept _

/-! ## Quoted strings -/

/-- A complaint about the character after the cursor names the position just after it. -/
theorem complainNext_within {mk : String → Complaint} : (complainNext s mk : Scan α).Within s := by
  intro q hq hl
  unfold complainNext
  split
  · exact Step.within_fail hl (Failure.within_at (by omega) (by omega))
  · exact Step.within_fail hl trivial

theorem escape_within (quote : Char) : (escape s quote).Within s := by
  unfold escape
  refine (s.char_within none).bind fun e => ?_
  split
  · exact (s.char_within _).bind fun _ => (s.char_within _).bind fun _ =>
      (s.char_within _).bind fun _ => (s.char_within _).bind fun _ => within_pure _
  · cases simpleEscape quote e with
    | some cs => exact within_pure _
    | none => exact complainNext_within

theorem stringBody_within (quote : Char) (acc : Array CodePoint) {p : Int} (hp : -1 ≤ p) (hl : p ≤ s.last) :
    (stringBody s quote acc p).Within s := by
  rw [stringBody]
  refine (s.char_within none p hp hl).andThen fun c hc => ?_
  obtain ⟨hpos, hlt⟩ := char_ok hc
  have hnext : s.rest (s.char none p).pos < s.rest p := by
    rw [hpos]
    exact rest_lt_rest (by omega) hlt
  have hq : -1 ≤ (s.char none p).pos := by omega
  have hql : (s.char none p).pos ≤ s.last := by omega
  split
  · exact Step.within_ok _ hql
  · split
    · -- an escape, then the rest of the string
      have hesc := escape_within quote _ hq hql
      refine hesc.andThen fun cps _ => ?_
      have hle := rest_le_rest (s := s) (escape s quote (s.char none p).pos).le
      exact stringBody_within quote _ (by have := (escape s quote (s.char none p).pos).le; omega)
        hesc.pos_le
    · split
      · exact complainNext_within _ hq hql
      · exact stringBody_within quote _ hq hql
termination_by s.rest p
decreasing_by all_goals omega

theorem quotedString_within : (quotedString s).Within s := by
  intro p hp hl
  unfold quotedString
  have hq := s.char_within (some "\"'") p hp hl
  exact hq.andThen fun quote _ =>
    stringBody_within quote #[] (Int.le_trans hp (s.char _ p).le) hq.pos_le

/-! ## Values -/

theorem null_within : (null s).Within s := (s.keyword_within _).bind fun _ => within_pure _

theorem boolean_within : (boolean s).Within s := (s.keyword_within _).bind fun _ => within_pure _

theorem primitiveType_within : (primitiveType s).Within s := by
  unfold primitiveType
  refine choice_within ?_
  simp only [List.forall_mem_cons, List.not_mem_nil, false_imp_iff, implies_true, and_true]
  exact ⟨null_within, boolean_within, quotedString_within.map _, number_within.map _⟩

/-- After a trailing comma the closing is refused at the cursor the closing bracket reached. -/
theorem closing_within (close : String) (b : Bool) : (closing s close b).Within s := by
  unfold closing
  refine (s.keyword_within [close]).bind fun _ => ?_
  cases b with
  | false => exact within_pure ()
  | true =>
    intro q hq hl
    simp only [↓reduceIte]
    split
    · exact Step.within_fail hl (Failure.within_at hq (by omega))
    · exact Step.within_fail hl trivial

mutual

theorem anyType_within {p : Int} (hp : -1 ≤ p) (hl : p ≤ s.last) : (anyType s p).Within s := by
  have hb := skipBlank_within p hp hl
  have hq := Int.le_trans hp (s.skipBlank p).le
  have hle := Source.rest_le_rest (s := s) (s.skipBlank p).le
  rw [anyType]
  refine choiceAt_within hp hl ?_
  simp only [List.forall_mem_cons, List.not_mem_nil, false_imp_iff, implies_true, and_true]
  exact ⟨complexType_within hq hb.pos_le, primitiveType_within _ hq hb.pos_le⟩
termination_by 8 * s.rest p + 2
decreasing_by omega

theorem complexType_within {p : Int} (hp : -1 ≤ p) (hl : p ≤ s.last) :
    (complexType s p).Within s := by
  have hb := skipBlank_within p hp hl
  have hq := Int.le_trans hp (s.skipBlank p).le
  have hle := Source.rest_le_rest (s := s) (s.skipBlank p).le
  rw [complexType]
  refine choiceAt_within hp hl ?_
  simp only [List.forall_mem_cons, List.not_mem_nil, false_imp_iff, implies_true, and_true]
  exact ⟨list_within hq hb.pos_le, map_within hq hb.pos_le⟩
termination_by 8 * s.rest p + 1
decreasing_by all_goals omega

theorem list_within {p : Int} (hp : -1 ≤ p) (hl : p ≤ s.last) : (list s p).Within s := by
  rw [list]
  have ho := s.keyword_within ["["] p hp hl
  refine ho.andThen fun o hk => ?_
  have hadv := keyword_single_advances s "[" (by decide) p _ hk
  have hk' : -1 ≤ (s.keyword ["["] p).pos := Int.le_trans hp (s.keyword ["["] p).le
  have hi := listItems_within hk' ho.pos_le false #[]
  refine hi.andThen fun r _ => ?_
  exact (closing_within "]" r.2 _ (Int.le_trans hk' (listItems s false #[] _).le) hi.pos_le).map _
termination_by 8 * s.rest p
decreasing_by omega

theorem listItems_within {p : Int} (hp : -1 ≤ p) (hl : p ≤ s.last) (b : Bool) (acc : Array Value) :
    (listItems s b acc p).Within s := by
  have hb := skipBlank_within p hp hl
  have hq := Int.le_trans hp (s.skipBlank p).le
  have hle := Source.rest_le_rest (s := s) (s.skipBlank p).le
  rw [listItems]
  have hx := (choiceAt_one_within (r := .anyType) (a := fun r _ => anyType s r) hp hl
    (anyType_within hq hb.pos_le)).optional
  refine hx.andThen fun o ho => ?_
  have hx' := Int.le_trans hp (s.choiceAt p [(.anyType, fun r _ => anyType s r)]).optional.le
  have hxle := Source.rest_le_rest (s := s)
    (s.choiceAt p [(.anyType, fun r _ => anyType s r)]).optional.le
  cases o with
  | none => exact Step.within_ok _ hx.pos_le
  | some v =>
    have hc := (s.keyword_within [","] _ hx' hx.pos_le).optional
    refine hc.andThen fun c hcomma => ?_
    cases c with
    | none => exact Step.within_ok _ hc.pos_le
    | some c =>
      -- a comma was read, so the items go on from further along
      have hadv := optional_keyword_advances (by decide) hcomma
      have hc' := Int.le_trans hx' ((s.keyword [","]).optional
        (s.choiceAt p [(.anyType, fun r _ => anyType s r)]).optional.pos).le
      exact listItems_within hc' hc.pos_le true (acc.push v)
termination_by 8 * s.rest p + 3
decreasing_by all_goals omega

theorem map_within {p : Int} (hp : -1 ≤ p) (hl : p ≤ s.last) : (map s p).Within s := by
  rw [map]
  have ho := s.keyword_within ["\x7b"] p hp hl
  refine ho.andThen fun o hk => ?_
  have hadv := keyword_single_advances s "\x7b" (by decide) p _ hk
  have hk' : -1 ≤ (s.keyword ["\x7b"] p).pos := Int.le_trans hp (s.keyword ["\x7b"] p).le
  have hi := mapItems_within hk' ho.pos_le false []
  refine hi.andThen fun r _ => ?_
  exact (closing_within "\x7d" r.2 _ (Int.le_trans hk' (mapItems s false [] _).le) hi.pos_le).map _
termination_by 8 * s.rest p
decreasing_by omega

theorem mapItems_within {p : Int} (hp : -1 ≤ p) (hl : p ≤ s.last) (b : Bool)
    (acc : List (Text × Value)) : (mapItems s b acc p).Within s := by
  have hb := skipBlank_within p hp hl
  have hq := Int.le_trans hp (s.skipBlank p).le
  have hle := Source.rest_le_rest (s := s) (s.skipBlank p).le
  rw [mapItems]
  have hx := (choiceAt_one_within (r := .pair) (a := fun r _ => pair s r) hp hl
    (pair_within hq hb.pos_le)).optional
  refine hx.andThen fun o ho => ?_
  have hx' := Int.le_trans hp (s.choiceAt p [(.pair, fun r _ => pair s r)]).optional.le
  have hxle := Source.rest_le_rest (s := s)
    (s.choiceAt p [(.pair, fun r _ => pair s r)]).optional.le
  cases o with
  | none => exact Step.within_ok _ hx.pos_le
  | some kv =>
    have hc := (s.keyword_within [","] _ hx' hx.pos_le).optional
    refine hc.andThen fun c hcomma => ?_
    cases c with
    | none => exact Step.within_ok _ hc.pos_le
    | some c =>
      -- a comma was read, so the pairs go on from further along
      have hadv := optional_keyword_advances (by decide) hcomma
      have hc' := Int.le_trans hx' ((s.keyword [","]).optional
        (s.choiceAt p [(.pair, fun r _ => pair s r)]).optional.pos).le
      exact mapItems_within hc' hc.pos_le true _
termination_by 8 * s.rest p + 4
decreasing_by all_goals omega

theorem pair_within {p : Int} (hp : -1 ≤ p) (hl : p ≤ s.last) : (pair s p).Within s := by
  rw [pair]
  have hk := choice_one_within (r := .quotedString) quotedString_within p hp hl
  refine hk.andThen fun key _ => ?_
  have hkp := Int.le_trans hp (s.choice [(.quotedString, quotedString s)] p).le
  have hkle := Source.rest_le_rest (s := s) (s.choice [(.quotedString, quotedString s)] p).le
  have hc := s.keyword_within [":"] _ hkp hk.pos_le
  refine hc.andThen fun c hcolon => ?_
  have hadv := keyword_single_advances s ":" (by decide) _ _ hcolon
  have hc' := Int.le_trans hkp (s.keyword [":"] (s.choice [(.quotedString, quotedString s)] p).pos).le
  have hb := skipBlank_within _ hc' hc.pos_le
  have hq := Int.le_trans hc' (s.skipBlank (s.keyword [":"]
    (s.choice [(.quotedString, quotedString s)] p).pos).pos).le
  have hle := Source.rest_le_rest (s := s) (s.skipBlank (s.keyword [":"]
    (s.choice [(.quotedString, quotedString s)] p).pos).pos).le
  exact (choiceAt_one_within (r := .anyType) (a := fun r _ => anyType s r) hc' hc.pos_le
    (anyType_within hq hb.pos_le)).map _
termination_by 8 * s.rest p + 3
decreasing_by omega

end

theorem start_within : (start s).Within s :=
  choice_one_within fun _ hp hl => anyType_within hp hl

/-- Every rule of the document grammar is within the source, in either dialect. -/
theorem grammarScan_within (r : Rule) : (grammarScan s r).Within s := by
  cases r with
  | start => exact start_within.map _
  | anyType => exact Scan.Within.map (fun _ hp hl => anyType_within hp hl) _
  | primitiveType => exact primitiveType_within.map _
  | complexType => exact Scan.Within.map (fun _ hp hl => complexType_within hp hl) _
  | list => exact Scan.Within.map (fun _ hp hl => list_within hp hl) _
  | map => exact Scan.Within.map (fun _ hp hl => map_within hp hl) _
  | pair => exact Scan.Within.map (fun _ hp hl => pair_within hp hl) _
  | null => exact null_within.map _
  | boolean => exact boolean_within.map _
  | number => exact number_within.map _
  | integer => exact integer_within.map _
  | oneDigit => exact oneDigit_within.map _
  | manyDigits => exact manyDigits_within.map _
  | negOneDigit => exact negOneDigit_within.map _
  | negManyDigits => exact negManyDigits_within.map _
  | fraction => exact fraction_within.map _
  | fractionDigits => exact fractionDigits_within.map _
  | exponent => exact exponent_within.map _
  | exponentDigits => exact exponentDigits_within.map _
  | digits => exact digits_within.map _
  | digit => exact digit_within.map _
  | onenine => exact onenine_within.map _
  | sign => exact sign_within.map _
  | quotedString => exact quotedString_within.map _
  | char => exact (s.char_within none).map _
  | atEnd => exact s.atEnd_within.map _
  | blank => exact s.skipBlank_within.map _

/-- The document rule: a value and then the end of the text. -/
theorem document_within : (document s).Within s :=
  start_within.bind fun v => s.atEnd_within.bind fun _ => Scan.within_pure v

end Grammar

/-- A rule invoked by name is within the source; a rule the dialect lacks faults in place. -/
theorem Rule.scan_within (r : Rule) : (r.scan s).Within s := by
  unfold Rule.scan
  split
  · exact Grammar.grammarScan_within r
  · exact Scan.within_fail trivial

end Bounds

/-! ## Parses -/

namespace Grammar

/-- A parse reports its syntax errors at positions of the text, or just past its end. -/
theorem parse_error_pos {text : String} {e : SyntaxError} (h : parse text = .error (.mismatch e)) :
    0 ≤ e.pos ∧ e.pos ≤ text.length := by
  have hlast : (Source.of .json text).last = (text.length : Int) - 1 := by
    rw [last_of, String.length_toList]
  have hw := document_within (s := Source.of .json text) (-1) (Int.le_refl _) (by omega)
  have hle : e.pos ≤ (Source.of .json text).last + 1 := (hw.fails _ h).2
  exact ⟨(document_failure rfl h).2 e rfl, by omega⟩

/-- A trailing comma followed by a blank is reported past the closing bracket. -/
theorem parse_error_pos_comma :
    parse "[1,] " = .error (.mismatch ⟨4, .trailingComma " "⟩) ∧ (0 : Int) ≤ 4 ∧
      (4 : Int) ≤ "[1,] ".length := by
  have h : parse "[1,] " = .error (.mismatch ⟨4, .trailingComma " "⟩) := by
    have hb : (match parse "[1,] " with
        | .error f => decide (f = .mismatch ⟨4, .trailingComma " "⟩)
        | .ok _ => false) = true := by decide +kernel
    split at hb
    · next f hf => rw [hf, of_decide_eq_true hb]
    · cases hb
  exact ⟨h, parse_error_pos h⟩

end Grammar

/-! ## Sessions -/

namespace Session

/-- The cursor of the session lies from -1 to the last index of its source. -/
def InRange (st : Session) : Prop := -1 ≤ st.pos ∧ st.pos ≤ st.source.last

/-- What a command keeps: the cursor ends in range, it moved back from where it was only if the
command read a new text, and the failure it reports is within the source. -/
structure StepWithin (st : Session) (c : Command) : Prop where
  inRange : (st.run c).2.InRange
  forward : (∀ t, c ≠ .parse t) → st.pos ≤ (st.run c).2.pos
  fails : ∀ f, (st.run c).1 = .error f → f.Within (st.run c).2.source

/-- The session after running commands in order. -/
def exec (st : Session) (cs : List Command) : Session := cs.foldl (fun st c => (st.run c).2) st

theorem runScan_within {st : Session} (h : st.InRange) {α : Type} {x : Scan α} {y : α → Yield}
    (o : Bool) (hx : x.Within st.source) :
    (st.runScan x y o).2.InRange ∧ st.pos ≤ (st.runScan x y o).2.pos ∧
      ∀ f, (st.runScan x y o).1 = .error f → f.Within (st.runScan x y o).2.source := by
  have hxp := hx st.pos h.1 h.2
  refine ⟨⟨Int.le_trans h.1 (x st.pos).le, hxp.pos_le⟩, (x st.pos).le, fun f hf => ?_⟩
  unfold runScan runStep at hf
  cases o with
  | false =>
    cases hout : (x st.pos).out with
    | ok a => simp [hout, Except.map] at hf
    | error g =>
      simp only [hout, Except.map, Bool.false_eq_true, ↓reduceIte, Except.error.injEq] at hf
      subst hf
      exact hxp.fails _ hout
  | true =>
    cases hr : Step.recover (x st.pos).out with
    | ok a => simp [hr, Except.map] at hf
    | error g =>
      simp only [hr, Except.map, ↓reduceIte, Except.error.injEq] at hf
      subst hf
      obtain ⟨g', rfl, hout⟩ := Step.recover_eq_error hr
      exact hxp.fails _ hout

/-- One command keeps the cursor in range; reading a new text starts over from -1. -/
theorem run_within {st : Session} (h : st.InRange) (c : Command) : st.StepWithin c := by
  cases c with
  | parse text =>
    -- the whole document from -1, in the new source
    have hs := Source.last_ge (st.source.reread text)
    have hw : (do
        let v ← Rule.scan (st.source.reread text) .start
        let _ ← (st.source.reread text).atEnd
        pure v : Scan Yield).Within (st.source.reread text) :=
      (Rule.scan_within .start).bind fun _ => Source.atEnd_within.bind fun _ => Scan.within_pure _
    have hwp := hw (-1) (Int.le_refl _) hs
    exact ⟨⟨Int.le_trans (Int.le_refl _) (Step.le _), hwp.pos_le⟩,
      fun hne => absurd rfl (hne text), hwp.fails⟩
  | blank =>
    obtain ⟨h1, h2, h3⟩ := runScan_within h false Source.skipBlank_within (y := fun _ => .none)
    exact ⟨h1, fun _ => h2, h3⟩
  | atEnd =>
    obtain ⟨h1, h2, h3⟩ := runScan_within h false Source.atEnd_within (y := fun _ => .none)
    exact ⟨h1, fun _ => h2, h3⟩
  | segments spec =>
    refine ⟨h, fun _ => Int.le_refl _, fun f hf => ?_⟩
    simp only [run, SplitCache.split_fst st.source.sound] at hf
    cases hseg : segments spec.toList with
    | ok segs => simp [hseg, Except.map, mapError_ok] at hf
    | error g =>
      simp only [hseg, Except.map, mapError_error, Except.error.injEq] at hf
      subst hf
      trivial
  | char spec o =>
    obtain ⟨h1, h2, h3⟩ := runScan_within h o (Source.char_within spec) (y := Yield.ofChar)
    exact ⟨h1, fun _ => h2, h3⟩
  | keyword kws o =>
    obtain ⟨h1, h2, h3⟩ := runScan_within h o (Source.keyword_within kws) (y := Yield.ofString)
    exact ⟨h1, fun _ => h2, h3⟩
  | choice rules o =>
    -- every rule named, in the dialect of the source or faulting in place
    have hc : (st.source.choice (rules.map fun r => (r, r.scan st.source))).Within st.source :=
      Source.choice_within fun ra hra => by
        obtain ⟨r, -, rfl⟩ := List.mem_map.1 hra
        exact Rule.scan_within r
    obtain ⟨h1, h2, h3⟩ := runScan_within h o hc (y := id)
    exact ⟨h1, fun _ => h2, h3⟩
  | rule r =>
    obtain ⟨h1, h2, h3⟩ := runScan_within h false (Rule.scan_within r) (y := id)
    exact ⟨h1, fun _ => h2, h3⟩

theorem exec_inRange {st : Session} (h : st.InRange) (cs : List Command) : (st.exec cs).InRange := by
  induction cs generalizing st with
  | nil => exact h
  | cons c cs ih => exact ih (run_within h c).inRange

/-- From a session whose cursor is in range, every command of every run keeps the cursor in range,
never moves it back except when it reads a new text, and reports syntax errors only from -1 to
one past the last index of its source. -/
theorem exec_within (st : Session) (h : st.InRange) (cs : List Command) (c : Command) :
    (st.exec cs).StepWithin c :=
  run_within (exec_inRange h cs) c

/-- A parser reused after a document with a trailing comma, then asked for a character of a
malformed class. -/
theorem exec_within_reused :
    (Session.start .json "[1]" 0).InRange ∧
      ((Session.start .json "[1]" 0).exec [.parse "[1,] ", .choice [.list, .number] true]).StepWithin
        (.char (some "z-a") false) :=
  have h : (Session.start .json "[1]" 0).InRange := ⟨by decide, by decide⟩
  ⟨h, exec_within _ h _ _⟩

end Session

end LaxJson
