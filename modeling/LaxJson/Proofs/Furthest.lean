import Mathlib.Data.List.Induction
import LaxJson.Proofs.Bounds
/-!
# The furthest failure of a choice

A choice tries its alternatives in order, each from where the gap before them ends. The first
that succeeds gives the choice its value (`choiceAt_first_ok`). When every alternative fails with
a syntax error, the choice fails by how far each got, and the bookkeeping that decides it
(`Standing`) has a closed form: once it has recorded the errors `es` it holds their furthest
position, the first error met there, and every alternative that failed there, in the order they
were tried (`Standing.ofErrors`, `Standing.recordAll_start`).

The closed form shows where the failure parts from "the error of the alternative that got
furthest". The bookkeeping starts at position -1 with no error and keeps an error only at a
position beyond the one it holds, so when one alternative failed furthest and that was at -1, no
error was kept and the choice faults (`Standing.failure_lost`). When several failed furthest,
the new error stands at the furthest position or at the index before the last, whichever comes
first, and quotes the character there, which the empty text lacks (`Standing.failure_several`).

Main statement: `choice_ordered_furthest`, for a choice among rules of the grammar invoked by
name.
-/

set_option autoImplicit false
namespace LaxJson

namespace Standing

/-- The furthest position among the errors of alternatives, -1 when there are none. -/
def reach (es : List (Rule × SyntaxError)) : Int :=
  es.foldl (fun m re => max m re.2.pos) (-1)

/-- The alternatives whose error lies at position `m`, in the order they were tried. -/
def namedAt (es : List (Rule × SyntaxError)) (m : Int) : List Rule :=
  (es.filter fun re => re.2.pos == m).map Prod.fst

/-- The first error at position `m`. -/
def firstAt (es : List (Rule × SyntaxError)) (m : Int) : Option SyntaxError :=
  (es.find? fun re => re.2.pos == m).map Prod.snd

/-- What a choice holds once its alternatives have failed with the errors `es`, in closed form:
the furthest position, the first error there unless that position is -1, and the alternatives
that failed there. -/
def ofErrors (es : List (Rule × SyntaxError)) : Standing :=
  ⟨reach es, if reach es = -1 then none else firstAt es (reach es), namedAt es (reach es)⟩

/-- Records errors one after another, as a choice does while its alternatives fail. -/
def recordAll (st : Standing) (es : List (Rule × SyntaxError)) : Standing :=
  es.foldl (fun st re => st.record re.1 re.2) st

/-! ## The closed form -/

variable {es : List (Rule × SyntaxError)} {m : Int}

theorem reach_snoc (es : List (Rule × SyntaxError)) (re : Rule × SyntaxError) :
    reach (es ++ [re]) = max (reach es) re.2.pos := by
  simp [reach, List.foldl_append]

theorem neg_one_le_reach (es : List (Rule × SyntaxError)) : -1 ≤ reach es := by
  induction es using List.reverseRecOn with
  | nil => simp [reach]
  | append_singleton es re ih =>
    rw [reach_snoc]
    omega

theorem le_reach {re : Rule × SyntaxError} (h : re ∈ es) : re.2.pos ≤ reach es := by
  induction es using List.reverseRecOn with
  | nil => simp at h
  | append_singleton es re' ih =>
    rw [reach_snoc]
    rcases List.mem_append.1 h with h | h
    · have := ih h
      omega
    · rw [List.mem_singleton.1 h]
      omega

/-- A furthest position beyond -1 is the position of one of the errors. -/
theorem exists_at_reach (h : reach es ≠ -1) : ∃ re ∈ es, re.2.pos = reach es := by
  induction es using List.reverseRecOn with
  | nil => simp [reach] at h
  | append_singleton es re ih =>
    rw [reach_snoc] at h ⊢
    rcases Int.le_total re.2.pos (reach es) with hle | hle
    · -- the furthest position stays where it was, so an earlier error reached it
      have hr : reach es ≠ -1 := by omega
      obtain ⟨re', hmem, hpos⟩ := ih hr
      exact ⟨re', List.mem_append_left _ hmem, by omega⟩
    · exact ⟨re, by simp, by omega⟩

theorem namedAt_snoc (es : List (Rule × SyntaxError)) (re : Rule × SyntaxError) (m : Int) :
    namedAt (es ++ [re]) m = namedAt es m ++ (if re.2.pos = m then [re.1] else []) := by
  by_cases h : re.2.pos = m <;> simp [namedAt, h]

theorem firstAt_snoc (es : List (Rule × SyntaxError)) (re : Rule × SyntaxError) (m : Int) :
    firstAt (es ++ [re]) m = (firstAt es m).or (if re.2.pos = m then some re.2 else none) := by
  unfold firstAt
  rw [List.find?_append]
  cases es.find? (fun re => re.2.pos == m) <;> by_cases h : re.2.pos = m <;> simp [h]

theorem namedAt_of_lt (h : reach es < m) : namedAt es m = [] := by
  simp only [namedAt, List.map_eq_nil_iff, List.filter_eq_nil_iff, beq_iff_eq]
  intro re hre
  have := le_reach hre
  omega

theorem firstAt_of_lt (h : reach es < m) : firstAt es m = none := by
  simp only [firstAt, Option.map_eq_none_iff, List.find?_eq_none, beq_iff_eq]
  intro re hre
  have := le_reach hre
  omega

theorem firstAt_reach (h : reach es ≠ -1) : ∃ e, firstAt es (reach es) = some e := by
  obtain ⟨re, hmem, hpos⟩ := exists_at_reach h
  cases hf : es.find? (fun re => re.2.pos == reach es) with
  | none =>
    have := List.find?_eq_none.1 hf re hmem
    simp [hpos] at this
  | some re' => exact ⟨re'.2, by simp [firstAt, hf]⟩

/-- Recording one more error keeps the closed form. -/
theorem record_ofErrors (es : List (Rule × SyntaxError)) (r : Rule) (e : SyntaxError) :
    (ofErrors es).record r e = ofErrors (es ++ [(r, e)]) := by
  have h0 := neg_one_le_reach es
  unfold record ofErrors
  simp only [reach_snoc, namedAt_snoc, firstAt_snoc]
  split
  · -- a new furthest position: its error is kept and its alternative named alone
    next hlt =>
    have hmax : max (reach es) e.pos = e.pos := by omega
    rw [hmax, namedAt_of_lt hlt, firstAt_of_lt hlt]
    simp only [if_pos, Option.none_or, List.nil_append]
    rw [if_neg (by omega)]
  · split
    · -- the furthest position again: its alternative is named after the others
      next hle heq =>
      have hmax : max (reach es) e.pos = reach es := by omega
      rw [hmax, if_pos heq, if_pos heq]
      by_cases hr : reach es = -1
      · simp [hr]
      · obtain ⟨e', he'⟩ := firstAt_reach hr
        simp [hr, he']
    · -- a position short of the furthest changes nothing
      next hle hne =>
      have hmax : max (reach es) e.pos = reach es := by omega
      rw [hmax, if_neg hne, if_neg hne]
      simp

theorem recordAll_snoc (st : Standing) (es : List (Rule × SyntaxError)) (re : Rule × SyntaxError) :
    recordAll st (es ++ [re]) = (recordAll st es).record re.1 re.2 := by
  simp [recordAll, List.foldl_append]

/-- From nothing failed, recording errors one after another gives the closed form. -/
theorem recordAll_start (es : List (Rule × SyntaxError)) : recordAll start es = ofErrors es := by
  induction es using List.reverseRecOn with
  | nil => simp [recordAll, start, ofErrors, reach, namedAt]
  | append_singleton es re ih =>
    rw [recordAll_snoc, ih]
    exact record_ofErrors es re.1 re.2

/-! ## How the closed form fails -/

variable {s : Source}

/-- One alternative failed furthest, beyond -1: the choice fails with that alternative's own
error. -/
theorem failure_one {r : Rule} (h1 : namedAt es (reach es) = [r]) (h2 : reach es ≠ -1) :
    ∃ e, (r, e) ∈ es ∧ e.pos = reach es ∧ (ofErrors es).failure s = .mismatch e := by
  obtain ⟨e, he⟩ := firstAt_reach h2
  obtain ⟨re, hf, rfl⟩ := Option.map_eq_some_iff.1 he
  have hmem := List.mem_of_find?_eq_some hf
  have hpos : re.2.pos = reach es := by simpa using List.find?_some hf
  -- the first error there belongs to the one alternative named there
  have hr : re.1 = r := by
    have : re.1 ∈ namedAt es (reach es) :=
      List.mem_map_of_mem (List.mem_filter.2 ⟨hmem, by simp [hpos]⟩)
    rw [h1] at this
    exact List.mem_singleton.1 this
  refine ⟨re.2, hr ▸ hmem, hpos, ?_⟩
  simp [failure, ofErrors, h1, h2, he]

/-- One alternative failed furthest, at -1: no error was kept there, and the choice faults. -/
theorem failure_lost {r : Rule} (h1 : namedAt es (reach es) = [r]) (h2 : reach es = -1) :
    (ofErrors es).failure s = .fault .lostFailure := by
  rw [h2] at h1
  simp [failure, ofErrors, h1, h2]

/-- Several alternatives failed furthest: the choice fails with a new error that names them all,
at the furthest position or at the index before the last, whichever comes first, quoting the
character there. -/
theorem failure_several (h : (namedAt es (reach es)).length ≠ 1) :
    (ofErrors es).failure s =
      match s.get? (min (reach es) (s.last - 1)) with
      | some c => .mismatch ⟨min (reach es) (s.last - 1),
          .expected (",".intercalate ((namedAt es (reach es)).map Rule.name)) (String.singleton c)⟩
      | none => .fault .indexOutOfRange := by
  have hat : (if s.last ≤ reach es then s.last - 1 else reach es) = min (reach es) (s.last - 1) := by
    split <;> omega
  unfold failure ofErrors
  split
  · -- one alternative named there, against `h`
    next r hr =>
    simp only at hr
    simp [hr] at h
  · exact hat ▸ rfl

end Standing

/-! ## Choices -/

namespace Source

variable {s : Source} {p q : Int} {α : Type}

/-- A choice whose first alternatives fail with syntax errors gives the value of the next one,
and stops where the skipper stops after it. -/
theorem choiceAt_first_ok {pre post : List (Rule × Alt p α)} {r : Rule} {a : Alt p α} {v : α}
    (hp : -1 ≤ p)
    (hpre : ∀ ra ∈ pre, ∃ e, (ra.2 (s.skipBlank p).pos (s.skipBlank p).le).out = .error (.mismatch e))
    (ha : (a (s.skipBlank p).pos (s.skipBlank p).le).out = .ok v) :
    (s.choiceAt p (pre ++ (r, a) :: post)).out = .ok v ∧
      (s.choiceAt p (pre ++ (r, a) :: post)).pos =
        (s.skipBlank (a (s.skipBlank p).pos (s.skipBlank p).le).pos).pos := by
  obtain ⟨σ, hout, hpos⟩ := choiceAt_pass pre ((r, a) :: post) hp hpre
  obtain ⟨h1, h2⟩ := tryAlts_of_ok (s := s) (r := r) (m := post) (σ := σ) ha
    (Int.le_trans hp (s.skipBlank p).le)
  exact ⟨hout.trans h1, hpos.trans h2⟩

/-- Alternatives that all fail with syntax errors make the choice fail, where the gap ends, with
the failure of the standing that recorded their errors in turn. -/
theorem tryAlts_all_fail (hq : p ≤ q) (a : Rule → Alt p α) (es : List (Rule × SyntaxError))
    (st : Standing) (h : ∀ re ∈ es, (a re.1 q hq).out = .error (.mismatch re.2)) :
    (s.tryAlts q hq (es.map fun re => (re.1, a re.1)) st).out =
        .error ((st.recordAll es).failure s) ∧
      (s.tryAlts q hq (es.map fun re => (re.1, a re.1)) st).pos = q := by
  induction es generalizing st with
  | nil => exact ⟨rfl, rfl⟩
  | cons re es ih =>
    rw [List.map_cons, tryAlts_of_mismatch (h re List.mem_cons_self), Step.askedFirst_out,
      Step.askedFirst_pos]
    exact ih _ (fun re' h' => h re' (List.mem_cons_of_mem _ h'))

/-! ## A choice among rules invoked by name -/

/-- A step that returns or fails with a syntax error. -/
theorem recover_isOk_cases {o : Except Failure α} (h : (Step.recover o).isOk = true) :
    (∃ a, o = .ok a) ∨ ∃ e, o = .error (.mismatch e) := by
  cases o with
  | ok a => exact .inl ⟨a, rfl⟩
  | error f =>
    cases f with
    | mismatch e => exact .inr ⟨e, rfl⟩
    | fault f => simp [Step.recover, Except.isOk, Except.toBool] at h

/-- The alternatives of a choice among named rules depend on the rule alone. -/
theorem choice_rules_eq (rules : List Rule) (p : Int) :
    s.choice (rules.map fun r => (r, r.scan s)) p =
      s.choiceAt p (rules.map fun r => (r, fun q (_ : p ≤ q) => r.scan s q)) := by
  simp [choice, Function.comp_def]

/-- Named rules that all fail with syntax errors make the choice fail, where the gap before them
ends, with the failure of the closed form of their errors. -/
theorem choice_rules_fail (hp : -1 ≤ p) (es : List (Rule × SyntaxError))
    (h : ∀ re ∈ es, (re.1.scan s (s.skipBlank p).pos).out = .error (.mismatch re.2)) :
    (s.choice ((es.map Prod.fst).map fun r => (r, r.scan s)) p).out =
        .error ((Standing.ofErrors es).failure s) ∧
      (s.choice ((es.map Prod.fst).map fun r => (r, r.scan s)) p).pos = (s.skipBlank p).pos := by
  have halts : (es.map Prod.fst).map (fun r => (r, fun q (_ : p ≤ q) => r.scan s q)) =
      es.map fun re => (re.1, (fun r q (_ : p ≤ q) => r.scan s q) re.1) := by
    simp [Function.comp_def]
  rw [choice_rules_eq, halts]
  obtain ⟨hout, hpos⟩ := choiceAt_eq (s := s) hp
    (es.map fun re => (re.1, (fun r q (_ : p ≤ q) => r.scan s q) re.1))
  have hfail := tryAlts_all_fail (s := s) (s.skipBlank p).le
    (fun r q (_ : p ≤ q) => r.scan s q) es .start h
  rw [Standing.recordAll_start] at hfail
  exact ⟨hout.trans hfail.1, hpos.trans hfail.2⟩

end Source

/-- A choice among rules invoked by name, from a cursor at -1 or later, where each rule returns
or fails with a syntax error once the gap is skipped. The first rule that returns gives the
choice its value, and the choice stops where the gap after it ends. When every rule fails, the
choice stops where the gap before them ends and fails at the furthest position `m` they reached:
with the error of the one rule that failed there, unless `m` is -1, where no error was kept and
the choice faults; and when several failed there, with a new error naming them at `m` or at the
index before the last, whichever comes first, unless the text is empty and has no character to
quote there. -/
theorem choice_ordered_furthest {s : Source} {p : Int} (hp : -1 ≤ p) (rules : List Rule)
    (hres : ∀ r ∈ rules, (Step.recover (r.scan s (s.skipBlank p).pos).out).isOk) :
    (∀ pre r post v, rules = pre ++ r :: post →
      (∀ r' ∈ pre, ∀ v', (r'.scan s (s.skipBlank p).pos).out ≠ .ok v') →
      (r.scan s (s.skipBlank p).pos).out = .ok v →
      (s.choice (rules.map fun r => (r, r.scan s)) p).out = .ok v ∧
      (s.choice (rules.map fun r => (r, r.scan s)) p).pos =
        (s.skipBlank (r.scan s (s.skipBlank p).pos).pos).pos) ∧
    (∀ es : List (Rule × SyntaxError), es.map Prod.fst = rules →
      (∀ re ∈ es, (re.1.scan s (s.skipBlank p).pos).out = .error (.mismatch re.2)) →
      (s.choice (rules.map fun r => (r, r.scan s)) p).pos = (s.skipBlank p).pos ∧
      (∀ r, Standing.namedAt es (Standing.reach es) = [r] → Standing.reach es ≠ -1 →
        ∃ e, (r, e) ∈ es ∧ e.pos = Standing.reach es ∧
          (s.choice (rules.map fun r => (r, r.scan s)) p).out = .error (.mismatch e)) ∧
      (∀ r, Standing.namedAt es (Standing.reach es) = [r] → Standing.reach es = -1 →
        (s.choice (rules.map fun r => (r, r.scan s)) p).out = .error (.fault .lostFailure)) ∧
      (2 ≤ (Standing.namedAt es (Standing.reach es)).length → 0 ≤ s.last →
        ∃ c, s.get? (min (Standing.reach es) (s.last - 1)) = some c ∧
          (s.choice (rules.map fun r => (r, r.scan s)) p).out =
            .error (.mismatch ⟨min (Standing.reach es) (s.last - 1),
              .expected (",".intercalate ((Standing.namedAt es (Standing.reach es)).map Rule.name))
                (String.singleton c)⟩)) ∧
      (2 ≤ (Standing.namedAt es (Standing.reach es)).length → s.last = -1 →
        (s.choice (rules.map fun r => (r, r.scan s)) p).out = .error (.fault .indexOutOfRange))) := by
  refine ⟨?first, ?fails⟩
  case first =>
    intro pre r post v hsplit hpre hv
    rw [Source.choice_rules_eq, hsplit, List.map_append, List.map_cons]
    refine Source.choiceAt_first_ok hp ?_ hv
    -- the rules before the first that returns fail with syntax errors
    intro ra hra
    obtain ⟨r', hr', rfl⟩ := List.mem_map.1 hra
    rcases Source.recover_isOk_cases (hres r' (by rw [hsplit]; simp [hr'])) with ⟨v', hv'⟩ | he
    · exact absurd hv' (hpre r' hr' v')
    · exact he
  case fails =>
    intro es hes h
    subst hes
    obtain ⟨hout, hpos⟩ := Source.choice_rules_fail hp es h
    rw [hout]
    refine ⟨hpos, ?one, ?lost, ?several, ?empty⟩
    case one =>
      intro r h1 h2
      obtain ⟨e, hmem, hepos, hf⟩ := Standing.failure_one (s := s) h1 h2
      exact ⟨e, hmem, hepos, by rw [hf]⟩
    case lost =>
      intro r h1 h2
      rw [Standing.failure_lost h1 h2]
    case several =>
      intro hn hl
      have hm := Standing.neg_one_le_reach es
      obtain ⟨c, hc⟩ :=
        s.get?_isSome (i := min (Standing.reach es) (s.last - 1)) (by omega) (by omega) hl
      refine ⟨c, hc, ?_⟩
      rw [Standing.failure_several (by omega), hc]
    case empty =>
      intro hn hl
      have hm := Standing.neg_one_le_reach es
      have hnone : s.get? (min (Standing.reach es) (s.last - 1)) = none := by
        have hsize : s.chars.size = 0 := by unfold Source.last at hl; omega
        simp only [Source.get?, hsize]
        rw [if_neg (by omega)]
      rw [Standing.failure_several (by omega), hnone]

/-- On `]` the integer rule fails at -1, after all four of its forms failed at 0, the first
character and also the last; a choice of that rule alone then has no error to give and faults. -/
theorem choice_integer_lost :
    ((Source.of .json "]").choice [(.integer, Rule.scan (Source.of .json "]") .integer)] (-1)).out =
      .error (.fault .lostFailure) := by
  have hint : (Rule.scan (Source.of .json "]") .integer
      ((Source.of .json "]").skipBlank (-1)).pos).out = .error (.mismatch
        ⟨-1, .expected "integer_rule_4,integer_rule_3,integer_rule_2,integer_rule_1" "]"⟩) := by
    have h : ((Rule.scan (Source.of .json "]") .integer
        ((Source.of .json "]").skipBlank (-1)).pos).out.map fun _ => ()) = .error (.mismatch
          ⟨-1, .expected "integer_rule_4,integer_rule_3,integer_rule_2,integer_rule_1" "]"⟩) := by
      decide +kernel
    revert h
    cases (Rule.scan (Source.of .json "]") .integer ((Source.of .json "]").skipBlank (-1)).pos).out <;>
      simp [Except.map]
  have h := (choice_ordered_furthest (s := Source.of .json "]") (p := -1) (by decide) [.integer]
    (by decide +kernel)).2
      [(.integer, ⟨-1, .expected "integer_rule_4,integer_rule_3,integer_rule_2,integer_rule_1" "]"⟩)]
      rfl (by simpa using hint)
  exact h.2.2.1 .integer (by decide) (by decide)

end LaxJson
