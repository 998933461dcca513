import LaxJson.Proofs.Blanks
import LaxJson.Scan.Choice
/-!
# Characters, keywords and choices against the text

The primitive scans restated on what the cursor leaves unread. `char` consumes the head of the
text when it is in the class; `keyword` consumes a gap, the keyword and the gap after it, or fails
one past the first gap; `atEnd` succeeds on the empty rest.

An ordered choice takes the first alternative that succeeds (`tryAlts_prefix`); when they all
fail with syntax errors and the first failed at a position of the text, it fails with a syntax
error too, never a fault (`choiceAt_fail`). That is the fact the grammar's completeness rests on:
backtracking over an alternative never loses the error it reported.
-/

set_option autoImplicit false
namespace LaxJson

namespace Source

variable {s : Source} {p : Int} {α : Type}

/-! ## Characters -/

theorem char_end (hp : -1 ≤ p) (h : s.after p = []) (spec : Option String) :
    (s.char spec p).out = .error (.mismatch ⟨p + 1, .expectedAtEnd (classLabel spec)⟩) ∧
      (s.char spec p).pos = p := by
  rw [after_eq_nil_iff hp] at h
  simp [char, Step.ofFound, nextIn?_eq, h]

theorem char_any {c : Char} {r : List Char} (hp : -1 ≤ p) (h : s.after p = c :: r) :
    (s.char none p).out = .ok c ∧ (s.char none p).pos = p + 1 := by
  obtain ⟨hc, -, hlt⟩ := after_cons hp h
  have hn : s.nextIn? none p = .ok c := by simp [nextIn?_eq, hc, Int.not_le.2 hlt]
  simp [char, Step.ofFound, hn]

theorem char_mem {sp : String} {segs : List Segment} {c : Char} {r : List Char}
    (hseg : segments sp.toList = .ok segs) (hp : -1 ≤ p) (h : s.after p = c :: r)
    (hc : classContains segs c = true) :
    (s.char (some sp) p).out = .ok c ∧ (s.char (some sp) p).pos = p + 1 := by
  obtain ⟨hget, -, hlt⟩ := after_cons hp h
  have hn : s.nextIn? (some sp) p = .ok c := by simp [nextIn?_eq, hget, Int.not_le.2 hlt, hseg, hc]
  simp [char, Step.ofFound, hn]

theorem char_not_mem {sp : String} {segs : List Segment} {c : Char} {r : List Char}
    (hseg : segments sp.toList = .ok segs) (hp : -1 ≤ p) (h : s.after p = c :: r)
    (hc : classContains segs c = false) :
    (s.char (some sp) p).out =
        .error (.mismatch ⟨p + 1, .expected (classLabel (some sp)) (String.singleton c)⟩) ∧
      (s.char (some sp) p).pos = p := by
  obtain ⟨hget, -, hlt⟩ := after_cons hp h
  have hn : s.nextIn? (some sp) p =
      .error (.mismatch ⟨p + 1, .expected (classLabel (some sp)) (String.singleton c)⟩) := by
    simp [nextIn?_eq, hget, Int.not_le.2 hlt, hseg, hc]
  simp [char, Step.ofFound, hn]

/-- A failed `char` does not move. -/
theorem char_error_pos {spec : Option String} {f : Failure} (h : (s.char spec p).out = .error f) :
    (s.char spec p).pos = p := by
  unfold char Step.ofFound at h ⊢
  split
  · next c hc => rw [hc] at h; cases h
  · rfl

/-- Before the end or a character outside the class, `char` fails with a syntax error at a
position of the text. -/
theorem char_fail {sp : String} {segs : List Segment} (hseg : segments sp.toList = .ok segs)
    (hp : -1 ≤ p) (hr : ∀ c ∈ (s.after p).head?, classContains segs c = false) :
    (s.char (some sp) p).Mismatched := by
  cases h : s.after p with
  | nil => exact ⟨_, (char_end hp h _).1, show (0 : Int) ≤ p + 1 by omega⟩
  | cons c r =>
    rw [h] at hr
    exact ⟨_, (char_not_mem hseg hp h (hr c rfl)).1, show (0 : Int) ≤ p + 1 by omega⟩

/-- A character read is the head of the text, and in the class when there is one. -/
theorem char_sound {spec : Option String} {c : Char} (hp : -1 ≤ p)
    (h : (s.char spec p).out = .ok c) :
    (s.char spec p).pos = p + 1 ∧ s.after p = c :: s.after (p + 1) ∧
      ∀ sp segs, spec = some sp → segments sp.toList = .ok segs → classContains segs c = true := by
  have hn : s.nextIn? spec p = .ok c := by
    unfold char Step.ofFound at h
    split at h
    · next c' hc' => cases h; exact hc'
    · simp at h
  refine ⟨(char_ok h).1, ?_⟩
  rw [nextIn?_eq] at hn
  split at hn
  · cases hn
  · next hlt =>
    split at hn
    · cases hn
    · next c' hget =>
      have hafter : s.after p = c' :: s.after (p + 1) := by
        rw [after_succ hp]
        rw [get?_succ hp] at hget
        cases hr : s.after p with
        | nil => rw [hr] at hget; cases hget
        | cons d r => rw [hr] at hget; cases hget; rfl
      split at hn
      · cases hn
        exact ⟨hafter, fun sp segs h => by cases h⟩
      · next sp =>
        split at hn
        · cases hn
        · next segs hseg =>
          split at hn
          · next hcont =>
            cases hn
            refine ⟨hafter, fun sp' segs' hsp hseg' => ?_⟩
            cases hsp
            rw [hseg] at hseg'
            cases hseg'
            exact hcont
          · cases hn

/-! ## Keywords -/

/-- The keyword scan's test for a keyword at the head of the text. -/
theorem slice_begins (hp : -1 ≤ p) (k : String) :
    (s.slice (p + 1) (p + 1 + k.length) == k.toList) = ((s.after p).take k.toList.length == k.toList) := by
  rw [slice_eq_take hp, String.length_toList]

theorem keywordAt_end {kws : List String} (hp : -1 ≤ p) (h : s.after p = []) :
    s.keywordAt kws p = .error (.mismatch ⟨p + 1, .expectedAtEnd (",".intercalate kws)⟩) := by
  rw [after_eq_nil_iff hp] at h
  simp [keywordAt, h]

theorem keywordAt_found {kws : List String} {k : String} (hp : -1 ≤ p) (hne : s.after p ≠ [])
    (h : kws.find? (fun k => (s.after p).take k.toList.length == k.toList) = some k) :
    s.keywordAt kws p = .ok k := by
  rw [Ne, after_eq_nil_iff hp] at hne
  have hf : kws.find? (fun k => s.slice (p + 1) (p + 1 + k.length) == k.toList) = some k := by
    simp only [slice_begins hp]
    exact h
  simp [keywordAt, hne, hf]

theorem keywordAt_missing {kws : List String} {c : Char} {r : List Char} (hp : -1 ≤ p)
    (h : s.after p = c :: r)
    (hnone : kws.find? (fun k => (s.after p).take k.toList.length == k.toList) = none) :
    s.keywordAt kws p =
      .error (.mismatch ⟨p + 1, .expected (",".intercalate kws) (String.singleton c)⟩) := by
  obtain ⟨hget, -, hlt⟩ := after_cons hp h
  have hf : kws.find? (fun k => s.slice (p + 1) (p + 1 + k.length) == k.toList) = none := by
    simp only [slice_begins hp]
    exact hnone
  simp [keywordAt, Int.not_le.2 hlt, hf, hget]

/-- The keyword scan on a gap, a keyword that the search finds first, and a whole gap after it. -/
theorem keyword_of_text (hs : s.dialect = .json) {kws : List String} {k : String}
    {w w' r : List Char} (hp : -1 ≤ p) (h : s.after p = w ++ k.toList ++ w' ++ r)
    (hw : Trail w (k.toList ++ w' ++ r)) (hw' : Trail w' r) (hk : k.toList ≠ [])
    (hfind : kws.find? (fun k' => (k.toList ++ w' ++ r).take k'.toList.length == k'.toList) =
      some k) :
    (s.keyword kws p).out = .ok k ∧
      (s.keyword kws p).pos = p + w.length + k.toList.length + w'.length := by
  obtain ⟨hb, hbpos⟩ := skipBlank_of_trail hs hp (by simpa using h) hw
  have hq : s.after (s.skipBlank p).pos = k.toList ++ w' ++ r := by
    rw [hbpos]; exact after_add hp (by simpa using h)
  have hne : s.after (s.skipBlank p).pos ≠ [] := by
    cases hkl : k.toList with
    | nil => exact absurd hkl hk
    | cons c t => rw [hq, hkl]; simp
  have hkw : s.keywordAt kws (s.skipBlank p).pos = .ok k :=
    keywordAt_found (by omega) hne (by rw [hq]; exact hfind)
  have hq' : s.after ((s.skipBlank p).pos + k.toList.length) = w' ++ r := by
    apply after_add (by omega)
    rw [hq, List.append_assoc]
  obtain ⟨hb', hbpos'⟩ := skipBlank_of_trail hs (by omega) hq' hw'
  unfold keyword
  refine Step.andThen_ends_as hb ?_
  simp only [hkw, Step.after_out, Step.map_out, Step.after_pos, Step.map_pos]
  rw [← String.length_toList, hb', hbpos', hbpos]
  exact ⟨rfl, by omega⟩

/-- The keyword scan fails one past the gap when no keyword follows it; the gap stays consumed. -/
theorem keyword_missing (hs : s.dialect = .json) {kws : List String} {w r : List Char}
    (hp : -1 ≤ p) (h : s.after p = w ++ r) (hw : Trail w r)
    (hnone : kws.find? (fun k => r.take k.toList.length == k.toList) = none) :
    ∃ e, (s.keyword kws p).out = .error (.mismatch e) ∧ e.pos = p + w.length + 1 ∧
      (s.keyword kws p).pos = p + w.length := by
  obtain ⟨hb, hbpos⟩ := skipBlank_of_trail hs hp h hw
  have hq : s.after (s.skipBlank p).pos = r := by rw [hbpos]; exact after_add hp h
  have hkw : ∃ e, s.keywordAt kws (s.skipBlank p).pos = .error (.mismatch e) ∧
      e.pos = (s.skipBlank p).pos + 1 := by
    cases hr : r with
    | nil => exact ⟨_, keywordAt_end (by omega) (by rw [hq, hr]), rfl⟩
    | cons c r' =>
      exact ⟨_, keywordAt_missing (by omega) (by rw [hq, hr]) (by rw [hq]; exact hnone), rfl⟩
  obtain ⟨e, he, hepos⟩ := hkw
  have hkey : (s.keyword kws p).out = .error (.mismatch e) ∧
      (s.keyword kws p).pos = (s.skipBlank p).pos := by
    unfold keyword
    exact Step.andThen_ends_as hb (by simp only [he, Step.fail_out, Step.fail_pos, and_self])
  exact ⟨e, hkey.1, by rw [hepos, hbpos], by rw [hkey.2, hbpos]⟩

/-- What the keyword scan consumed: a gap, one of its keywords, and the whole gap after it. -/
theorem keyword_sound (hs : s.dialect = .json) {kws : List String} {k : String} (hp : -1 ≤ p)
    (h : (s.keyword kws p).out = .ok k) :
    k ∈ kws ∧ ∃ w w', s.after p = w ++ k.toList ++ w' ++ s.after (s.keyword kws p).pos ∧
      Trail w (k.toList ++ w' ++ s.after (s.keyword kws p).pos) ∧
      Trail w' (s.after (s.keyword kws p).pos) ∧
      (s.keyword kws p).pos = p + w.length + k.toList.length + w'.length := by
  obtain ⟨hb, w, hw, htw, hbpos⟩ := skipBlank_trail (s := s) hs hp
  unfold keyword at h ⊢
  dsimp only at h ⊢
  obtain ⟨u, hu, hk, hpos⟩ := Step.andThen_ok h
  rw [hpos]
  revert hk
  split
  · next k' hkw =>
    intro hk
    simp only [Step.after_out, Step.map_out] at hk
    obtain ⟨hq, hmem⟩ := keywordAt_ok hkw
    have hk' : k' = k := by
      cases hb' : (s.skipBlank ((s.skipBlank p).pos + k'.length)).out with
      | error f => rw [hb'] at hk; cases hk
      | ok u' => rw [hb'] at hk; exact Except.ok.inj hk
    subst hk'
    refine ⟨hmem, ?_⟩
    -- the keyword is the head of the text after the first gap
    have hne : s.after (s.skipBlank p).pos ≠ [] := by rw [Ne, after_eq_nil_iff (by omega)]; omega
    have hpre : (s.after (s.skipBlank p).pos).take k'.toList.length = k'.toList := by
      unfold keywordAt at hkw
      rw [if_neg (by omega)] at hkw
      split at hkw
      · next k'' hf =>
        cases hkw
        have := List.find?_some hf
        rw [slice_begins (by omega)] at this
        exact eq_of_beq this
      · split at hkw <;> cases hkw
    have hsplit : s.after (s.skipBlank p).pos =
        k'.toList ++ s.after ((s.skipBlank p).pos + k'.toList.length) := by
      calc s.after (s.skipBlank p).pos
          = (s.after (s.skipBlank p).pos).take k'.toList.length ++
              (s.after (s.skipBlank p).pos).drop k'.toList.length := (List.take_append_drop _ _).symm
        _ = k'.toList ++ s.after ((s.skipBlank p).pos + k'.toList.length) := by
          rw [hpre, after_add_eq_drop (by omega)]
    obtain ⟨-, w', hw', htw', hbpos'⟩ :=
      skipBlank_trail (s := s) hs (p := (s.skipBlank p).pos + k'.toList.length) (by omega)
    simp only [Step.after_pos, Step.map_pos]
    rw [← String.length_toList]
    refine ⟨w, w', ?_, ?_, htw', by rw [hbpos', hbpos]⟩
    · simp only [hw, hsplit, hw', List.append_assoc]
    · rw [List.append_assoc, ← hw', ← hsplit]
      exact htw
  · intro hk
    simp [Step.fail] at hk

/-! ## The end -/

theorem atEnd_nil (hp : -1 ≤ p) (h : s.after p = []) :
    (s.atEnd p).out = .ok () ∧ (s.atEnd p).pos = p := by
  rw [after_eq_nil_iff hp] at h
  simp [atEnd, Int.not_lt.2 h, Step.ok]

theorem atEnd_cons {c : Char} {r : List Char} (hp : -1 ≤ p) (h : s.after p = c :: r) :
    (s.atEnd p).out = .error (.mismatch ⟨p + 1, .notAtEnd (String.singleton c)⟩) ∧
      (s.atEnd p).pos = p := by
  obtain ⟨hget, -, hlt⟩ := after_cons hp h
  simp [atEnd, hlt, hget, Step.fail]

theorem atEnd_sound (hp : -1 ≤ p) (h : (s.atEnd p).out = .ok ()) : s.after p = [] := by
  cases hr : s.after p with
  | nil => rfl
  | cons c r => rw [(atEnd_cons hp hr).1] at h; cases h

end Source

/-! ## Ordered choice -/

namespace Standing

/-- A standing that has kept the error of its furthest failure, at a position of the text. -/
def Live (st : Standing) : Prop :=
  0 ≤ st.pos ∧ (∃ e, st.error = some e ∧ e.pos = st.pos) ∧ st.rules ≠ []

theorem live_start_record (r : Rule) {e : SyntaxError} (he : 0 ≤ e.pos) :
    (start.record r e).Live := by
  have hlt : start.pos < e.pos := by simp only [start]; omega
  simp only [record, if_pos hlt]
  exact ⟨he, ⟨e, rfl, rfl⟩, by simp⟩

theorem Live.record {st : Standing} (h : st.Live) (r : Rule) (e : SyntaxError) :
    (st.record r e).Live := by
  obtain ⟨h0, ⟨e', he', hpos'⟩, hr⟩ := h
  unfold Standing.record
  split
  · next hlt => exact ⟨by dsimp only; omega, ⟨e, rfl, rfl⟩, by simp⟩
  · split
    · exact ⟨h0, ⟨e', he', hpos'⟩, by simp⟩
    · exact ⟨h0, ⟨e', he', hpos'⟩, hr⟩

/-- A live standing fails with a syntax error, at a position of the text or at the one before
it; at a position of the text when one alternative failed furthest or the text has two
characters or more. -/
theorem Live.failure {st : Standing} (h : st.Live) {s : Source} (hl : 0 ≤ s.last) :
    ∃ e, st.failure s = .mismatch e ∧ -1 ≤ e.pos ∧
      (1 ≤ s.last ∨ st.rules.length = 1 → 0 ≤ e.pos) := by
  obtain ⟨h0, ⟨e', he', hpos'⟩, hr⟩ := h
  unfold Standing.failure
  split
  · next r hrules => exact ⟨e', by rw [he'], by omega, fun _ => by omega⟩
  · next hrules =>
    have hlen : st.rules.length ≠ 1 := by
      intro h1
      obtain ⟨r, hr1⟩ := List.length_eq_one_iff.1 h1
      exact hrules r hr1
    obtain ⟨c, hc⟩ := s.get?_isSome (i := if s.last ≤ st.pos then s.last - 1 else st.pos)
      (by split <;> omega) (by split <;> omega) hl
    simp only [hc]
    refine ⟨_, rfl, by dsimp only; split <;> omega, fun h1 => ?_⟩
    rcases h1 with h1 | h1
    · dsimp only; split <;> omega
    · exact absurd h1 hlen

end Standing

namespace Source

variable {s : Source} {p q : Int} {hq : p ≤ q} {α : Type}

theorem tryAlts_of_ok {r : Rule} {a : Alt p α} {m : List (Rule × Alt p α)} {σ : Standing}
    {v : α} (hv : (a q hq).out = .ok v) (hp : -1 ≤ q) :
    (s.tryAlts q hq ((r, a) :: m) σ).out = .ok v ∧
      (s.tryAlts q hq ((r, a) :: m) σ).pos = (s.skipBlank (a q hq).pos).pos := by
  have hb : (s.skipBlank (a q hq).pos).out = .ok () :=
    skipBlankFrom_ok false (Int.le_trans hp (a q hq).le)
  refine ⟨?_, ?_⟩
  · simp only [tryAlts, hv, Step.followedBy_out, Step.map_out, hb]
    rfl
  · simp only [tryAlts, hv, Step.followedBy_pos, Step.map_pos]

/-- An alternative that fails with a syntax error is recorded, and the choice goes on with the
rest, after what it asked for. -/
theorem tryAlts_of_mismatch {r : Rule} {a : Alt p α} {m : List (Rule × Alt p α)}
    {σ : Standing} {e : SyntaxError} (he : (a q hq).out = .error (.mismatch e)) :
    s.tryAlts q hq ((r, a) :: m) σ = (s.tryAlts q hq m (σ.record r e)).askedFirst (a q hq).asked := by
  simp only [tryAlts, he]

theorem tryAlts_of_fault {r : Rule} {a : Alt p α} {m : List (Rule × Alt p α)}
    {σ : Standing} {f : Fault} (hf : (a q hq).out = .error (.fault f)) :
    (s.tryAlts q hq ((r, a) :: m) σ).out = .error (.fault f) ∧
      (s.tryAlts q hq ((r, a) :: m) σ).pos = (a q hq).pos := by
  refine ⟨?_, ?_⟩ <;> simp only [tryAlts, hf]

/-- Alternatives that all fail with syntax errors leave the standing live, and the choice fails
with its failure. -/
theorem tryAlts_fail {alts : List (Rule × Alt p α)} {st : Standing} (hst : st.Live)
    (h : ∀ ra ∈ alts, ∃ e, (ra.2 q hq).out = .error (.mismatch e)) :
    ∃ st', st'.Live ∧ (alts = [] → st' = st) ∧
      (s.tryAlts q hq alts st).out = .error (st'.failure s) ∧ (s.tryAlts q hq alts st).pos = q := by
  induction alts generalizing st with
  | nil => exact ⟨st, hst, fun _ => rfl, rfl, rfl⟩
  | cons ra more ih =>
    obtain ⟨r, a⟩ := ra
    obtain ⟨e, he⟩ : ∃ e, (a q hq).out = .error (.mismatch e) := h (r, a) List.mem_cons_self
    obtain ⟨st', hst', -, hout, hpos⟩ :=
      ih (hst.record r e) (fun ra hra => h ra (List.mem_cons_of_mem _ hra))
    rw [tryAlts_of_mismatch he]
    exact ⟨st', hst', (fun h => by cases h), hout, hpos⟩

/-- Alternatives that fail with syntax errors are passed over: the rest of the alternatives go
on from a standing that has recorded them. -/
theorem tryAlts_pass {pre : List (Rule × Alt p α)} (alts : List (Rule × Alt p α)) (σ : Standing)
    (h : ∀ ra ∈ pre, ∃ e, (ra.2 q hq).out = .error (.mismatch e)) :
    ∃ σ' asked, s.tryAlts q hq (pre ++ alts) σ = (s.tryAlts q hq alts σ').askedFirst asked := by
  induction pre generalizing σ with
  | nil => exact ⟨σ, [], rfl⟩
  | cons ra pre ih =>
    obtain ⟨r, a⟩ := ra
    obtain ⟨e, he⟩ := h (r, a) List.mem_cons_self
    obtain ⟨σ', asked, h'⟩ := ih (σ.record r e) (fun ra hra => h ra (List.mem_cons_of_mem _ hra))
    exact ⟨σ', (a q hq).asked ++ asked, by
      rw [List.cons_append, tryAlts_of_mismatch he, h', Step.askedFirst_askedFirst]⟩

/-- What alternatives give is what the first of them to succeed gave, and they stop where the
skipper stops after it. -/
theorem tryAlts_sound {alts : List (Rule × Alt p α)} {σ : Standing} {v : α} (hq' : -1 ≤ q)
    (h : (s.tryAlts q hq alts σ).out = .ok v) :
    ∃ ra ∈ alts, (ra.2 q hq).out = .ok v ∧
      (s.tryAlts q hq alts σ).pos = (s.skipBlank (ra.2 q hq).pos).pos := by
  induction alts generalizing σ with
  | nil => simp [tryAlts, Step.fail] at h
  | cons ra more ih =>
    obtain ⟨r, a⟩ := ra
    rcases ha : (a q hq).out with (e | f) | v'
    · rw [tryAlts_of_mismatch ha] at h ⊢
      obtain ⟨ra, hmem, hra⟩ := ih h
      exact ⟨ra, List.mem_cons_of_mem _ hmem, hra⟩
    · rw [(tryAlts_of_fault ha).1] at h
      cases h
    · obtain ⟨h1, h2⟩ := tryAlts_of_ok (s := s) (r := r) (m := more) (σ := σ) ha hq'
      rw [h1] at h
      cases h
      exact ⟨(r, a), List.mem_cons_self, ha, h2⟩

/-- A choice runs its alternatives from where the gap before them ends. -/
theorem choiceAt_eq (hp : -1 ≤ p) (alts : List (Rule × Alt p α)) :
    (s.choiceAt p alts).out = (s.tryAlts (s.skipBlank p).pos (s.skipBlank p).le alts .start).out ∧
      (s.choiceAt p alts).pos = (s.tryAlts (s.skipBlank p).pos (s.skipBlank p).le alts .start).pos :=
  Step.andThen_ends_as (skipBlankFrom_ok false hp) ⟨rfl, rfl⟩

/-- What a choice gives is what one of its alternatives gave after the gap. -/
theorem choiceAt_sound {alts : List (Rule × Alt p α)} {v : α} (hp : -1 ≤ p)
    (h : (s.choiceAt p alts).out = .ok v) :
    ∃ ra ∈ alts, (ra.2 (s.skipBlank p).pos (s.skipBlank p).le).out = .ok v ∧
      (s.choiceAt p alts).pos = (s.skipBlank (ra.2 (s.skipBlank p).pos (s.skipBlank p).le).pos).pos := by
  obtain ⟨hout, hpos⟩ := choiceAt_eq (s := s) hp alts
  rw [hout] at h
  obtain ⟨ra, hmem, hra, hrpos⟩ := tryAlts_sound (Int.le_trans hp (s.skipBlank p).le) h
  exact ⟨ra, hmem, hra, hpos.trans hrpos⟩

/-- A choice ends as its alternatives, tried from where the gap ends, end. -/
theorem choiceAt_ends_as {alts : List (Rule × Alt p α)} (hp : -1 ≤ p) {o : Except Failure α} {e : Int}
    (h : (s.tryAlts (s.skipBlank p).pos (s.skipBlank p).le alts .start).out = o ∧
      (s.tryAlts (s.skipBlank p).pos (s.skipBlank p).le alts .start).pos = e) :
    (s.choiceAt p alts).out = o ∧ (s.choiceAt p alts).pos = e := by
  obtain ⟨hout, hpos⟩ := choiceAt_eq (s := s) hp alts
  exact ⟨hout.trans h.1, hpos.trans h.2⟩

/-- A choice passes over its first alternatives when they fail with syntax errors. -/
theorem choiceAt_pass (pre alts : List (Rule × Alt p α)) (hp : -1 ≤ p)
    (h : ∀ ra ∈ pre, ∃ e, (ra.2 (s.skipBlank p).pos (s.skipBlank p).le).out = .error (.mismatch e)) :
    ∃ σ, (s.choiceAt p (pre ++ alts)).out =
        (s.tryAlts (s.skipBlank p).pos (s.skipBlank p).le alts σ).out ∧
      (s.choiceAt p (pre ++ alts)).pos =
        (s.tryAlts (s.skipBlank p).pos (s.skipBlank p).le alts σ).pos := by
  obtain ⟨σ, asked, hσ⟩ := tryAlts_pass (s := s) alts .start h
  obtain ⟨hout, hpos⟩ := choiceAt_eq (s := s) hp (pre ++ alts)
  rw [hσ, Step.askedFirst_out] at hout
  rw [hσ, Step.askedFirst_pos] at hpos
  exact ⟨σ, hout, hpos⟩

/-- A choice whose first alternatives fail with syntax errors gives what the next one gives,
when the skipper does not move where that one stops. -/
theorem choiceAt_gives {l m : List (Rule × Alt p α)} {r : Rule} {a : Alt p α}
    {x : Except Fault α} {e : Int} (hp : -1 ≤ p)
    (hpre : ∀ ra ∈ l, ∃ e, (ra.2 (s.skipBlank p).pos (s.skipBlank p).le).out = .error (.mismatch e))
    (ha : (a (s.skipBlank p).pos (s.skipBlank p).le).Gives x e)
    (he : ∀ v, x = .ok v → (s.skipBlank e).pos = e) :
    (s.choiceAt p (l ++ (r, a) :: m)).Gives x e := by
  obtain ⟨σ, hout, hpos⟩ := choiceAt_pass l ((r, a) :: m) hp hpre
  cases hx : x with
  | error f =>
    exact Step.Gives.of_fault (hout.trans (tryAlts_of_fault (s := s) (m := m) (σ := σ) (ha.fault hx)).1)
  | ok v =>
    obtain ⟨h1, h2⟩ := ha.ok hx
    obtain ⟨o, ps⟩ := tryAlts_of_ok (s := s) (r := r) (m := m) (σ := σ) h1
      (Int.le_trans hp (s.skipBlank p).le)
    exact Step.Gives.of_ok (hout.trans o) (hpos.trans (ps.trans (by rw [h2, he v hx])))

/-- An alternative that succeeds where the skipper does not move wins, and the choice stops where
it stopped. -/
theorem tryAlts_of_ok_at {r : Rule} {a : Alt p α} {m : List (Rule × Alt p α)} {σ : Standing}
    {v : α} {e : Int} (hq' : -1 ≤ q) (ha : (a q hq).out = .ok v ∧ (a q hq).pos = e)
    (he : (s.skipBlank e).pos = e) :
    (s.tryAlts q hq ((r, a) :: m) σ).out = .ok v ∧ (s.tryAlts q hq ((r, a) :: m) σ).pos = e := by
  obtain ⟨h1, h2⟩ := tryAlts_of_ok (s := s) (r := r) (m := m) (σ := σ) ha.1 hq'
  exact ⟨h1, by rw [h2, ha.2, he]⟩

/-- A choice whose alternatives all fail with syntax errors, the first at a position of the text,
fails with a syntax error where its gap ends; at a position of the text when it had one
alternative or the text has two characters or more. -/
theorem choiceAt_fail (hp : -1 ≤ p) (hl : 0 ≤ s.last) {r : Rule} {a : Alt p α}
    {m : List (Rule × Alt p α)}
    (h0 : ∃ e, (a (s.skipBlank p).pos (s.skipBlank p).le).out = .error (.mismatch e) ∧ 0 ≤ e.pos)
    (h : ∀ ra ∈ m, ∃ e, (ra.2 (s.skipBlank p).pos (s.skipBlank p).le).out = .error (.mismatch e)) :
    ∃ e, (s.choiceAt p ((r, a) :: m)).out = .error (.mismatch e) ∧ -1 ≤ e.pos ∧
      (1 ≤ s.last ∨ m = [] → 0 ≤ e.pos) ∧ (s.choiceAt p ((r, a) :: m)).pos = (s.skipBlank p).pos := by
  obtain ⟨e0, he0, hpos0⟩ := h0
  obtain ⟨st', hst', hsame, hfout, hfpos⟩ :=
    tryAlts_fail (s := s) (Standing.live_start_record r hpos0) h
  obtain ⟨e, hfail, hlo, hhi⟩ := hst'.failure hl
  obtain ⟨hout, hpos⟩ := choiceAt_eq (s := s) hp ((r, a) :: m)
  rw [tryAlts_of_mismatch he0, Step.askedFirst_out, hfout] at hout
  rw [tryAlts_of_mismatch he0, Step.askedFirst_pos, hfpos] at hpos
  refine ⟨e, by rw [hout, hfail], hlo, fun hc => hhi ?_, hpos⟩
  rcases hc with hc | hc
  · exact .inl hc
  · rw [hsame hc]
    exact .inr (by simp [Standing.record, Standing.start, show (-1 : Int) < e0.pos by omega])

/-- A choice of one alternative that fails with a syntax error at a position of the text fails
with that same error. -/
theorem choiceAt_single_fail (hp : -1 ≤ p) {r : Rule} {a : Alt p α} {e : SyntaxError}
    (he : (a (s.skipBlank p).pos (s.skipBlank p).le).out = .error (.mismatch e)) (hpos : 0 ≤ e.pos) :
    (s.choiceAt p [(r, a)]).out = .error (.mismatch e) ∧
      (s.choiceAt p [(r, a)]).pos = (s.skipBlank p).pos := by
  obtain ⟨hout, hpos'⟩ := choiceAt_eq (s := s) hp [(r, a)]
  have hst : Standing.start.record r e = ⟨e.pos, some e, [r]⟩ := by
    simp [Standing.record, Standing.start, show (-1 : Int) < e.pos by omega]
  rw [tryAlts_of_mismatch he, hst] at hout hpos'
  exact ⟨by rw [hout]; rfl, by rw [hpos']; rfl⟩

/-! ## Choices of one alternative -/

variable {x : Scan α} {r : Rule}

theorem choice_one_of_ok {v : α} (hp : -1 ≤ p) (h : (x (s.skipBlank p).pos).out = .ok v) :
    (s.choice [(r, x)] p).out = .ok v ∧
      (s.choice [(r, x)] p).pos = (s.skipBlank (x (s.skipBlank p).pos).pos).pos := by
  obtain ⟨hout, hpos⟩ := choiceAt_eq (s := s) hp [(r, fun q _ => x q)]
  obtain ⟨h1, h2⟩ := tryAlts_of_ok (s := s) (r := r) (m := []) (σ := .start) (a := fun q _ => x q)
    h (Int.le_trans hp (s.skipBlank p).le)
  exact ⟨hout.trans h1, hpos.trans h2⟩

theorem choice_one_of_mismatched (hp : -1 ≤ p) (h : (x (s.skipBlank p).pos).Mismatched) :
    (s.choice [(r, x)] p).Mismatched ∧ (s.choice [(r, x)] p).pos = (s.skipBlank p).pos := by
  obtain ⟨e, he, h0⟩ := h
  obtain ⟨h1, h2⟩ := choiceAt_single_fail (s := s) (r := r) (a := fun q _ => x q) hp he h0
  exact ⟨⟨e, h1, h0⟩, h2⟩

theorem choice_one_of_fault {f : Fault} (hp : -1 ≤ p)
    (h : (x (s.skipBlank p).pos).out = .error (.fault f)) :
    (s.choice [(r, x)] p).out = .error (.fault f) := by
  obtain ⟨hout, -⟩ := choiceAt_eq (s := s) hp [(r, fun q _ => x q)]
  exact hout.trans (tryAlts_of_fault (s := s) (r := r) (m := []) (σ := .start)
    (a := fun q _ => x q) h).1

/-- A choice of one alternative succeeds exactly as its alternative does after the gap. -/
theorem choice_one_ok {v : α} (hp : -1 ≤ p) (h : (s.choice [(r, x)] p).out = .ok v) :
    (x (s.skipBlank p).pos).out = .ok v ∧
      (s.choice [(r, x)] p).pos = (s.skipBlank (x (s.skipBlank p).pos).pos).pos := by
  rcases hx : (x (s.skipBlank p).pos).out with (e | f) | v'
  · obtain ⟨hout, -⟩ := choiceAt_eq (s := s) hp [(r, fun q _ => x q)]
    rw [tryAlts_of_mismatch (a := fun q _ => x q) hx] at hout
    have h' : (s.choiceAt p [(r, fun q _ => x q)]).out = .ok v := h
    rw [hout] at h'
    cases h'
  · rw [choice_one_of_fault hp hx] at h
    cases h
  · obtain ⟨h1, h2⟩ := choice_one_of_ok hp hx
    rw [h1] at h
    cases h
    exact ⟨rfl, h2⟩

/-- A choice of one alternative that failed with a syntax error stopped where the gap ends. -/
theorem choice_one_mismatch_pos {e : SyntaxError} (hp : -1 ≤ p)
    (h : (s.choice [(r, x)] p).out = .error (.mismatch e)) :
    (s.choice [(r, x)] p).pos = (s.skipBlank p).pos := by
  obtain ⟨-, hpos⟩ := choiceAt_eq (s := s) hp [(r, fun q _ => x q)]
  rcases hx : (x (s.skipBlank p).pos).out with (e' | f) | v
  · rw [tryAlts_of_mismatch (a := fun q _ => x q) hx] at hpos
    exact hpos
  · rw [choice_one_of_fault hp hx] at h
    cases h
  · rw [(choice_one_of_ok (r := r) hp hx).1] at h
    cases h

/-- A choice of one alternative gives what its alternative gives after the gap, when the skipper
does not move where it stops. -/
theorem choice_one_gives {a : Except Fault α} {e : Int} (hp : -1 ≤ p)
    (hx : (x (s.skipBlank p).pos).Gives a e) (he : ∀ v, a = .ok v → (s.skipBlank e).pos = e) :
    (s.choice [(r, x)] p).Gives a e :=
  choiceAt_gives (l := []) (m := []) hp (by simp) hx he

/-- Where a choice of one alternative stops after succeeding, the text is solid. -/
theorem choice_one_solid (hs : s.dialect = .json) {v : α} (hp : -1 ≤ p)
    (h : (s.choice [(r, x)] p).out = .ok v) : Solid (s.after (s.choice [(r, x)] p).pos) := by
  rw [(choice_one_ok hp h).2]
  exact solid_skipBlank hs (Int.le_trans (Int.le_trans hp (s.skipBlank p).le)
    (x (s.skipBlank p).pos).le)

end Source

end LaxJson
