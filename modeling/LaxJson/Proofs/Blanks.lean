import LaxJson.Proofs.Cursor
import LaxJson.Proofs.Language
import LaxJson.Scan.Blank
/-!
# Skipping blanks

In the json dialect the skipper consumes exactly the gap the grammar allows before a token: a
closed gap up to solid text, or a gap whose last comment runs to the end. `skipBlank_of_trail`
says where the skipper stops when that gap is known, and `skipBlank_trail` that from every
cursor it succeeds and stops after such a gap.
-/

set_option autoImplicit false
namespace LaxJson

/-! ## Splitting a text at its leading gap -/

/-- A text either has no line feed or splits at its first one. -/
theorem split_line (l : List Char) : '\n' ∉ l ∨ ∃ body r, l = body ++ '\n' :: r ∧ '\n' ∉ body := by
  induction l with
  | nil => exact .inl (List.not_mem_nil)
  | cons c l ih =>
    by_cases hc : c = '\n'
    · exact .inr ⟨[], l, by rw [hc]; rfl, List.not_mem_nil⟩
    · rcases ih with hl | ⟨body, r, rfl, hb⟩
      · exact .inl (by simp [hl, Ne.symm hc])
      · exact .inr ⟨c :: body, r, rfl, by simp [hb, Ne.symm hc]⟩

/-- Every text starts with a whole gap. -/
theorem exists_trail : (l : List Char) → ∃ w r, l = w ++ r ∧ Trail w r
  | [] => ⟨[], [], rfl, .inl ⟨.nil, Solid.nil⟩⟩
  | c :: l => by
    by_cases hb : isBlank c = true
    · obtain ⟨w, r, rfl, hw⟩ := exists_trail l
      exact ⟨c :: w, r, rfl, by simpa using Trail.gap_append (Gap.blank hb .nil) hw⟩
    · by_cases hh : c = '#'
      · subst hh
        rcases split_line l with hl | ⟨body, r, rfl, hn⟩
        · exact ⟨'#' :: l, [], by simp, .inr ⟨⟨[], l, rfl, .nil, hl⟩, rfl⟩⟩
        · have : r.length < ('#' :: (body ++ '\n' :: r)).length := by simp; omega
          obtain ⟨w, r', rfl, hw⟩ := exists_trail r
          refine ⟨'#' :: body ++ '\n' :: w, r', by simp, ?_⟩
          have hc : Gap ('#' :: body ++ ['\n']) := by
            simpa using Gap.comment hn Gap.nil
          simpa using hw.gap_append hc
      · exact ⟨[], c :: l, rfl, .inl ⟨.nil, Solid.cons (by simpa using hb) hh⟩⟩
termination_by l => l.length

namespace Source

variable {s : Source} {p : Int}

/-! ## One move of the skipper -/

theorem skipBlankFrom_ok (b : Bool) (hp : -1 ≤ p) : (s.skipBlankFrom b p).out = .ok () := by
  induction b, p using Source.skipBlankFrom.induct (s := s) with
  | case1 b p hlt hnone =>
    have hne : s.after p ≠ [] := by rw [Ne, after_eq_nil_iff hp]; omega
    rw [get?_succ hp] at hnone
    cases h : s.after p with
    | nil => exact absurd h hne
    | cons c r => rw [h] at hnone; cases hnone
  | case2 b p hlt c hc hmove =>
    rw [skipBlankFrom, dif_pos hlt]
    simp only [hc, hmove, Step.ok_out]
  | case3 b p hlt c hc b' hmove ih =>
    rw [skipBlankFrom, dif_pos hlt]
    simp only [hc, hmove, Step.after_out]
    exact ih (by omega)
  | case4 b p hlt =>
    rw [skipBlankFrom, dif_neg hlt]
    rfl

/-- The skipper moves on from the character after the cursor to the state `blankMove` gives. -/
theorem skipBlankFrom_move {b b' : Bool} {c : Char} {r : List Char} (hp : -1 ≤ p)
    (h : s.after p = c :: r) (hmove : s.dialect.blankMove b c = some b') :
    (s.skipBlankFrom b p).pos = (s.skipBlankFrom b' (p + 1)).pos := by
  obtain ⟨hc, -, hlt⟩ := after_cons hp h
  rw [skipBlankFrom, dif_pos hlt]
  simp only [hc, hmove, Step.after_pos]

theorem skipBlankFrom_congr {b : Bool} {q q' : Int} (h : q = q') :
    (s.skipBlankFrom b q).pos = (s.skipBlankFrom b q').pos := by
  subst h
  rfl

/-- The skipper stops before a character that `blankMove` refuses, and at the end. -/
theorem skipBlankFrom_stop {b : Bool} (hp : -1 ≤ p)
    (h : ∀ c ∈ (s.after p).head?, s.dialect.blankMove b c = none) :
    (s.skipBlankFrom b p).pos = p := by
  rw [skipBlankFrom]
  split
  · next hlt =>
    cases hr : s.after p with
    | nil => rw [after_eq_nil_iff hp] at hr; omega
    | cons c r =>
      obtain ⟨hc, -, -⟩ := after_cons hp hr
      rw [hr] at h
      simp only [hc, h c rfl, Step.ok_pos]
  · rfl

theorem blankMove_blank (hs : s.dialect = .json) {c : Char} (hc : isBlank c = true) :
    s.dialect.blankMove false c = some false := by
  have hh : c ≠ '#' := by rintro rfl; exact absurd hc (by decide)
  simp [hs, Dialect.blankMove, hh, hc]

theorem blankMove_hash (hs : s.dialect = .json) : s.dialect.blankMove false '#' = some true := by
  simp [hs, Dialect.blankMove]

theorem blankMove_comment (hs : s.dialect = .json) {c : Char} :
    s.dialect.blankMove true c = some (c != '\n') := by
  simp [hs, Dialect.blankMove]

theorem blankMove_solid (hs : s.dialect = .json) {c : Char} (hb : isBlank c = false)
    (hh : c ≠ '#') : s.dialect.blankMove false c = none := by
  simp [hs, Dialect.blankMove, hh, hb]

/-! ## Comments and gaps -/

/-- Inside a comment the skipper runs up to and including the next line feed. -/
theorem skipBlankFrom_comment (hs : s.dialect = .json) {body r : List Char} (hp : -1 ≤ p)
    (h : s.after p = body ++ '\n' :: r) (hn : '\n' ∉ body) :
    (s.skipBlankFrom true p).pos = (s.skipBlankFrom false (p + body.length + 1)).pos := by
  induction body generalizing p with
  | nil =>
    rw [skipBlankFrom_move hp h (blankMove_comment hs)]
    exact skipBlankFrom_congr (by simp only [List.length_nil]; omega)
  | cons c body ih =>
    have hc : c ≠ '\n' := fun hc => hn (hc ▸ List.mem_cons_self)
    rw [skipBlankFrom_move hp h (blankMove_comment hs), bne_iff_ne.2 hc,
      ih (by omega) (by rw [after_succ hp, h]; rfl) (fun hm => hn (List.mem_cons_of_mem c hm))]
    exact skipBlankFrom_congr (by simp only [List.length_cons]; omega)

/-- A comment that no line feed closes runs to the end. -/
theorem skipBlankFrom_open (hs : s.dialect = .json) {body : List Char} (hp : -1 ≤ p)
    (h : s.after p = body) (hn : '\n' ∉ body) :
    (s.skipBlankFrom true p).pos = p + body.length := by
  induction body generalizing p with
  | nil =>
    rw [skipBlankFrom_stop hp (by rw [h]; simp)]
    simp
  | cons c body ih =>
    have hc : c ≠ '\n' := fun hc => hn (hc ▸ List.mem_cons_self)
    rw [skipBlankFrom_move hp h (blankMove_comment hs), bne_iff_ne.2 hc,
      ih (by omega) (by rw [after_succ hp, h]; rfl) (fun hm => hn (List.mem_cons_of_mem c hm))]
    simp only [List.length_cons]
    omega

/-- A closed gap is skipped as a whole. -/
theorem skipBlankFrom_gap (hs : s.dialect = .json) {w r : List Char} (hp : -1 ≤ p)
    (h : s.after p = w ++ r) (hw : Gap w) :
    (s.skipBlankFrom false p).pos = (s.skipBlankFrom false (p + w.length)).pos := by
  induction hw generalizing p with
  | nil => exact skipBlankFrom_congr (by simp only [List.length_nil]; omega)
  | @blank c w hc _ ih =>
    rw [skipBlankFrom_move hp h (blankMove_blank hs hc),
      ih (by omega) (by rw [after_succ hp, h]; rfl)]
    exact skipBlankFrom_congr (by simp only [List.length_cons]; omega)
  | @comment body w hn _ ih =>
    have h' : s.after (p + 1) = body ++ '\n' :: (w ++ r) := by
      rw [after_succ hp, h]
      simp
    have h'' : s.after (p + 1 + body.length + 1) = w ++ r := by
      have := after_add (s := s) (p := p + 1) (t := body ++ ['\n']) (r := w ++ r) (by omega)
        (by simp [h'])
      rw [← this]
      congr 1
      simp only [List.length_append, List.length_cons, List.length_nil]
      omega
    have h0 : s.after p = '#' :: (body ++ '\n' :: (w ++ r)) := by rw [h]; simp
    rw [skipBlankFrom_move hp h0 (blankMove_hash hs), skipBlankFrom_comment hs (by omega) h' hn,
      ih (by omega) h'']
    exact skipBlankFrom_congr (by simp only [List.cons_append, List.length_cons, List.length_append]; omega)

/-! ## The skipper against the grammar -/

/-- Before a known whole gap, the skipper succeeds and stops right after it. -/
theorem skipBlank_of_trail (hs : s.dialect = .json) {w r : List Char} (hp : -1 ≤ p)
    (h : s.after p = w ++ r) (hw : Trail w r) :
    (s.skipBlank p).out = .ok () ∧ (s.skipBlank p).pos = p + w.length := by
  refine ⟨skipBlankFrom_ok false hp, ?_⟩
  rcases hw with ⟨hw, hr⟩ | ⟨⟨g, body, rfl, hg, hn⟩, rfl⟩
  · rw [skipBlank, skipBlankFrom_gap hs hp h hw]
    apply skipBlankFrom_stop (by omega)
    intro c hc
    rw [after_add hp h] at hc
    obtain ⟨hb, hh⟩ := hr c hc
    exact blankMove_solid hs hb hh
  · have hq : s.after (p + g.length) = '#' :: body := by
      apply after_add hp
      simpa using h
    rw [skipBlank, skipBlankFrom_gap hs hp (by simpa using h) hg,
      skipBlankFrom_move (by omega) hq (blankMove_hash hs),
      skipBlankFrom_open hs (by omega) (by rw [after_succ (by omega), hq]; rfl) hn]
    simp only [List.length_append, List.length_cons]
    omega

/-- From every cursor the skipper succeeds, and what it passed over is the whole gap before
where it stopped. -/
theorem skipBlank_trail (hs : s.dialect = .json) (hp : -1 ≤ p) :
    (s.skipBlank p).out = .ok () ∧ ∃ w, s.after p = w ++ s.after (s.skipBlank p).pos ∧
      Trail w (s.after (s.skipBlank p).pos) ∧ (s.skipBlank p).pos = p + w.length := by
  obtain ⟨w, r, hwr, hw⟩ := exists_trail (s.after p)
  obtain ⟨hok, hpos⟩ := skipBlank_of_trail hs hp hwr hw
  have hr : s.after (s.skipBlank p).pos = r := by rw [hpos]; exact after_add hp hwr
  exact ⟨hok, w, by rw [hr]; exact hwr, by rw [hr]; exact hw, hpos⟩

/-- Before solid text the skipper does not move. -/
theorem skipBlank_of_solid (hs : s.dialect = .json) (hp : -1 ≤ p) (h : Solid (s.after p)) :
    (s.skipBlank p).pos = p := by
  have := (skipBlank_of_trail hs hp (w := []) (r := s.after p) rfl (.inl ⟨.nil, h⟩)).2
  simpa using this

/-- Where the skipper stopped, skipping again does not move. -/
theorem skipBlank_idem (hs : s.dialect = .json) (hp : -1 ≤ p) :
    (s.skipBlank (s.skipBlank p).pos).pos = (s.skipBlank p).pos := by
  obtain ⟨-, w, -, hw, -⟩ := skipBlank_trail hs hp
  exact skipBlank_of_solid hs (Int.le_trans hp (s.skipBlank p).le) hw.solid

/-- Where the skipper stops, the text is solid. -/
theorem solid_skipBlank (hs : s.dialect = .json) (hp : -1 ≤ p) :
    Solid (s.after (s.skipBlank p).pos) := by
  obtain ⟨-, w, -, hw, -⟩ := skipBlank_trail hs hp
  exact hw.solid

end Source

end LaxJson
