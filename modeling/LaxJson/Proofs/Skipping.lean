import LaxJson.Proofs.Blanks
/-!
# Where the skippers stop

Both blank skippers are described here by where they stop, with no reference to their loops.
The plain skipper stops at the end of the run of blanks after the cursor
(`skipBlank_plain`). The json skipper stops after the whole gap that follows the cursor: the
one cursor `q` such that the text before it is blanks and comments, the last comment perhaps
left open by the end, and the text after it is solid (`skipBlank_json_iff`). So each skipper,
run again where it stopped, stays there, and the two stop at the same place unless the first
character that is no blank is a `#` (`skipBlank_json_of_no_comment`). `blank_skippers` gathers these
for the two readers of one text.
-/

set_option autoImplicit false
namespace LaxJson

/-- The blanks that start a text form a closed gap. -/
theorem gap_takeWhile_blank (l : List Char) : Gap (l.takeWhile isBlank) := by
  induction l with
  | nil => exact .nil
  | cons c l ih =>
    cases hc : isBlank c with
    | true => simpa [List.takeWhile_cons, hc] using Gap.blank hc ih
    | false => simpa [List.takeWhile_cons, hc] using Gap.nil

/-- A text from which all leading blanks are taken starts with no blank. -/
theorem takeWhile_blank_dropWhile (l : List Char) :
    ((l.dropWhile isBlank).takeWhile isBlank) = [] := by
  have h := List.head?_dropWhile_not isBlank l
  cases hd : l.dropWhile isBlank with
  | nil => rfl
  | cons c r =>
    rw [hd] at h
    simp [show isBlank c = false from h]

namespace Source

variable {s : Source} {p : Int}

/-- The plain skipper stops at the end of the run of blanks after the cursor, whether or not a
comment was said to be open. -/
theorem skipBlankFrom_plain (hs : s.dialect = .plain) (hp : -1 ≤ p) (b : Bool) :
    (s.skipBlankFrom b p).pos = p + ((s.after p).takeWhile isBlank).length := by
  -- the text after the cursor shrinks by one character with each move
  generalize hr : s.after p = l
  induction l generalizing p b with
  | nil =>
    rw [skipBlankFrom_stop hp (by simp [hr])]
    simp
  | cons c l ih =>
    cases hc : isBlank c with
    | true =>
      have hmove : s.dialect.blankMove b c = some false := by simp [hs, Dialect.blankMove, hc]
      rw [skipBlankFrom_move hp hr hmove, ih (by omega) false (by rw [after_succ hp, hr]; rfl)]
      rw [List.takeWhile_cons_of_pos hc, List.length_cons]
      omega
    | false =>
      have hstop : s.dialect.blankMove b c = none := by simp [hs, Dialect.blankMove, hc]
      rw [skipBlankFrom_stop hp (by simp [hr, hstop])]
      simp [hc]

/-- The plain skipper succeeds and stops at the end of the run of blanks after the cursor. -/
theorem skipBlank_plain (hs : s.dialect = .plain) (hp : -1 ≤ p) :
    (s.skipBlank p).out = .ok () ∧
      (s.skipBlank p).pos = p + ((s.after p).takeWhile isBlank).length :=
  ⟨skipBlankFrom_ok false hp, skipBlankFrom_plain hs hp false⟩

/-- Where the plain skipper stopped, the text is what remains of it once its leading blanks are
dropped. -/
theorem after_skipBlank_plain (hs : s.dialect = .plain) (hp : -1 ≤ p) :
    s.after (s.skipBlank p).pos = (s.after p).dropWhile isBlank := by
  rw [(skipBlank_plain hs hp).2]
  exact after_add hp (List.takeWhile_append_dropWhile).symm

/-- Where the plain skipper stopped, skipping again does not move. -/
theorem skipBlank_plain_idem (hs : s.dialect = .plain) (hp : -1 ≤ p) :
    (s.skipBlank (s.skipBlank p).pos).pos = (s.skipBlank p).pos := by
  have hq : -1 ≤ (s.skipBlank p).pos := Int.le_trans hp (s.skipBlank p).le
  rw [(skipBlank_plain hs hq).2, after_skipBlank_plain hs hp, takeWhile_blank_dropWhile]
  simp

/-- The json skipper stops at exactly one place: the cursor after the whole gap that follows
`p`. -/
theorem skipBlank_json_iff (hs : s.dialect = .json) (hp : -1 ≤ p) (hl : p ≤ s.last) (q : Int) :
    (s.skipBlank p).pos = q ↔
      p ≤ q ∧ q ≤ s.last ∧ ∃ w, s.after p = w ++ s.after q ∧ Trail w (s.after q) := by
  constructor
  · rintro rfl
    obtain ⟨-, w, hw, htrail, hpos⟩ := skipBlank_trail hs hp
    -- the gap is part of what follows `p`, so the skipper stays within the source
    have hlen := congrArg List.length hw
    rw [List.length_append, length_after hp, length_after (Int.le_trans hp (s.skipBlank p).le)]
      at hlen
    refine ⟨(s.skipBlank p).le, ?_, w, hw, htrail⟩
    unfold rest at hlen
    omega
  · rintro ⟨hpq, hql, w, hw, htrail⟩
    rw [(skipBlank_of_trail hs hp hw htrail).2]
    -- a gap of `q - p` characters: count what follows `p` and `q`
    have hlen := congrArg List.length hw
    rw [List.length_append, length_after hp, length_after (Int.le_trans hp hpq)] at hlen
    unfold rest at hlen
    omega

/-- Unless the first character after the blanks is a `#`, the json skipper stops where the
plain one does: at the end of the run of blanks. -/
theorem skipBlank_json_of_no_comment (hs : s.dialect = .json) (hp : -1 ≤ p)
    (h : ((s.after p).dropWhile isBlank).head? ≠ some '#') :
    (s.skipBlank p).pos = p + ((s.after p).takeWhile isBlank).length := by
  have hsolid : Solid ((s.after p).dropWhile isBlank) := by
    intro c hc
    have hb := List.head?_dropWhile_not isBlank (s.after p)
    rw [hc] at hb
    exact ⟨hb, fun e => h (e ▸ hc)⟩
  exact (skipBlank_of_trail hs hp List.takeWhile_append_dropWhile.symm
    (.inl ⟨gap_takeWhile_blank _, hsolid⟩)).2

end Source

/-- The json reader's skipper stops after the whole gap of blanks and comments that follows the
cursor, the plain reader's after the run of blanks; each stays where it stopped when run again,
and they agree unless a `#` follows the blanks. -/
theorem blank_skippers (text : String) (p : Int) (hp : -1 ≤ p)
    (hl : p ≤ (Source.of .json text).last) :
    let js := Source.of .json text
    let ps := Source.of .plain text
    ((js.skipBlank p).out = .ok () ∧ ∀ q, (js.skipBlank p).pos = q ↔
      p ≤ q ∧ q ≤ js.last ∧ ∃ w, js.after p = w ++ js.after q ∧ Trail w (js.after q)) ∧
    ((ps.skipBlank p).out = .ok () ∧
      (ps.skipBlank p).pos = p + ((ps.after p).takeWhile isBlank).length) ∧
    (js.skipBlank (js.skipBlank p).pos).pos = (js.skipBlank p).pos ∧
    (ps.skipBlank (ps.skipBlank p).pos).pos = (ps.skipBlank p).pos ∧
    (((js.after p).dropWhile isBlank).head? ≠ some '#' →
      (js.skipBlank p).pos = (ps.skipBlank p).pos) := by
  intro js ps
  have hj : js.dialect = .json := rfl
  have hpl : ps.dialect = .plain := rfl
  -- the two readers hold the same characters
  have hafter : ∀ q, ps.after q = js.after q := fun _ => rfl
  refine ⟨⟨Source.skipBlankFrom_ok false hp, Source.skipBlank_json_iff hj hp hl⟩,
    Source.skipBlank_plain hpl hp, Source.skipBlank_idem hj hp,
    Source.skipBlank_plain_idem hpl hp, fun h => ?_⟩
  rw [Source.skipBlank_json_of_no_comment hj hp h, (Source.skipBlank_plain hpl hp).2, hafter]

/-- In ` # c⏎1` the json reader skips the blank and the whole comment and stops before `1`, while
the plain reader stops before the `#`. -/
theorem blank_skippers_comment :
    (-1 : Int) ≤ -1 ∧ (-1 : Int) ≤ (Source.of .json " # c\n1").last ∧
      ((Source.of .json " # c\n1").skipBlank (-1)).pos = 4 ∧
      ((Source.of .plain " # c\n1").skipBlank (-1)).pos = 0 := by
  obtain ⟨⟨-, hjs⟩, ⟨-, hps⟩, -, -, -⟩ :=
    blank_skippers " # c\n1" (-1) (by decide) (by decide)
  have hrest : (Source.of .json " # c\n1").after 4 = ['1'] := by decide
  have hcomment : Gap ['#', ' ', 'c', '\n'] := @Gap.comment [' ', 'c'] [] (by decide) .nil
  have hgap : Gap [' ', '#', ' ', 'c', '\n'] := .blank (by decide) hcomment
  have hsolid : Solid ['1'] := Solid.cons (by decide) (by decide)
  have hsplit : (Source.of .json " # c\n1").after (-1) =
      [' ', '#', ' ', 'c', '\n'] ++ (Source.of .json " # c\n1").after 4 := by decide
  refine ⟨by decide, by decide, (hjs 4).2 ⟨by decide, by decide, _, hsplit, ?_⟩, ?_⟩
  · rw [hrest]
    exact .inl ⟨hgap, hsolid⟩
  · rw [hps]
    decide

end LaxJson
