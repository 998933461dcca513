import LaxJson.Proofs.Tokens
/-!
# Reading a class spec

A spec is read from the left, one segment at a time: a character followed by `-` and one more
character is read as a range, any other character as itself. `Reading l segs r` says that
without running anything: the segments spell the spec up to the text `r`, every range has its
ends in increasing order, and no character was read alone where a `-` and another character
follow it.

Main statements:
- `segments_eq_ok_iff`: the segments of a spec are its reading to the end, and no other list of
  segments is (`reading_unique`).
- `segments_eq_error_iff`: a spec is refused exactly when its reading meets a range whose ends
  are not in increasing order, and then always as a bad range.
- `char_accepts_iff`: `char` accepts the next character when a one-character segment is that
  character or a range holds it; with no `-` inside the spec, exactly when the spec holds it
  (`char_accepts_plain_iff`).
- `segments_reads_class` gathers the four.
-/

set_option autoImplicit false
namespace LaxJson

namespace Segment

/-- Whether a segment can come out of a reading: a range has its ends in increasing order. -/
def Ordered : Segment → Prop
  | single _ => True
  | range lo hi => lo < hi

end Segment

/-- The characters a list of segments was read from. -/
def spell (segs : List Segment) : List Char := segs.flatMap Segment.toList

@[simp] theorem spell_nil : spell [] = [] := rfl

@[simp] theorem spell_cons (g : Segment) (segs : List Segment) :
    spell (g :: segs) = g.toList ++ spell segs := rfl

/-- Whether a text starts with `-` and one more character, so that a character read just before
it is the low end of a range. -/
def opensRange : List Char → Bool
  | '-' :: _ :: _ => true
  | _ => false

theorem opensRange_eq_false {l : List Char} :
    opensRange l = false ↔ ∀ b more, l ≠ '-' :: b :: more := by
  unfold opensRange
  split <;> simp_all

/-- Whether segments were read greedily from a spec in which the text `r` follows them: no
character was read alone where `-` and one more character follow it. -/
def Greedy : List Segment → List Char → Prop
  | [], _ => True
  | .single _ :: segs, r => opensRange (spell segs ++ r) = false ∧ Greedy segs r
  | .range _ _ :: segs, r => Greedy segs r

/-- `segs` is how a spec `l` reads from the left up to the text `r`: the segments spell `l` up
to `r`, each range has its ends in increasing order, and each segment is the longest that the
reading can take where it stands. -/
structure Reading (l : List Char) (segs : List Segment) (r : List Char) : Prop where
  spells : spell segs ++ r = l
  ordered : ∀ g ∈ segs, g.Ordered
  greedy : Greedy segs r

namespace Reading

variable {l r : List Char} {segs : List Segment}

theorem nil (l : List Char) : Reading l [] l := ⟨rfl, (fun _ h => nomatch h), trivial⟩

theorem single {c : Char} (hc : opensRange l = false) (h : Reading l segs r) :
    Reading (c :: l) (.single c :: segs) r where
  spells := by simp [← h.spells, Segment.toList]
  ordered := by
    intro g hg
    rcases List.mem_cons.1 hg with rfl | hg
    · trivial
    · exact h.ordered g hg
  greedy := ⟨by rw [h.spells]; exact hc, h.greedy⟩

theorem range {x y : Char} (hxy : x < y) (h : Reading l segs r) :
    Reading (x :: '-' :: y :: l) (.range x y :: segs) r where
  spells := by simp [← h.spells, Segment.toList]
  ordered := by
    intro g hg
    rcases List.mem_cons.1 hg with rfl | hg
    · exact hxy
    · exact h.ordered g hg
  greedy := h.greedy

end Reading

/-! ## Reading against splitting -/

/-- Splitting a spec read up to `r` gives what was read, followed by the segments of `r`. -/
theorem segments_of_reading {l r : List Char} {segs : List Segment} (h : Reading l segs r) :
    segments l = (segments r).map (segs ++ ·) := by
  obtain ⟨hspell, hord, hgreedy⟩ := h
  subst hspell
  induction segs with
  | nil =>
    rw [spell_nil, List.nil_append]
    cases segments r <;> rfl
  | cons g segs ih =>
    have hord' : ∀ g ∈ segs, g.Ordered := fun g hg => hord g (List.mem_cons_of_mem _ hg)
    cases g with
    | single c =>
      -- a single character is read alone only where no range opens after it
      obtain ⟨hopen, hgreedy⟩ := hgreedy
      have hnot := opensRange_eq_false.1 hopen
      rw [spell_cons, Segment.toList, List.singleton_append, List.cons_append,
        segments.eq_2 _ _ hnot, ih hord' hgreedy]
      cases segments r <;> rfl
    | range x y =>
      have hxy : x < y := hord _ List.mem_cons_self
      rw [spell_cons, Segment.toList]
      simp only [List.cons_append, List.nil_append]
      rw [segments.eq_1, if_pos hxy, ih hord' hgreedy]
      cases segments r <;> rfl

/-- The segments of a spec are its reading to the end. -/
theorem reading_of_segments {l : List Char} {segs : List Segment} (h : segments l = .ok segs) :
    Reading l segs [] := by
  induction l using segments.induct generalizing segs with
  | case1 a b more hab ih =>
    rw [segments.eq_1, if_pos hab] at h
    obtain ⟨segs', hm, rfl⟩ := map_eq_ok h
    exact (ih hm).range hab
  | case2 a b more hab =>
    rw [segments.eq_1, if_neg hab] at h
    cases h
  | case3 c more hnot ih =>
    rw [segments.eq_2 _ _ hnot] at h
    obtain ⟨segs', hm, rfl⟩ := map_eq_ok h
    exact (ih hm).single (opensRange_eq_false.2 hnot)
  | case4 =>
    cases h
    exact Reading.nil []

/-- A spec is refused only for a range out of order, and then its reading has met that range. -/
theorem reading_of_segments_error {l : List Char} {f : Fault} (h : segments l = .error f) :
    f = .badRange ∧ ∃ segs x y more, Reading l segs (x :: '-' :: y :: more) ∧ y ≤ x := by
  induction l using segments.induct with
  | case1 a b more hab ih =>
    rw [segments.eq_1, if_pos hab] at h
    obtain ⟨hf, segs, x, y, more', hr, hyx⟩ := ih (map_eq_error h)
    exact ⟨hf, .range a b :: segs, x, y, more', hr.range hab, hyx⟩
  | case2 a b more hab =>
    rw [segments.eq_1, if_neg hab] at h
    cases h
    exact ⟨rfl, [], a, b, more, Reading.nil _, Char.not_lt.1 hab⟩
  | case3 c more hnot ih =>
    rw [segments.eq_2 _ _ hnot] at h
    obtain ⟨hf, segs, x, y, more', hr, hyx⟩ := ih (map_eq_error h)
    exact ⟨hf, .single c :: segs, x, y, more',
      hr.single (opensRange_eq_false.2 hnot), hyx⟩
  | case4 => cases h

/-- A spec splits into `segs` exactly when `segs` is its reading to the end. -/
theorem segments_eq_ok_iff {l : List Char} {segs : List Segment} :
    segments l = .ok segs ↔ Reading l segs [] := by
  refine ⟨reading_of_segments, fun h => ?_⟩
  rw [segments_of_reading h, segments.eq_3]
  simp [Except.map]

/-- One spec has one reading. -/
theorem reading_unique {l : List Char} {segs segs' : List Segment} (h : Reading l segs [])
    (h' : Reading l segs' []) : segs = segs' := by
  have e := (segments_eq_ok_iff.2 h).symm.trans (segments_eq_ok_iff.2 h')
  simpa using e

/-- A spec is refused exactly when its reading meets a range with its ends out of order, and
always as a bad range. -/
theorem segments_eq_error_iff {l : List Char} {f : Fault} :
    segments l = .error f ↔
      f = .badRange ∧ ∃ segs x y more, Reading l segs (x :: '-' :: y :: more) ∧ y ≤ x := by
  refine ⟨reading_of_segments_error, ?_⟩
  rintro ⟨rfl, segs, x, y, more, hr, hyx⟩
  rw [segments_of_reading hr, segments.eq_1, if_neg (Char.not_lt.2 hyx)]
  rfl

/-! ## What a class holds -/

/-- A class holds a character when a one-character segment is that character or a range
holds it. -/
theorem classContains_iff {segs : List Segment} {c : Char} :
    classContains segs c = true ↔
      .single c ∈ segs ∨ ∃ x y, .range x y ∈ segs ∧ x ≤ c ∧ c ≤ y := by
  simp only [classContains, List.any_eq_true]
  constructor
  · rintro ⟨g, hg, hc⟩
    cases g with
    | single x =>
      have : c = x := by simpa [Segment.contains] using hc
      exact .inl (this ▸ hg)
    | range x y =>
      have : x ≤ c ∧ c ≤ y := by simpa [Segment.contains] using hc
      exact .inr ⟨x, y, hg, this⟩
  · rintro (hg | ⟨x, y, hg, hx, hy⟩)
    · exact ⟨_, hg, by simp [Segment.contains]⟩
    · exact ⟨_, hg, by simp [Segment.contains, hx, hy]⟩

/-- A spec with no `-` between its first and last character reads as its characters one by
one. -/
theorem segments_of_no_inner_dash {l : List Char} (h : '-' ∉ l.tail.dropLast) :
    segments l = .ok (l.map .single) := by
  induction l with
  | nil => rfl
  | cons c more ih =>
    have hnot : ∀ b more', more ≠ '-' :: b :: more' := by
      rintro b more' rfl
      exact h (by simp)
    have hinner : '-' ∉ more.tail.dropLast := by
      rw [← List.tail_dropLast]
      exact fun hm => h (List.mem_of_mem_tail hm)
    rw [segments.eq_2 _ _ (fun b more' e => hnot b more' e), ih hinner]
    rfl

namespace Source

variable {s : Source} {p : Int}

/-- `char` accepts the character after the cursor exactly when the class of the spec holds
it. -/
theorem char_accepts_iff {sp : String} {segs : List Segment} {c : Char} {r : List Char}
    (hseg : segments sp.toList = .ok segs) (hp : -1 ≤ p) (h : s.after p = c :: r) :
    (s.char (some sp) p).out = .ok c ↔
      .single c ∈ segs ∨ ∃ x y, .range x y ∈ segs ∧ x ≤ c ∧ c ≤ y := by
  rw [← classContains_iff]
  cases hc : classContains segs c with
  | true => simp [(char_mem hseg hp h hc).1]
  | false => simp [(char_not_mem hseg hp h hc).1]

/-- With no `-` between its first and last character, a spec's class holds exactly the
characters of the spec. -/
theorem char_accepts_plain_iff {sp : String} {c : Char} {r : List Char}
    (hdash : '-' ∉ sp.toList.tail.dropLast) (hp : -1 ≤ p) (h : s.after p = c :: r) :
    (s.char (some sp) p).out = .ok c ↔ c ∈ sp.toList := by
  rw [char_accepts_iff (segments_of_no_inner_dash hdash) hp h]
  simp

end Source

/-- Splitting a spec is a lossless greedy reading, refused exactly at the first range out of
order, and `char` accepts what the segments hold; a spec with `-` only at its ends holds its
own characters. -/
theorem segments_reads_class (spec : String) :
    (∀ segs, segments spec.toList = .ok segs ↔ Reading spec.toList segs []) ∧
    (∀ f, segments spec.toList = .error f ↔ f = .badRange ∧
      ∃ segs x y more, Reading spec.toList segs (x :: '-' :: y :: more) ∧ y ≤ x) ∧
    (∀ segs, segments spec.toList = .ok segs →
      ∀ (s : Source) (p : Int) (c : Char) (r : List Char), -1 ≤ p → s.after p = c :: r →
        ((s.char (some spec) p).out = .ok c ↔
          .single c ∈ segs ∨ ∃ x y, .range x y ∈ segs ∧ x ≤ c ∧ c ≤ y)) ∧
    ('-' ∉ spec.toList.tail.dropLast →
      ∀ (s : Source) (p : Int) (c : Char) (r : List Char), -1 ≤ p → s.after p = c :: r →
        ((s.char (some spec) p).out = .ok c ↔ c ∈ spec.toList)) :=
  ⟨fun _ => segments_eq_ok_iff, fun _ => segments_eq_error_iff,
    fun _ hseg _ _ _ _ hp h => Source.char_accepts_iff hseg hp h,
    fun hdash _ _ _ _ hp h => Source.char_accepts_plain_iff hdash hp h⟩

/-- The sign class `+-` holds its `-`: the dash ends the spec, so it stands for itself. -/
theorem sign_class_holds_dash :
    '-' ∉ "+-".toList.tail.dropLast ∧ (-1 : Int) ≤ -1 ∧
      (Source.of .json "-").after (-1) = ['-'] ∧
      ((Source.of .json "-").char (some "+-") (-1)).out = .ok '-' := by
  have hdash : '-' ∉ "+-".toList.tail.dropLast := by decide
  have hafter : (Source.of .json "-").after (-1) = ['-'] := by decide
  have h := (segments_reads_class "+-").2.2.2 hdash (Source.of .json "-") (-1) '-' [] (by decide)
    hafter
  exact ⟨hdash, by decide, hafter, h.2 (by decide)⟩

end LaxJson
