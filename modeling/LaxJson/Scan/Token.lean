import LaxJson.Scan.Blank
import LaxJson.Scan.CharClass
/-
# Characters, keywords and the end

The three primitive scans. `char` consumes the next character when it is in a class;
`keyword` skips blanks, consumes the first of its keywords that the text continues with, and
skips blanks again; `atEnd` succeeds when nothing follows the cursor. Each decides from the
source and the cursor alone, through a function into `Except` that the scan wraps; a
failure names position `cursor + 1`, the first character not consumed. `char` takes the
segments of its class from the source's cache and lists the spec among those it asked for; since
the cache is sound, what it finds is what splitting the spec afresh finds (`nextIn?_eq`).

The main statements are that `char` and a keyword scan with nonempty keywords advance: each
success leaves less of the source unread.
-/

set_option autoImplicit false
namespace LaxJson

/-- How a class is named in messages: `character` for any character, the spec in brackets
otherwise. -/
def classLabel : Option String → String
  | none => "character"
  | some spec => "[" ++ spec ++ "]"

/-- The step of reading one character at cursor `p`, from what the class test found and the
specs it asked for: a character found is consumed, and nothing is consumed on failure. -/
def Step.ofFound (p : Int) (found : Except Failure Char) (asked : List String) : Step p Char :=
  match found with
  | .ok c => ⟨.ok c, p + 1, by omega, asked⟩
  | .error f => ⟨.error f, p, Int.le_refl p, asked⟩

@[simp] theorem Step.ofFound_asked (p : Int) (found : Except Failure Char) (asked : List String) :
    (Step.ofFound p found asked).asked = asked := by
  cases found <;> rfl

namespace Source

/-- The class test at cursor `p`: the character after the cursor when it is in the class of
`spec` (any character when there is no spec), with the segments of the spec taken from the
cache, together with the specs it asked for. The spec is asked for only when a character
follows the cursor and there is a spec. The end of the source is noticed before a malformed
spec, and a malformed spec before a character outside the class. -/
def classTest (s : Source) (spec : Option String) (p : Int) : Except Failure Char × List String :=
  if s.last ≤ p then (.error (.mismatch ⟨p + 1, .expectedAtEnd (classLabel spec)⟩), [])
  else match s.get? (p + 1) with
    | none => (.error (.fault .indexOutOfRange), [])
    | some c => match spec with
      | none => (.ok c, [])
      | some sp =>
        let found := match (s.cache.split sp).1 with
          | .error f => .error (.fault f)
          | .ok segs =>
            if classContains segs c then .ok c
            else .error (.mismatch ⟨p + 1, .expected (classLabel spec) (String.singleton c)⟩)
        (found, [sp])

/-- What the class test at cursor `p` finds. -/
def nextIn? (s : Source) (spec : Option String) (p : Int) : Except Failure Char :=
  (s.classTest spec p).1

/-- The specs the class test at cursor `p` asks for. -/
def requests (s : Source) (spec : Option String) (p : Int) : List String :=
  (s.classTest spec p).2

/-- The class test finds what splitting the spec afresh finds: the cache is sound. -/
theorem nextIn?_eq (s : Source) (spec : Option String) (p : Int) :
    s.nextIn? spec p =
      if s.last ≤ p then .error (.mismatch ⟨p + 1, .expectedAtEnd (classLabel spec)⟩)
      else match s.get? (p + 1) with
        | none => .error (.fault .indexOutOfRange)
        | some c => match spec with
          | none => .ok c
          | some sp => match segments sp.toList with
            | .error f => .error (.fault f)
            | .ok segs =>
              if classContains segs c then .ok c
              else .error (.mismatch ⟨p + 1, .expected (classLabel spec) (String.singleton c)⟩) := by
  unfold nextIn? classTest
  split
  · rfl
  · split
    · rfl
    · split
      · rfl
      · simp only [SplitCache.split_fst s.sound]

/-- The class test asks for its spec when, and only when, a character follows the cursor. -/
theorem requests_eq (s : Source) (spec : Option String) (p : Int) :
    s.requests spec p =
      if s.last ≤ p then [] else match s.get? (p + 1) with
        | none => []
        | some _ => spec.toList := by
  unfold requests classTest
  split
  · rfl
  · split
    · rfl
    · split <;> rfl

/-- Consumes the next character when it is in the class of `spec`; nothing is consumed on
failure. -/
def char (s : Source) (spec : Option String) : Scan Char := fun p =>
  Step.ofFound p (s.nextIn? spec p) (s.requests spec p)

/-- The first keyword that the text after cursor `q` continues with. -/
def keywordAt (s : Source) (kws : List String) (q : Int) : Except Failure String :=
  let names := ",".intercalate kws
  if s.last ≤ q then .error (.mismatch ⟨q + 1, .expectedAtEnd names⟩)
  else match kws.find? (fun k => s.slice (q + 1) (q + 1 + k.length) == k.toList) with
    | some k => .ok k
    | none => match s.get? (q + 1) with
      | some c => .error (.mismatch ⟨q + 1, .expected names (String.singleton c)⟩)
      | none => .error (.fault .indexOutOfRange)

/-- Skips blanks, consumes the first keyword the text continues with, and skips blanks
again. On failure the cursor stays after the first blanks. -/
def keyword (s : Source) (kws : List String) : Scan String := fun p =>
  let b := s.skipBlank p
  b.andThen fun _ _ =>
    match s.keywordAt kws b.pos with
    | .ok k => ((s.skipBlank (b.pos + k.length)).map fun _ => k).after (by omega)
    | .error f => Step.fail b.pos f

/-- Succeeds when nothing follows the cursor. -/
def atEnd (s : Source) : Scan Unit := fun p =>
  if p < s.last then
    match s.get? (p + 1) with
    | some c => Step.fail p (.mismatch ⟨p + 1, .notAtEnd (String.singleton c)⟩)
    | none => Step.fail p (.fault .indexOutOfRange)
  else Step.ok p ()

theorem nextIn?_ok {s : Source} {spec : Option String} {p : Int} {c : Char}
    (h : s.nextIn? spec p = .ok c) : p < s.last := by
  rw [nextIn?_eq] at h
  split at h
  · simp at h
  · omega

theorem char_ok {s : Source} {spec : Option String} {p : Int} {c : Char}
    (h : (s.char spec p).out = .ok c) : (s.char spec p).pos = p + 1 ∧ p < s.last := by
  unfold char at h ⊢
  cases hn : s.nextIn? spec p with
  | ok c' =>
    simp only [Step.ofFound, true_and]
    exact nextIn?_ok hn
  | error f => simp [hn, Step.ofFound] at h

theorem char_advances (s : Source) (spec : Option String) : (s.char spec).Advances s := by
  intro p c h
  obtain ⟨hpos, hlt⟩ := char_ok h
  rw [hpos]
  exact rest_lt_rest (by omega) hlt

theorem keywordAt_ok {s : Source} {kws : List String} {q : Int} {k : String}
    (h : s.keywordAt kws q = .ok k) : q < s.last ∧ k ∈ kws := by
  unfold keywordAt at h
  split at h
  · simp at h
  · split at h
    · rename_i k' hk
      simp only [Except.ok.injEq] at h
      subst h
      exact ⟨by omega, List.mem_of_find?_eq_some hk⟩
    · split at h <;> simp at h

theorem keyword_advances (s : Source) (kws : List String) (hk : ∀ k ∈ kws, 0 < k.length) :
    (s.keyword kws).Advances s := by
  intro p k h
  unfold keyword at h ⊢
  obtain ⟨u, hu, hk', hpos⟩ := Step.andThen_ok h
  rw [hpos]
  revert hk'
  split
  · rename_i k' hkw
    intro hk'
    obtain ⟨hlt, hmem⟩ := keywordAt_ok hkw
    have hlen := hk k' hmem
    have h1 := rest_le_rest (s := s) (s.skipBlank p).le
    have hle := (s.skipBlank ((s.skipBlank p).pos + k'.length)).le
    simp only [Step.after_pos, Step.map_pos]
    have h2 : s.rest (s.skipBlank ((s.skipBlank p).pos + ↑k'.length)).pos <
        s.rest (s.skipBlank p).pos := rest_lt_rest (by omega) hlt
    omega
  · intro hk'
    simp [Step.fail] at hk'

end Source

end LaxJson
