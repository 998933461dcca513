import LaxJson.Failure
/-
# Character classes

A class of characters is written as a spec, a string read greedily from the left: a
character, a `-` and one more character make a range, and any other character stands for
itself. So `a-z0-9_` is two ranges and an underscore, while in `+-` and `-a` the `-` stands
for itself. A range whose ends are not in increasing order makes the spec malformed.

A reader keeps the segments of the specs it has split in a cache, and hands them back when
the same spec comes again. The cache is sound when each spec in it is stored with the segments
that splitting it afresh gives; splitting through a sound cache gives what splitting afresh
gives and keeps it sound.
-/

set_option autoImplicit false
namespace LaxJson

/-- A piece of a class: one character, or the characters from `lo` to `hi`. -/
inductive Segment where
  | single (c : Char)
  | range (lo hi : Char)
deriving DecidableEq

namespace Segment

/-- Whether a character belongs to the segment. -/
def contains : Segment → Char → Bool
  | single x, c => c == x
  | range lo hi, c => lo ≤ c && c ≤ hi

/-- The characters of the spec that the segment was read from. -/
def toList : Segment → List Char
  | single x => [x]
  | range lo hi => [lo, '-', hi]

end Segment

/-- The segments of a spec, or `badRange` for a range with ends out of order. -/
def segments : List Char → Except Fault (List Segment)
  | a :: '-' :: b :: more =>
    if a < b then (segments more).map (.range a b :: ·) else .error .badRange
  | c :: more => (segments more).map (.single c :: ·)
  | [] => .ok []

/-- Whether a character belongs to the class of some segments. -/
def classContains (segs : List Segment) (c : Char) : Bool := segs.any (·.contains c)

/-- The specs a scanner has split, each with its segments, in the order they were first
split. -/
structure SplitCache where
  entries : List (String × List Segment)

namespace SplitCache

/-- The cache of a new scanner. -/
def empty : SplitCache := ⟨[]⟩

/-- The segments stored for a spec. -/
def find? (c : SplitCache) (spec : String) : Option (List Segment) := c.entries.lookup spec

/-- The segments of a spec: those stored for it, or else split afresh and stored. A malformed
spec is refused and stores nothing. -/
def split (c : SplitCache) (spec : String) : Except Fault (List Segment) × SplitCache :=
  match c.find? spec with
  | some segs => (.ok segs, c)
  | none =>
    match segments spec.toList with
    | .ok segs => (.ok segs, ⟨c.entries ++ [(spec, segs)]⟩)
    | .error f => (.error f, c)

/-- Whether a request for a spec is answered with the segments stored for it. -/
def hits (c : SplitCache) (spec : String) : Bool := (c.find? spec).isSome

/-- The cache after requests for the segments of `specs`, made through it in order. -/
def fill (c : SplitCache) (specs : List String) : SplitCache :=
  specs.foldl (fun c spec => (c.split spec).2) c

/-- Every spec in the cache is stored with the segments that splitting it afresh gives. -/
def Sound (c : SplitCache) : Prop :=
  ∀ spec segs, (spec, segs) ∈ c.entries → segments spec.toList = .ok segs

variable {c : SplitCache} {spec : String} {segs : List Segment}

theorem sound_empty : empty.Sound := fun _ _ h => nomatch h

theorem find?_sound (h : c.Sound) (hf : c.find? spec = some segs) :
    segments spec.toList = .ok segs := by
  obtain ⟨l₁, l₂, hl, -⟩ := List.lookup_eq_some_iff.1 hf
  exact h spec segs (by rw [hl]; simp)

/-- Through a sound cache, a spec splits as it does afresh. -/
theorem split_fst (h : c.Sound) (spec : String) : (c.split spec).1 = segments spec.toList := by
  unfold split
  cases hf : c.find? spec with
  | some segs => exact (find?_sound h hf).symm
  | none => cases segments spec.toList <;> rfl

/-- Splitting through a sound cache leaves it sound: what it stores is what it split. -/
theorem split_sound (h : c.Sound) (spec : String) : (c.split spec).2.Sound := by
  unfold split
  cases c.find? spec with
  | some segs => exact h
  | none =>
    cases hseg : segments spec.toList with
    | error f => exact h
    | ok segs =>
      intro spec' segs' hmem
      rcases List.mem_append.1 hmem with hmem | hmem
      · exact h spec' segs' hmem
      · obtain ⟨rfl, rfl⟩ := Prod.mk.inj (List.mem_singleton.1 hmem)
        exact hseg

theorem fill_sound (h : c.Sound) (specs : List String) : (c.fill specs).Sound := by
  induction specs generalizing c with
  | nil => exact h
  | cons spec specs ih => exact ih (split_sound h spec)

end SplitCache

end LaxJson
