import LaxJson.Text
/-
# Document values

A document holds texts, booleans, numbers, lists and dicts. There is no null: the keyword
`null` reads as the text `null`. A number is an exact integer when its literal has neither a
fraction nor a nonzero exponent, and a double otherwise. A dict keeps its keys in the order
they were first set; setting a key again changes its value and leaves it in place.
-/

set_option autoImplicit false
namespace LaxJson

/-- A number read from a document. -/
inductive Number where
  /-- An integer of any size. -/
  | int (n : Int)
  /-- A double. -/
  | float (x : Float)
deriving Inhabited

/-- A value read from a document. -/
inductive Value where
  | text (t : Text)
  | bool (b : Bool)
  | number (n : Number)
  | list (items : List Value)
  | dict (entries : List (Text × Value))
deriving Inhabited

namespace Value

/-- Sets the value of a key in a dict's entries: a key already there keeps its place and
takes the new value, a new key goes last. -/
def put : List (Text × Value) → Text → Value → List (Text × Value)
  | [], k, v => [(k, v)]
  | (k', v') :: es, k, v => if k' = k then (k, v) :: es else (k', v') :: put es k v

/-- Dict entries in code-point order of their keys; entries with equal keys keep their
order. -/
def sortEntries {α : Type} (es : List (Text × α)) : List (Text × α) :=
  es.mergeSort fun a b => !(b.1.before a.1)

/-- The text of a string. -/
def ofString (s : String) : Value := .text (Text.ofString s)

theorem put_keys_of_mem (es : List (Text × Value)) (k : Text) (v : Value)
    (h : k ∈ es.map Prod.fst) : (put es k v).map Prod.fst = es.map Prod.fst := by
  induction es with
  | nil => simp at h
  | cons e es ih =>
    obtain ⟨k', v'⟩ := e
    by_cases hk : k' = k
    · simp [put, hk]
    · have h' : k ∈ es.map Prod.fst := by
        simp only [List.map_cons, List.mem_cons] at h
        rcases h with h | h
        · exact absurd h.symm hk
        · exact h
      simp [put, hk, ih h']

end Value

end LaxJson
