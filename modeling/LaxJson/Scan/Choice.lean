import LaxJson.Scan.Token
import LaxJson.Rule
/-
# Ordered choice

A choice skips blanks, then tries its alternatives in order, each from the same cursor. The
first that succeeds wins, and blanks after it are skipped too. When all fail, the failure
is chosen by how far each got: the furthest error position counts, and every alternative
that failed there is named. One alternative there gives its own error; several give a new
error naming them all, at that position or, when it lies at or past the last character, at
the character before the last.

Every alternative tried asks for its classes, so the choice lists what each asked for, in
the order they were tried.

The bookkeeping starts with -1 as the furthest position and no error, and only a position
beyond the furthest replaces the error kept. An alternative failing at -1 is therefore named
without its error being kept, and if it is the only one named, the choice has lost its
failure and faults.
-/

set_option autoImplicit false
namespace LaxJson

/-- The furthest failure a choice has met so far: its position, the error kept there, and
the alternatives that failed there, in order. -/
structure Standing where
  pos : Int
  error : Option SyntaxError
  rules : List Rule

namespace Standing

/-- Nothing has failed yet. -/
def start : Standing := ⟨-1, none, []⟩

/-- Records that alternative `r` failed with `e`. -/
def record (st : Standing) (r : Rule) (e : SyntaxError) : Standing :=
  if st.pos < e.pos then ⟨e.pos, some e, [r]⟩
  else if e.pos = st.pos then { st with rules := st.rules ++ [r] }
  else st

/-- The failure of a choice whose alternatives all failed. -/
def failure (st : Standing) (s : Source) : Failure :=
  match st.rules with
  | [_] =>
    match st.error with
    | some e => .mismatch e
    | none => .fault .lostFailure
  | _ =>
    let at' := if s.last ≤ st.pos then s.last - 1 else st.pos
    match s.get? at' with
    | some c =>
      .mismatch ⟨at', .expected (",".intercalate (st.rules.map Rule.name)) (String.singleton c)⟩
    | none => .fault .indexOutOfRange

end Standing

/-- An alternative of a choice made at cursor `p`: it runs from any cursor at or after `p`. -/
abbrev Alt (p : Int) (α : Type) := (q : Int) → p ≤ q → Step q α

/-- An alternative made of a rule is the alternative of another rule that agrees with it at every
cursor from `p` on. -/
theorem alt_ext {p : Int} {α : Type} {f g : (q : Int) → Step q α} (h : ∀ q, p ≤ q → f q = g q) :
    (fun q (_ : p ≤ q) => f q : Alt p α) = fun q _ => g q :=
  funext fun q => funext fun hq => h q hq

namespace Source

variable {α : Type}

/-- Tries the alternatives in order from cursor `q`, with what failed before. -/
def tryAlts (s : Source) {p : Int} (q : Int) (h : p ≤ q) :
    List (Rule × Alt p α) → Standing → Step q α
  | [], st => Step.fail q (st.failure s)
  | (r, a) :: more, st =>
    let x := a q h
    match x.out with
    | .ok v => x.followedBy ((s.skipBlank x.pos).map fun _ => v)
    | .error (.mismatch e) => (s.tryAlts q h more (st.record r e)).askedFirst x.asked
    | .error (.fault f) => ⟨.error (.fault f), x.pos, x.le, x.asked⟩

/-- The ordered choice from cursor `p` among alternatives that may depend on `p`. -/
def choiceAt (s : Source) (p : Int) (alts : List (Rule × Alt p α)) : Step p α :=
  let b := s.skipBlank p
  b.andThen fun _ _ => s.tryAlts b.pos b.le alts .start

/-- The ordered choice among named scans. -/
def choice (s : Source) (alts : List (Rule × Scan α)) : Scan α := fun p =>
  s.choiceAt p (alts.map fun ra => (ra.1, fun q _ => ra.2 q))

theorem tryAlts_ok {s : Source} {p q : Int} {h : p ≤ q} {alts : List (Rule × Alt p α)}
    {st : Standing} {v : α} (hv : (s.tryAlts q h alts st).out = .ok v) :
    ∃ ra ∈ alts, (ra.2 q h).out = .ok v ∧ (ra.2 q h).pos ≤ (s.tryAlts q h alts st).pos := by
  induction alts generalizing st with
  | nil => simp [tryAlts, Step.fail] at hv
  | cons ra more ih =>
    obtain ⟨r, a⟩ := ra
    unfold tryAlts at hv ⊢
    revert hv
    dsimp only
    split
    · rename_i v' hx
      intro hv
      simp only [Step.followedBy_out, Step.map, Step.followedBy_pos] at hv ⊢
      cases hb : (s.skipBlank (a q h).pos).out with
      | ok u =>
        rw [hb] at hv
        simp only [Except.map, Except.ok.injEq] at hv
        subst hv
        exact ⟨(r, a), List.mem_cons_self, hx, (s.skipBlank (a q h).pos).le⟩
      | error e => rw [hb] at hv; simp [Except.map] at hv
    · intro hv
      rw [Step.askedFirst_out] at hv
      obtain ⟨ra, hmem, hra⟩ := ih hv
      exact ⟨ra, List.mem_cons_of_mem _ hmem, hra⟩
    · intro hv
      simp at hv

theorem choice_advances (s : Source) (alts : List (Rule × Scan α))
    (h : ∀ ra ∈ alts, ra.2.Advances s) : (s.choice alts).Advances s := by
  intro p v hv
  unfold choice choiceAt at hv ⊢
  obtain ⟨u, hu, hk, hpos⟩ := Step.andThen_ok hv
  rw [hpos]
  obtain ⟨ra, hmem, hok, hle⟩ := tryAlts_ok hk
  obtain ⟨ra', hmem', rfl⟩ := List.mem_map.1 hmem
  have hadv := h ra' hmem' _ v hok
  have h1 := rest_le_rest (s := s) hle
  have h2 := rest_le_rest (s := s) (s.skipBlank p).le
  simp only at hadv h1
  omega

end Source

end LaxJson
