import LaxJson.Failure
import LaxJson.Source
/-
# Steps of a scan

Running a rule from cursor `p` gives a `Step p α`: an outcome, a value or a failure, and the
cursor afterwards, which is never before `p`. A rule that fails leaves the cursor where it
stopped, and that is observable: an optional rule that fails keeps whatever its failed
attempt consumed. A step also lists the character class specs it asked to have split, in the
order it asked, failed attempts included; the reader stores them in its cache once the step is
done.

A `Scan α` is a rule that can run from any cursor. Scans form a monad in which a failure ends
the sequence; the recursive rules of the grammar are written against `Step` directly, where
the continuation also learns that the step before it succeeded.
-/

set_option autoImplicit false
namespace LaxJson

/-- What running a rule from cursor `p` gives. -/
structure Step (p : Int) (α : Type) where
  out : Except Failure α
  pos : Int
  le : p ≤ pos
  /-- The specs whose segments the rule asked for, in order. -/
  asked : List String

namespace Step

variable {p q : Int} {α β : Type}

/-- Success without moving. -/
def ok (p : Int) (a : α) : Step p α := ⟨.ok a, p, Int.le_refl p, []⟩

/-- Failure without moving. -/
def fail (p : Int) (f : Failure) : Step p α := ⟨.error f, p, Int.le_refl p, []⟩

/-- A step from a later cursor, seen from an earlier one. -/
def after (h : p ≤ q) (x : Step q α) : Step p α := ⟨x.out, x.pos, Int.le_trans h x.le, x.asked⟩

/-- Changes the value of a success. -/
def map (f : α → β) (x : Step p α) : Step p β := ⟨x.out.map f, x.pos, x.le, x.asked⟩

/-- The step `y` taken where `x` stopped, seen from where `x` started, after what `x` asked
for. -/
def followedBy (x : Step p α) (y : Step x.pos β) : Step p β :=
  ⟨y.out, y.pos, Int.le_trans x.le y.le, x.asked ++ y.asked⟩

/-- The step `x`, after requests for `specs` made before it. -/
def askedFirst (specs : List String) (x : Step p α) : Step p α :=
  ⟨x.out, x.pos, x.le, specs ++ x.asked⟩

/-- Continues from where `x` stopped when `x` succeeded; the continuation learns the value
and that `x` gave it. -/
def andThen (x : Step p α) (k : (a : α) → x.out = .ok a → Step x.pos β) : Step p β :=
  match h : x.out with
  | .ok a => x.followedBy (k a h)
  | .error e => ⟨.error e, x.pos, x.le, x.asked⟩

/-- Turns a syntax error into `none`; a fault passes. -/
def recover : Except Failure α → Except Failure (Option α)
  | .ok a => .ok (some a)
  | .error (.mismatch _) => .ok none
  | .error (.fault f) => .error (.fault f)

/-- The step that gives `none` where `x` met a syntax error; the cursor stays where the
failure left it. -/
def optional (x : Step p α) : Step p (Option α) := ⟨recover x.out, x.pos, x.le, x.asked⟩

@[simp] theorem ok_pos (a : α) : (ok p a).pos = p := rfl
@[simp] theorem fail_pos (f : Failure) : (fail p f : Step p α).pos = p := rfl
@[simp] theorem after_pos (h : p ≤ q) (x : Step q α) : (x.after h).pos = x.pos := rfl
@[simp] theorem after_out (h : p ≤ q) (x : Step q α) : (x.after h).out = x.out := rfl
@[simp] theorem map_pos (f : α → β) (x : Step p α) : (x.map f).pos = x.pos := rfl
@[simp] theorem optional_pos (x : Step p α) : x.optional.pos = x.pos := rfl
@[simp] theorem followedBy_out (x : Step p α) (y : Step x.pos β) : (x.followedBy y).out = y.out :=
  rfl
@[simp] theorem followedBy_pos (x : Step p α) (y : Step x.pos β) : (x.followedBy y).pos = y.pos :=
  rfl
@[simp] theorem askedFirst_out (specs : List String) (x : Step p α) :
    (x.askedFirst specs).out = x.out := rfl
@[simp] theorem askedFirst_pos (specs : List String) (x : Step p α) :
    (x.askedFirst specs).pos = x.pos := rfl
theorem askedFirst_askedFirst (specs specs' : List String) (x : Step p α) :
    (x.askedFirst specs').askedFirst specs = x.askedFirst (specs ++ specs') := by
  simp only [askedFirst, List.append_assoc]

theorem recover_eq_some {o : Except Failure α} {a : α} (h : recover o = .ok (some a)) :
    o = .ok a := by
  unfold recover at h
  split at h <;> simp_all

theorem andThen_ok {x : Step p α} {k : (a : α) → x.out = .ok a → Step x.pos β} {b : β}
    (h : (x.andThen k).out = .ok b) : ∃ a hx, (k a hx).out = .ok b ∧
      (x.andThen k).pos = (k a hx).pos := by
  obtain ⟨out, pos, le, asked⟩ := x
  cases out with
  | ok a => exact ⟨a, rfl, h, rfl⟩
  | error e => exact absurd h (by simp [andThen])

end Step

/-- A rule that runs from any cursor. -/
def Scan (α : Type) : Type := (p : Int) → Step p α

namespace Scan

variable {α β : Type}

/-- Succeeds without moving. -/
protected def pure (a : α) : Scan α := fun p => Step.ok p a

/-- Runs `x`, then the scan its value chooses from where `x` stopped. -/
protected def bind (x : Scan α) (k : α → Scan β) : Scan β := fun p =>
  let y := x p
  y.andThen fun a _ => k a y.pos

instance : Monad Scan where
  pure := Scan.pure
  bind := Scan.bind

theorem bind_apply (x : Scan α) (k : α → Scan β) (p : Int) :
    (x >>= k) p = (x p).andThen fun a _ => k a (x p).pos := rfl

theorem pure_apply (a : α) (p : Int) : (pure a : Scan α) p = Step.ok p a := rfl

/-- The scan that fails with a fault or gives a value, without moving. -/
def ofExcept : Except Fault α → Scan α
  | .ok a => Scan.pure a
  | .error f => fun p => Step.fail p (.fault f)

/-- Fails without moving. -/
def fail (f : Failure) : Scan α := fun p => Step.fail p f

/-- Gives `none` where the scan meets a syntax error. -/
def optional (x : Scan α) : Scan (Option α) := fun p => (x p).optional

/-- A scan advances when each success leaves less of the source unread. -/
def Advances (s : Source) (x : Scan α) : Prop :=
  ∀ p a, (x p).out = .ok a → s.rest (x p).pos < s.rest p

end Scan

end LaxJson
