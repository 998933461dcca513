import LaxJson.Scan.Step
/-!
# What a cursor leaves unread

Scans move an integer cursor over an array, while the language of the dialect is a set of lists
of characters. The two meet in `Source.after`: the characters after a cursor, in order. Reading
the next character, slicing ahead and counting what remains are restated here in terms of
`after`, and the ways steps are combined (`Step.andThen`, `Step.map`, `Step.optional`, the scan
monad) are taken apart once, so that later proofs never unfold them.
-/

set_option autoImplicit false
namespace LaxJson

namespace Source

/-- The characters after cursor `p`, in order. -/
def after (s : Source) (p : Int) : List Char := s.chars.toList.drop (p + 1).toNat

variable {s : Source} {p : Int}

theorem length_after (hp : -1 ≤ p) : (s.after p).length = s.rest p := by
  simp only [after, List.length_drop, Array.length_toList, rest, last]
  omega

theorem after_eq_nil_iff (hp : -1 ≤ p) : s.after p = [] ↔ s.last ≤ p := by
  rw [← List.length_eq_zero_iff, length_after hp, rest]
  omega

theorem get?_succ (hp : -1 ≤ p) : s.get? (p + 1) = (s.after p).head? := by
  simp only [get?]
  rw [if_neg (show ¬ p + 1 < 0 by omega), if_pos (show (0 : Int) ≤ p + 1 by omega)]
  simp [after, List.head?_drop]

theorem after_succ (hp : -1 ≤ p) : s.after (p + 1) = (s.after p).tail := by
  simp only [after, List.tail_drop]
  congr 1
  omega

/-- The character after the cursor is the head of what remains, and reading it leaves the tail. -/
theorem after_cons {c : Char} {r : List Char} (hp : -1 ≤ p) (h : s.after p = c :: r) :
    s.get? (p + 1) = some c ∧ s.after (p + 1) = r ∧ p < s.last := by
  refine ⟨by rw [get?_succ hp, h]; rfl, by rw [after_succ hp, h]; rfl, ?_⟩
  have hne : s.after p ≠ [] := by rw [h]; exact List.cons_ne_nil c r
  rw [Ne, after_eq_nil_iff hp] at hne
  omega

theorem after_add_eq_drop (hp : -1 ≤ p) (n : Nat) : s.after (p + n) = (s.after p).drop n := by
  simp only [after, List.drop_drop]
  congr 1
  omega

theorem after_add {t r : List Char} (hp : -1 ≤ p) (h : s.after p = t ++ r) :
    s.after (p + t.length) = r := by
  rw [after_add_eq_drop hp, h, List.drop_left]

theorem after_add_append {t g r : List Char} (hp : -1 ≤ p) (h : s.after p = t ++ g ++ r) :
    s.after (p + t.length + g.length) = r := by
  have := after_add (t := t ++ g) hp (by rw [h])
  simpa [Int.add_assoc] using this

/-- Every index from the character before the first to the last names a character, the first of
them counting from the end. -/
theorem get?_isSome {i : Int} (h1 : -1 ≤ i) (h2 : i ≤ s.last) (hl : 0 ≤ s.last) :
    ∃ c, s.get? i = some c := by
  simp only [get?]
  by_cases hi : i < 0
  · rw [if_pos hi, if_pos (by simp [last] at hl; omega)]
    exact Option.isSome_iff_exists.1 (by simp [last] at hl ⊢; omega)
  · rw [if_neg hi, if_pos (by omega)]
    exact Option.isSome_iff_exists.1 (by simp [last] at h2 ⊢; omega)

theorem slice_eq_take (hp : -1 ≤ p) (n : Nat) :
    s.slice (p + 1) (p + 1 + n) = (s.after p).take n := by
  simp only [slice, clamp, Array.toList_extract, List.extract_eq_take_drop, after]
  rw [if_neg (by omega), if_neg (by omega)]
  by_cases hs : (p + 1).toNat ≤ s.chars.size
  · rw [Nat.min_eq_left hs]
    by_cases hn : (p + 1 + n).toNat ≤ s.chars.size
    · rw [Nat.min_eq_left hn]
      congr 1
      omega
    · rw [Nat.min_eq_right (by omega), List.take_of_length_le (by simp),
        List.take_of_length_le (by simp; omega)]
  · have h1 : s.chars.toList.drop (p + 1).toNat = [] := List.drop_eq_nil_of_le (by simp; omega)
    rw [h1, List.drop_eq_nil_of_le (by simp; omega)]
    simp only [List.take_nil]

end Source

/-! ## Relabelling failures -/

section

variable {ε ε' α : Type}

theorem mapError_ok (f : ε → ε') (a : α) : (Except.ok a : Except ε α).mapError f = .ok a := rfl

theorem mapError_error (f : ε → ε') (e : ε) :
    (Except.error e : Except ε α).mapError f = .error (f e) := rfl

/-- A result that is a success once its value is changed was a success. -/
theorem map_eq_ok {β : Type} {f : α → β} {x : Except ε α} {b : β} (h : x.map f = .ok b) :
    ∃ a, x = .ok a ∧ f a = b := by
  cases x with
  | ok a => exact ⟨a, rfl, Except.ok.inj h⟩
  | error e => cases h

/-- Changing the value of a result keeps its failure. -/
theorem map_eq_error {β : Type} {f : α → β} {x : Except ε α} {e : ε} (h : x.map f = .error e) :
    x = .error e := by
  cases x with
  | ok a => cases h
  | error e' =>
    simp only [Except.map, Except.error.injEq] at h
    rw [h]

end

/-! ## Taking steps apart -/

namespace Step

variable {p q : Int} {α β : Type}

theorem andThen_of_ok {x : Step p α} {k : (a : α) → x.out = .ok a → Step x.pos β} {a : α}
    (h : x.out = .ok a) : (x.andThen k).out = (k a h).out ∧ (x.andThen k).pos = (k a h).pos := by
  unfold andThen
  split
  · next a' h' =>
    obtain rfl : a = a' := by rw [h] at h'; exact Except.ok.inj h'
    exact ⟨rfl, rfl⟩
  · next e h' => rw [h] at h'; cases h'

theorem andThen_of_error {x : Step p α} {k : (a : α) → x.out = .ok a → Step x.pos β}
    {f : Failure} (h : x.out = .error f) :
    (x.andThen k).out = .error f ∧ (x.andThen k).pos = x.pos := by
  unfold andThen
  split
  · next a' h' => rw [h] at h'; cases h'
  · next e h' =>
    obtain rfl : f = e := by rw [h] at h'; exact Except.error.inj h'
    exact ⟨rfl, rfl⟩

/-- A sequence whose first step succeeded ends as its continuation ends. -/
theorem andThen_ends_as {x : Step p α} {k : (a : α) → x.out = .ok a → Step x.pos β} {a : α}
    (h : x.out = .ok a) {o : Except Failure β} {r : Int} (hk : (k a h).out = o ∧ (k a h).pos = r) :
    (x.andThen k).out = o ∧ (x.andThen k).pos = r := by
  obtain ⟨h1, h2⟩ := andThen_of_ok (k := k) h
  exact ⟨h1.trans hk.1, h2.trans hk.2⟩

/-- A sequence that did not succeed stopped in its first step or in its continuation. -/
theorem andThen_error {x : Step p α} {k : (a : α) → x.out = .ok a → Step x.pos β} {f : Failure}
    (h : (x.andThen k).out = .error f) :
    (x.out = .error f ∧ (x.andThen k).pos = x.pos) ∨
      ∃ a hx, (k a hx).out = .error f ∧ (x.andThen k).pos = (k a hx).pos := by
  have hx : (∃ a, x.out = .ok a) ∨ ∃ g, x.out = .error g := by
    cases x.out with
    | ok a => exact .inl ⟨a, rfl⟩
    | error g => exact .inr ⟨g, rfl⟩
  rcases hx with ⟨a, hx⟩ | ⟨g, hx⟩
  · obtain ⟨hout, hpos⟩ := andThen_of_ok (k := k) hx
    exact .inr ⟨a, hx, hout ▸ h, hpos⟩
  · obtain ⟨hout, hpos⟩ := andThen_of_error (k := k) hx
    rw [hout] at h
    exact .inl ⟨by rw [hx, Except.error.inj h], hpos⟩

@[simp] theorem map_out (f : α → β) (x : Step p α) : (x.map f).out = x.out.map f := rfl
@[simp] theorem optional_out (x : Step p α) : x.optional.out = recover x.out := rfl
@[simp] theorem ok_out (a : α) : (ok p a).out = .ok a := rfl
@[simp] theorem fail_out (f : Failure) : (fail p f : Step p α).out = .error f := rfl

@[simp] theorem recover_ok (a : α) : recover (.ok a : Except Failure α) = .ok (some a) := rfl
@[simp] theorem recover_mismatch (e : SyntaxError) :
    recover (.error (.mismatch e) : Except Failure α) = .ok none := rfl
@[simp] theorem recover_fault (f : Fault) :
    recover (.error (.fault f) : Except Failure α) = .error (.fault f) := rfl

/-- The step failed with a syntax error at a position of the text. -/
def Mismatched (x : Step p α) : Prop := ∃ e, x.out = .error (.mismatch e) ∧ 0 ≤ e.pos

theorem Mismatched.not_ok {x : Step p α} (h : x.Mismatched) (a : α) : x.out ≠ .ok a := by
  obtain ⟨e, he, -⟩ := h
  rw [he]
  exact fun h => nomatch h

theorem recover_eq_none {o : Except Failure α} (h : recover o = .ok none) :
    ∃ e, o = .error (.mismatch e) := by
  rcases o with (e | g) | a
  · exact ⟨e, rfl⟩
  · simp [recover] at h
  · simp [recover] at h

theorem recover_eq_error {o : Except Failure α} {f : Failure} (h : recover o = .error f) :
    ∃ g, f = .fault g ∧ o = .error (.fault g) := by
  rcases o with (e | g) | a
  · simp [recover] at h
  · simp only [recover, Except.error.injEq] at h
    exact ⟨g, h.symm, rfl⟩
  · simp [recover] at h

/-! ### Steps that give a value or its fault -/

/-- `y.Gives x e`: the step fails with the fault of `x`, or succeeds with the value of `x` and
stops at `e`. -/
def Gives (y : Step p α) (x : Except Fault α) (e : Int) : Prop :=
  y.out = x.mapError .fault ∧ ∀ v, x = .ok v → y.pos = e

theorem Gives.of_ok {y : Step p α} {v : α} {e : Int} (h1 : y.out = .ok v) (h2 : y.pos = e) :
    y.Gives (.ok v) e :=
  ⟨h1, fun _ _ => h2⟩

theorem Gives.of_fault {y : Step p α} {f : Fault} {e : Int} (h : y.out = .error (.fault f)) :
    y.Gives (.error f) e :=
  ⟨h, fun _ h => nomatch h⟩

theorem Gives.ok {y : Step p α} {x : Except Fault α} {e : Int} {v : α} (h : y.Gives x e)
    (hx : x = .ok v) : y.out = .ok v ∧ y.pos = e :=
  ⟨by rw [h.1, hx]; rfl, h.2 v hx⟩

theorem Gives.fault {y : Step p α} {x : Except Fault α} {e : Int} {f : Fault} (h : y.Gives x e)
    (hx : x = .error f) : y.out = .error (.fault f) := by
  rw [h.1, hx]; rfl

/-- A sequence gives what its first step gives, bound to what the continuation gives. -/
theorem Gives.andThen {x : Step p α} {k : (a : α) → x.out = .ok a → Step x.pos β}
    {a : Except Fault α} {m : Int} (hx : x.Gives a m) {f : α → Except Fault β} {e : Int}
    (hk : ∀ v (hv : x.out = .ok v), a = .ok v → (k v hv).Gives (f v) e) :
    (x.andThen k).Gives (a >>= f) e := by
  cases ha : a with
  | error f0 => exact Gives.of_fault (andThen_of_error (hx.fault ha)).1
  | ok v =>
    obtain ⟨h1, -⟩ := hx.ok ha
    obtain ⟨o, ps⟩ := andThen_of_ok (k := k) h1
    exact ⟨o.trans (hk v h1 ha).1, fun w hw => ps.trans ((hk v h1 ha).2 w hw)⟩

theorem Gives.map {y : Step p α} {x : Except Fault α} {e : Int} (h : y.Gives x e) (f : α → β) :
    (y.map f).Gives (x.map f) e := by
  cases hx : x with
  | error f0 => exact Gives.of_fault (by rw [map_out, h.fault hx]; rfl)
  | ok v =>
    obtain ⟨h1, h2⟩ := h.ok hx
    exact Gives.of_ok (by rw [map_out, h1]; rfl) h2

theorem Gives.optional {y : Step p α} {x : Except Fault α} {e : Int} (h : y.Gives x e) :
    y.optional.Gives (x.map some) e := by
  cases hx : x with
  | error f => exact Gives.of_fault (by rw [optional_out, h.fault hx]; rfl)
  | ok v =>
    obtain ⟨h1, h2⟩ := h.ok hx
    exact Gives.of_ok (by rw [optional_out, h1]; rfl) h2

end Step

namespace Scan

variable {α β : Type}

theorem map_apply (f : α → β) (x : Scan α) (p : Int) :
    (f <$> x) p = (x p).andThen fun a _ => Step.ok (x p).pos (f a) := rfl

theorem optional_apply (x : Scan α) (p : Int) : x.optional p = (x p).optional := rfl

theorem map_of_ok {f : α → β} {x : Scan α} {p : Int} {a : α} (h : (x p).out = .ok a) :
    ((f <$> x) p).out = .ok (f a) ∧ ((f <$> x) p).pos = (x p).pos := by
  rw [map_apply]
  exact Step.andThen_ends_as h ⟨rfl, rfl⟩

theorem map_of_error {f : α → β} {x : Scan α} {p : Int} {e : Failure} (h : (x p).out = .error e) :
    ((f <$> x) p).out = .error e ∧ ((f <$> x) p).pos = (x p).pos := by
  rw [map_apply]
  exact Step.andThen_of_error h

/-- A mapped scan succeeded where the scan did, with the image of its value. -/
theorem map_ok {f : α → β} {x : Scan α} {p : Int} {b : β} (h : ((f <$> x) p).out = .ok b) :
    ∃ a, (x p).out = .ok a ∧ f a = b ∧ ((f <$> x) p).pos = (x p).pos := by
  cases hx : (x p).out with
  | error e => rw [(map_of_error hx).1] at h; cases h
  | ok a =>
    obtain ⟨h1, h2⟩ := map_of_ok (f := f) hx
    rw [h1] at h
    exact ⟨a, rfl, Except.ok.inj h, h2⟩

theorem ofExcept_ok (a : α) (p : Int) : ofExcept (.ok a) p = Step.ok p a := rfl

theorem ofExcept_error (f : Fault) (p : Int) :
    (ofExcept (.error f : Except Fault α) p) = Step.fail p (.fault f) := rfl

theorem ofExcept_out (x : Except Fault α) (p : Int) : (ofExcept x p).out = x.mapError .fault := by
  cases x <;> rfl

theorem ofExcept_pos (x : Except Fault α) (p : Int) : (ofExcept x p).pos = p := by
  cases x <;> rfl

theorem ofExcept_eq_ok {v : Except Fault α} {a : α} {p : Int} (h : (ofExcept v p).out = .ok a) :
    v = .ok a := by
  cases v with
  | error f => cases h
  | ok b => cases h; rfl

variable {x : Scan α} {k : α → Scan β} {p : Int}

/-- A sequence whose first scan succeeded ends as the scan its value chose, run from where the
first stopped. -/
theorem bind_ends_as {a : α} {q : Int} (h : (x p).out = .ok a) (hq : (x p).pos = q)
    {o : Except Failure β} {r : Int} (hk : (k a q).out = o ∧ (k a q).pos = r) :
    ((x >>= k) p).out = o ∧ ((x >>= k) p).pos = r := by
  subst hq
  exact Step.andThen_ends_as h hk

/-- A sequence whose first scan succeeded gives what the scan its value chose gives. -/
theorem bind_out {a : α} {q : Int} (h : (x p).out = .ok a) (hq : (x p).pos = q) :
    ((x >>= k) p).out = (k a q).out := by
  subst hq
  exact (Step.andThen_of_ok h).1

/-- A value read as a fault or a result, then given: the scan's failure is the fault. -/
theorem ofExcept_bind_pure (v : Except Fault α) (f : α → β) (p : Int) :
    ((ofExcept v >>= fun a => pure (f a)) p).out = (v >>= fun a => pure (f a)).mapError .fault ∧
      ((ofExcept v >>= fun a => pure (f a)) p).pos = p := by
  cases v <;> exact ⟨rfl, rfl⟩

theorem bind_of_error {f : Failure} (h : (x p).out = .error f) : ((x >>= k) p).out = .error f :=
  (Step.andThen_of_error h).1

/-- A sequence that succeeded took a value from its first scan and succeeded after it. -/
theorem bind_ok {b : β} (h : ((x >>= k) p).out = .ok b) :
    ∃ a, (x p).out = .ok a ∧ (k a (x p).pos).out = .ok b ∧ ((x >>= k) p).pos = (k a (x p).pos).pos := by
  obtain ⟨a, ha, hk, hpos⟩ := Step.andThen_ok h
  exact ⟨a, ha, hk, hpos⟩

/-- A sequence of scans gives what the first gives, bound to what the scan its value chose gives
from where the first stopped. -/
theorem bind_gives {a : Except Fault α} {m : Int} (hx : (x p).Gives a m) {f : α → Except Fault β}
    {e : Int} (hk : ∀ v, a = .ok v → (k v m).Gives (f v) e) : ((x >>= k) p).Gives (a >>= f) e :=
  Step.Gives.andThen hx fun v hv ha => by
    obtain ⟨-, h2⟩ := hx.ok ha
    exact h2 ▸ hk v ha

theorem map_gives {f : α → β} {a : Except Fault α} {e : Int} (hx : (x p).Gives a e) :
    ((f <$> x) p).Gives (f <$> a) e := by
  cases ha : a with
  | error f0 => exact Step.Gives.of_fault (map_of_error (hx.fault ha)).1
  | ok v =>
    obtain ⟨h1, h2⟩ := hx.ok ha
    obtain ⟨o, ps⟩ := map_of_ok (f := f) h1
    exact Step.Gives.of_ok o (ps.trans h2)

theorem bind_mismatched (h : (x p).Mismatched) : ((x >>= k) p).Mismatched := by
  obtain ⟨e, he, h0⟩ := h
  exact ⟨e, bind_of_error he, h0⟩

theorem bind_mismatched_of_ok {a : α} {q : Int} (h : (x p).out = .ok a) (hq : (x p).pos = q)
    (hk : (k a q).Mismatched) : ((x >>= k) p).Mismatched := by
  subst hq
  obtain ⟨e, he, h0⟩ := hk
  exact ⟨e, (Step.andThen_of_ok h).1.trans he, h0⟩

end Scan

end LaxJson
