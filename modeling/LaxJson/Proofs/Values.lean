import LaxJson.Proofs.Primitives
/-!
# Reading values

The recursive rules of the grammar, taken apart one step at a time: what `listItems` and
`mapItems` do in one turn (`listItems_none`, `listItems_last`, `listItems_more`,
`listItems_fault`, and the same for dicts), what `list`, `map` and `pair` do around their items,
and how the two choices of `anyType` and `complexType` pass over the alternatives that cannot
start where they look. Each turn is then restated with `Step.Gives`, which carries a fault through
unchanged, so that the induction over a document only binds what each part gives.

`anyType_of_text` is the reader's completeness: on the text of a document followed by its whole
gap and anything that cannot continue a number, `anyType` gives the document's value, or the
fault of its first number that has none. It is proved together with the same statements for the
items of a list and the entries of a dict, by recursion on the derivation.
-/

set_option autoImplicit false
namespace LaxJson

/-! ## Where values start -/

theorem QuotedText.solid {t r : List Char} {x : Text} (h : QuotedText t x) : Solid (t ++ r) := by
  obtain ⟨q, body, hq, rfl, -⟩ := h
  rcases hq with rfl | rfl <;> exact Solid.cons (by decide) (by decide)

/-- A number literal is written from a minus sign or a digit. -/
theorem numLit_text_head {n : NumLit} {t : List Char} (hn : n.Valid) (ht : Spaced n.chars t) :
    ∃ c t', t = c :: t' ∧ (c = '-' ∨ c.isDigit = true) := by
  obtain ⟨c, cs, hcs, hc⟩ := Grammar.numLit_chars_head hn
  rw [hcs] at ht
  cases ht with
  | one => exact ⟨c, [], rfl, hc⟩
  | cons _ _ _ => exact ⟨c, _, rfl, hc⟩

theorem numLit_solid {n : NumLit} {t r : List Char} (hn : n.Valid) (ht : Spaced n.chars t) :
    Solid (t ++ r) := by
  obtain ⟨c, t', rfl, hc⟩ := numLit_text_head hn ht
  rcases hc with rfl | hc
  · exact Solid.cons (by decide) (by decide)
  · exact Solid.cons (isBlank_of_isDigit hc) fun h => by rw [h] at hc; cases hc

/-- A value is written from a character that is neither blank nor `#`, so no gap runs into it. -/
theorem ValueText.solid {t r : List Char} {d : Doc} (h : ValueText t d) : Solid (t ++ r) := by
  cases h with
  | text hq => exact hq.solid
  | number hn ht => exact numLit_solid hn ht
  | null | true | false | emptyList _ | list _ _ | emptyDict _ | dict _ _ =>
    exact Solid.cons (by decide) (by decide)

theorem ValueText.ne_nil {t : List Char} {d : Doc} (h : ValueText t d) : t ≠ [] := by
  cases h with
  | text hq =>
    obtain ⟨q, body, -, rfl, -⟩ := hq
    exact List.cons_ne_nil _ _
  | number hn ht =>
    obtain ⟨c, t', rfl, -⟩ := numLit_text_head hn ht
    exact List.cons_ne_nil _ _
  | null | true | false | emptyList _ | list _ _ | emptyDict _ | dict _ _ => exact List.cons_ne_nil _ _

theorem Items.solid {u r : List Char} {ds : List Doc} (h : Items u ds) : Solid (u ++ r) := by
  cases h with
  | last ht _ => simpa using ht.solid
  | cons ht _ _ _ => simpa using ht.solid

theorem Entries.solid {u r : List Char} {es : List (Text × Doc)} (h : Entries u es) :
    Solid (u ++ r) := by
  cases h with
  | last hk _ _ _ _ => simpa using hk.solid
  | cons hk _ _ _ _ _ _ => simpa using hk.solid

namespace Grammar

variable {s : Source} {p : Int}

/-! ## The rules unfolded -/

theorem anyType_eq : anyType s p = s.choiceAt p
    [(.complexType, fun q _ => complexType s q), (.primitiveType, fun q _ => primitiveType s q)] := by
  rw [anyType]

theorem complexType_eq :
    complexType s p = s.choiceAt p [(.list, fun q _ => list s q), (.map, fun q _ => map s q)] := by
  rw [complexType]

/-! ## One turn of the items of a list -/

section ListItems

variable {q : Int}

theorem listItems_none (b : Bool) (acc : Array Value) {e : SyntaxError}
    (hx : (s.choice [(.anyType, anyType s)] q).out = .error (.mismatch e)) :
    (listItems s b acc q).out = .ok (acc, b) ∧
      (listItems s b acc q).pos = (s.choice [(.anyType, anyType s)] q).pos := by
  rw [listItems]
  exact Step.andThen_ends_as (show ((s.choice [(.anyType, anyType s)]).optional q).out = .ok none by
    rw [Scan.optional_apply, Step.optional_out, hx]; rfl) ⟨rfl, rfl⟩

theorem listItems_fault (b : Bool) (acc : Array Value) {f : Fault}
    (hx : (s.choice [(.anyType, anyType s)] q).out = .error (.fault f)) :
    (listItems s b acc q).out = .error (.fault f) := by
  rw [listItems]
  exact (Step.andThen_of_error (show ((s.choice [(.anyType, anyType s)]).optional q).out =
    .error (.fault f) by rw [Scan.optional_apply, Step.optional_out, hx]; rfl)).1

theorem listItems_last (b : Bool) (acc : Array Value) {v : Value} {m : Int} {e : SyntaxError}
    (h1 : (s.choice [(.anyType, anyType s)] q).out = .ok v)
    (h2 : (s.choice [(.anyType, anyType s)] q).pos = m)
    (hc : (s.keyword [","] m).out = .error (.mismatch e)) :
    (listItems s b acc q).out = .ok (acc.push v, false) ∧
      (listItems s b acc q).pos = (s.keyword [","] m).pos := by
  have hxp : (s.choiceAt q [(.anyType, fun r _ => anyType s r)]).optional.pos = m := h2
  have hc' : ((s.keyword [","]).optional
      (s.choiceAt q [(.anyType, fun r _ => anyType s r)]).optional.pos).out = .ok none := by
    rw [hxp, Scan.optional_apply, Step.optional_out, hc]; rfl
  rw [listItems]
  refine Step.andThen_ends_as (show ((s.choice [(.anyType, anyType s)]).optional q).out =
    .ok (some v) by rw [Scan.optional_apply, Step.optional_out, h1]; rfl) ?_
  dsimp only
  refine Step.andThen_ends_as hc' ⟨rfl, ?_⟩
  show (s.keyword [","] _).pos = _
  rw [hxp]

theorem listItems_more (b : Bool) (acc : Array Value) {v : Value} {m : Int} {k : String}
    (h1 : (s.choice [(.anyType, anyType s)] q).out = .ok v)
    (h2 : (s.choice [(.anyType, anyType s)] q).pos = m) (hc : (s.keyword [","] m).out = .ok k) :
    (listItems s b acc q).out = (listItems s true (acc.push v) (s.keyword [","] m).pos).out ∧
      (listItems s b acc q).pos = (listItems s true (acc.push v) (s.keyword [","] m).pos).pos := by
  have hxp : (s.choiceAt q [(.anyType, fun r _ => anyType s r)]).optional.pos = m := h2
  have hc' : ((s.keyword [","]).optional
      (s.choiceAt q [(.anyType, fun r _ => anyType s r)]).optional.pos).out = .ok (some k) := by
    rw [hxp, Scan.optional_apply, Step.optional_out, hc]; rfl
  rw [listItems]
  refine Step.andThen_ends_as (show ((s.choice [(.anyType, anyType s)]).optional q).out =
    .ok (some v) by rw [Scan.optional_apply, Step.optional_out, h1]; rfl) ?_
  dsimp only
  refine Step.andThen_ends_as hc' ?_
  show (listItems s true (acc.push v) (s.keyword [","] _).pos).out = _ ∧
    (listItems s true (acc.push v) (s.keyword [","] _).pos).pos = _
  rw [hxp]
  exact ⟨rfl, rfl⟩

theorem listItems_comma_fault (b : Bool) (acc : Array Value) {v : Value} {m : Int} {f : Fault}
    (h1 : (s.choice [(.anyType, anyType s)] q).out = .ok v)
    (h2 : (s.choice [(.anyType, anyType s)] q).pos = m)
    (hc : (s.keyword [","] m).out = .error (.fault f)) :
    (listItems s b acc q).out = .error (.fault f) := by
  have hxp : (s.choiceAt q [(.anyType, fun r _ => anyType s r)]).optional.pos = m := h2
  have hc' : ((s.keyword [","]).optional
      (s.choiceAt q [(.anyType, fun r _ => anyType s r)]).optional.pos).out = .error (.fault f) := by
    rw [hxp, Scan.optional_apply, Step.optional_out, hc]; rfl
  rw [listItems]
  refine (Step.andThen_of_ok (show ((s.choice [(.anyType, anyType s)]).optional q).out =
    .ok (some v) by rw [Scan.optional_apply, Step.optional_out, h1]; rfl)).1.trans ?_
  exact (Step.andThen_of_error hc').1

/-- An item and no comma after it: the items end with it. -/
theorem listItems_gives_last (b : Bool) (acc : Array Value) {a : Except Fault Value} {m : Int}
    (hx : (s.choice [(.anyType, anyType s)] q).Gives a m)
    (hc : ∀ v, a = .ok v → ∃ e, (s.keyword [","] m).out = .error (.mismatch e) ∧
      (s.keyword [","] m).pos = m) :
    (listItems s b acc q).Gives ((fun v => (acc.push v, false)) <$> a) m := by
  cases ha : a with
  | error f => exact Step.Gives.of_fault (listItems_fault b acc (hx.fault ha))
  | ok v =>
    obtain ⟨h1, h2⟩ := hx.ok ha
    obtain ⟨e, he, hepos⟩ := hc v ha
    obtain ⟨o, ps⟩ := listItems_last b acc h1 h2 he
    exact Step.Gives.of_ok o (ps.trans hepos)

/-- An item and a comma after it: the items go on after the comma. -/
theorem listItems_gives_more (b : Bool) (acc : Array Value) {a : Except Fault Value} {m m' e : Int}
    {y : Value → Except Fault (Array Value × Bool)}
    (hx : (s.choice [(.anyType, anyType s)] q).Gives a m)
    (hc : ∀ v, a = .ok v → (s.keyword [","] m).out = .ok "," ∧ (s.keyword [","] m).pos = m')
    (hrest : ∀ v, a = .ok v → (listItems s true (acc.push v) m').Gives (y v) e) :
    (listItems s b acc q).Gives (a >>= y) e := by
  cases ha : a with
  | error f => exact Step.Gives.of_fault (listItems_fault b acc (hx.fault ha))
  | ok v =>
    obtain ⟨h1, h2⟩ := hx.ok ha
    obtain ⟨hc1, hc2⟩ := hc v ha
    obtain ⟨o, ps⟩ := listItems_more b acc h1 h2 hc1
    rw [hc2] at o ps
    exact ⟨o.trans (hrest v ha).1, fun w hw => ps.trans ((hrest v ha).2 w hw)⟩

end ListItems

/-! ## One turn of the entries of a dict -/

section MapItems

variable {q : Int}

theorem mapItems_none (b : Bool) (acc : List (Text × Value)) {e : SyntaxError}
    (hx : (s.choice [(.pair, pair s)] q).out = .error (.mismatch e)) :
    (mapItems s b acc q).out = .ok (acc, b) ∧
      (mapItems s b acc q).pos = (s.choice [(.pair, pair s)] q).pos := by
  rw [mapItems]
  exact Step.andThen_ends_as (show ((s.choice [(.pair, pair s)]).optional q).out = .ok none by
    rw [Scan.optional_apply, Step.optional_out, hx]; rfl) ⟨rfl, rfl⟩

theorem mapItems_fault (b : Bool) (acc : List (Text × Value)) {f : Fault}
    (hx : (s.choice [(.pair, pair s)] q).out = .error (.fault f)) :
    (mapItems s b acc q).out = .error (.fault f) := by
  rw [mapItems]
  exact (Step.andThen_of_error (show ((s.choice [(.pair, pair s)]).optional q).out =
    .error (.fault f) by rw [Scan.optional_apply, Step.optional_out, hx]; rfl)).1

theorem mapItems_last (b : Bool) (acc : List (Text × Value)) {k : Text} {v : Value} {m : Int}
    {e : SyntaxError} (h1 : (s.choice [(.pair, pair s)] q).out = .ok (k, v))
    (h2 : (s.choice [(.pair, pair s)] q).pos = m)
    (hc : (s.keyword [","] m).out = .error (.mismatch e)) :
    (mapItems s b acc q).out = .ok (Value.put acc k v, false) ∧
      (mapItems s b acc q).pos = (s.keyword [","] m).pos := by
  have hxp : (s.choiceAt q [(.pair, fun r _ => pair s r)]).optional.pos = m := h2
  have hc' : ((s.keyword [","]).optional
      (s.choiceAt q [(.pair, fun r _ => pair s r)]).optional.pos).out = .ok none := by
    rw [hxp, Scan.optional_apply, Step.optional_out, hc]; rfl
  rw [mapItems]
  refine Step.andThen_ends_as (show ((s.choice [(.pair, pair s)]).optional q).out =
    .ok (some (k, v)) by rw [Scan.optional_apply, Step.optional_out, h1]; rfl) ?_
  dsimp only
  refine Step.andThen_ends_as hc' ⟨rfl, ?_⟩
  show (s.keyword [","] _).pos = _
  rw [hxp]

theorem mapItems_more (b : Bool) (acc : List (Text × Value)) {k : Text} {v : Value} {m : Int}
    {c : String} (h1 : (s.choice [(.pair, pair s)] q).out = .ok (k, v))
    (h2 : (s.choice [(.pair, pair s)] q).pos = m) (hc : (s.keyword [","] m).out = .ok c) :
    (mapItems s b acc q).out =
        (mapItems s true (Value.put acc k v) (s.keyword [","] m).pos).out ∧
      (mapItems s b acc q).pos =
        (mapItems s true (Value.put acc k v) (s.keyword [","] m).pos).pos := by
  have hxp : (s.choiceAt q [(.pair, fun r _ => pair s r)]).optional.pos = m := h2
  have hc' : ((s.keyword [","]).optional
      (s.choiceAt q [(.pair, fun r _ => pair s r)]).optional.pos).out = .ok (some c) := by
    rw [hxp, Scan.optional_apply, Step.optional_out, hc]; rfl
  rw [mapItems]
  refine Step.andThen_ends_as (show ((s.choice [(.pair, pair s)]).optional q).out =
    .ok (some (k, v)) by rw [Scan.optional_apply, Step.optional_out, h1]; rfl) ?_
  dsimp only
  refine Step.andThen_ends_as hc' ?_
  show (mapItems s true (Value.put acc k v) (s.keyword [","] _).pos).out = _ ∧
    (mapItems s true (Value.put acc k v) (s.keyword [","] _).pos).pos = _
  rw [hxp]
  exact ⟨rfl, rfl⟩

theorem mapItems_comma_fault (b : Bool) (acc : List (Text × Value)) {k : Text} {v : Value}
    {m : Int} {f : Fault} (h1 : (s.choice [(.pair, pair s)] q).out = .ok (k, v))
    (h2 : (s.choice [(.pair, pair s)] q).pos = m)
    (hc : (s.keyword [","] m).out = .error (.fault f)) :
    (mapItems s b acc q).out = .error (.fault f) := by
  have hxp : (s.choiceAt q [(.pair, fun r _ => pair s r)]).optional.pos = m := h2
  have hc' : ((s.keyword [","]).optional
      (s.choiceAt q [(.pair, fun r _ => pair s r)]).optional.pos).out = .error (.fault f) := by
    rw [hxp, Scan.optional_apply, Step.optional_out, hc]; rfl
  rw [mapItems]
  refine (Step.andThen_of_ok (show ((s.choice [(.pair, pair s)]).optional q).out =
    .ok (some (k, v)) by rw [Scan.optional_apply, Step.optional_out, h1]; rfl)).1.trans ?_
  exact (Step.andThen_of_error hc').1

/-- An entry and no comma after it: the entries end with it. -/
theorem mapItems_gives_last (b : Bool) (acc : List (Text × Value)) {a : Except Fault (Text × Value)}
    {m : Int} (hx : (s.choice [(.pair, pair s)] q).Gives a m)
    (hc : ∀ kv, a = .ok kv → ∃ e, (s.keyword [","] m).out = .error (.mismatch e) ∧
      (s.keyword [","] m).pos = m) :
    (mapItems s b acc q).Gives ((fun kv => (Value.put acc kv.1 kv.2, false)) <$> a) m := by
  cases ha : a with
  | error f => exact Step.Gives.of_fault (mapItems_fault b acc (hx.fault ha))
  | ok kv =>
    obtain ⟨h1, h2⟩ := hx.ok ha
    obtain ⟨e, he, hepos⟩ := hc kv ha
    obtain ⟨o, ps⟩ := mapItems_last b acc h1 h2 he
    exact Step.Gives.of_ok o (ps.trans hepos)

/-- An entry and a comma after it: the entries go on after the comma. -/
theorem mapItems_gives_more (b : Bool) (acc : List (Text × Value)) {a : Except Fault (Text × Value)}
    {m m' e : Int} {y : Text × Value → Except Fault (List (Text × Value) × Bool)}
    (hx : (s.choice [(.pair, pair s)] q).Gives a m)
    (hc : ∀ kv, a = .ok kv → (s.keyword [","] m).out = .ok "," ∧ (s.keyword [","] m).pos = m')
    (hrest : ∀ kv, a = .ok kv → (mapItems s true (Value.put acc kv.1 kv.2) m').Gives (y kv) e) :
    (mapItems s b acc q).Gives (a >>= y) e := by
  cases ha : a with
  | error f => exact Step.Gives.of_fault (mapItems_fault b acc (hx.fault ha))
  | ok kv =>
    obtain ⟨h1, h2⟩ := hx.ok ha
    obtain ⟨hc1, hc2⟩ := hc kv ha
    obtain ⟨o, ps⟩ := mapItems_more b acc h1 h2 hc1
    rw [hc2] at o ps
    exact ⟨o.trans (hrest kv ha).1, fun w hw => ps.trans ((hrest kv ha).2 w hw)⟩

end MapItems


/-! ## Lists, dicts and pairs around their parts -/

theorem NumberFollow.cons {c : Char} {r : List Char}
    (h : c.isDigit = false ∧ c ≠ '.' ∧ c ≠ 'e' ∧ c ≠ 'E') : NumberFollow (c :: r) := by
  intro c' hc'
  simp only [List.head?_cons, Option.mem_def, Option.some.injEq] at hc'
  exact hc' ▸ h

/-- A closing bracket after items that did not end in a comma, and the whole gap after it. -/
theorem closing_of_text (hs : s.dialect = .json) {close : String} {c : Char} {g r : List Char}
    (hc : close.toList = [c]) (hb : isBlank c = false) (hh : c ≠ '#') (hp : -1 ≤ p)
    (h : s.after p = c :: (g ++ r)) (hg : Trail g r) :
    (closing s close false p).Gives (.ok ()) (p + 1 + g.length) := by
  obtain ⟨h1, h2⟩ := keyword_first hs (k := close) (l := [close]) hp (by rw [hc]; exact h)
    (by simp [hc]) (by rw [hc]; exact Solid.cons hb hh) hg (by simp)
  have h2' : (s.keyword [close] p).pos = p + 1 + g.length := by rw [h2, hc]; rfl
  rw [closing]
  exact Scan.bind_gives (Step.Gives.of_ok h1 h2') fun _ _ => Step.Gives.of_ok rfl rfl

/-- A list whose items read to `a`: `[`, a gap, the items, `]`, and the whole gap after it. -/
theorem list_gives (hs : s.dialect = .json) {w u g r : List Char} {a : Except Fault (List Value)}
    (hp : -1 ≤ p) (h : s.after p = '[' :: (w ++ (u ++ ']' :: (g ++ r))))
    (hw : Trail w (u ++ ']' :: (g ++ r))) (hg : Trail g r)
    (hitems : (listItems s false #[] (p + 1 + w.length)).Gives
      ((fun vs => (#[] ++ vs.toArray, false)) <$> a) (p + 1 + w.length + u.length)) :
    (list s p).Gives (.list <$> a) (p + 1 + w.length + u.length + 1 + g.length) := by
  obtain ⟨h1, h2⟩ := keyword_first hs (k := "[") (l := ["["]) hp (by rw [h]; rfl) (by decide)
    (Solid.cons (by decide) (by decide)) hw (by simp)
  have ho : (s.keyword ["["] p).pos = p + 1 + w.length := h2
  have hafter : s.after (p + 1 + w.length + u.length) = ']' :: (g ++ r) := by
    have := Source.after_add_append hp (t := '[' :: w) (g := u) (r := ']' :: (g ++ r)) (by rw [h]; simp)
    have e : p + (('[' :: w).length : Int) + u.length = p + 1 + w.length + u.length := by
      simp only [List.length_cons]; omega
    rwa [e] at this
  rw [list]
  refine Step.Gives.andThen (Step.Gives.of_ok h1 ho) (f := fun _ => Value.list <$> a)
    fun _ _ _ => ?_
  dsimp only
  rw [ho]
  have hv : ((fun vs => ((#[] : Array Value) ++ vs.toArray, false)) <$> a) >>=
      (fun r => Except.ok (Value.list r.1.toList)) = Value.list <$> a := by
    cases a <;> simp [Functor.map, Except.map, bind, Except.bind]
  refine hv ▸ Step.Gives.andThen hitems fun it _ hit => ?_
  -- the items ended on something other than a comma
  obtain ⟨vs, rfl⟩ : ∃ vs : List Value, ((#[] : Array Value) ++ vs.toArray, false) = it := by
    cases a with
    | error _ => cases hit
    | ok vs => exact ⟨vs, by cases hit; rfl⟩
  rw [hitems.2 _ hit]
  exact (closing_of_text hs rfl (by decide) (by decide) (by omega) hafter hg).map _

/-- A dict whose entries read to `a`: a brace, a gap, the entries, the closing brace, and the
whole gap after it. -/
theorem map_gives (hs : s.dialect = .json) {w u g r : List Char}
    {a : Except Fault (List (Text × Value))} (hp : -1 ≤ p)
    (h : s.after p = '\x7b' :: (w ++ (u ++ '\x7d' :: (g ++ r))))
    (hw : Trail w (u ++ '\x7d' :: (g ++ r))) (hg : Trail g r)
    (hitems : (mapItems s false [] (p + 1 + w.length)).Gives
      ((fun l => (l, false)) <$> a) (p + 1 + w.length + u.length)) :
    (map s p).Gives (.dict <$> a) (p + 1 + w.length + u.length + 1 + g.length) := by
  obtain ⟨h1, h2⟩ := keyword_first hs (k := "\x7b") (l := ["\x7b"]) hp (by rw [h]; rfl)
    (by decide) (Solid.cons (by decide) (by decide)) hw (by simp)
  have ho : (s.keyword ["\x7b"] p).pos = p + 1 + w.length := h2
  have hafter : s.after (p + 1 + w.length + u.length) = '\x7d' :: (g ++ r) := by
    have := Source.after_add_append hp (t := '\x7b' :: w) (g := u) (r := '\x7d' :: (g ++ r)) (by rw [h]; simp)
    have e : p + (('\x7b' :: w).length : Int) + u.length = p + 1 + w.length + u.length := by
      simp only [List.length_cons]; omega
    rwa [e] at this
  rw [map]
  refine Step.Gives.andThen (Step.Gives.of_ok h1 ho) (f := fun _ => Value.dict <$> a)
    fun _ _ _ => ?_
  dsimp only
  rw [ho]
  have hv : ((fun l => (l, false)) <$> a) >>= (fun r => Except.ok (Value.dict r.1)) =
      Value.dict <$> a := by
    cases a <;> simp [Functor.map, Except.map, bind, Except.bind]
  refine hv ▸ Step.Gives.andThen hitems fun it _ hit => ?_
  obtain ⟨l, rfl⟩ : ∃ l : List (Text × Value), (l, false) = it := by
    cases a with
    | error _ => cases hit
    | ok l => exact ⟨l, by cases hit; rfl⟩
  rw [hitems.2 _ hit]
  exact (closing_of_text hs rfl (by decide) (by decide) (by omega) hafter hg).map _

/-- A pair: a quoted key, a gap, `:`, a gap, and a value that the choice reads to `a`. -/
theorem pair_gives (hs : s.dialect = .json) {kt g₁ g₂ rest : List Char} {x : Text}
    {a : Except Fault Value} {e : Int} (hp : -1 ≤ p) (hk : QuotedText kt x)
    (h : s.after p = kt ++ (g₁ ++ ':' :: (g₂ ++ rest))) (hg₁ : Gap g₁) (hg₂ : Trail g₂ rest)
    (hv : (s.choice [(.anyType, anyType s)]
      (p + kt.length + g₁.length + 1 + g₂.length)).Gives a e) :
    (pair s p).Gives ((fun v => (x, v)) <$> a) e := by
  have hq : (s.skipBlank p).pos = p := Source.skipBlank_of_solid hs hp (by rw [h]; exact hk.solid)
  obtain ⟨o1, p1⟩ := quotedString_of_text (s := s) (p := (s.skipBlank p).pos) (by omega)
    (by rw [hq]; exact h) hk
  obtain ⟨k1, k2⟩ := Source.choice_one_of_ok (r := .quotedString) hp o1
  have hgap : (s.skipBlank (p + kt.length)).pos = p + kt.length + g₁.length :=
    (Source.skipBlank_of_trail hs (by omega) (Source.after_add hp h)
      (.inl ⟨hg₁, Solid.cons (by decide) (by decide)⟩)).2
  rw [p1, hq, hgap] at k2
  obtain ⟨c1, c2⟩ := keyword_first hs (k := ":") (l := [":"]) (by omega)
    (Source.after_add_append (t := kt) (g := g₁) hp (by rw [h, List.append_assoc]; rfl))
    (by decide) (Solid.cons (by decide) (by decide)) hg₂ (by simp)
  have c2' : (s.keyword [":"] (p + kt.length + g₁.length)).pos =
      p + kt.length + g₁.length + 1 + g₂.length := c2
  rw [pair]
  refine Step.Gives.andThen (Step.Gives.of_ok k1 k2) (f := fun _ => (fun v => (x, v)) <$> a)
    fun key _ hkey => ?_
  obtain rfl := Except.ok.inj hkey
  dsimp only
  rw [k2]
  refine Step.Gives.andThen (Step.Gives.of_ok c1 c2') (f := fun _ => (fun v => (x, v)) <$> a)
    fun _ _ _ => ?_
  rw [c2']
  exact hv.map _

/-! ## The two choices

Where a value starts, the text's first character settles which alternative of each choice reads
it; the alternatives before it fail there without a fault. -/

section Choices

variable (hs : s.dialect = .json) (hp : -1 ≤ p) (hsol : Solid (s.after p))
include hs hp hsol

/-- Where a list starts, the complex choice reads it. -/
theorem complexType_of_list {a : Except Fault Value} {e : Int} (hl : (list s p).Gives a e)
    (he : ∀ v, a = .ok v → (s.skipBlank e).pos = e) : (complexType s p).Gives a e := by
  have hq := Source.skipBlank_of_solid hs hp hsol
  rw [complexType_eq]
  refine Source.choiceAt_gives (l := []) hp (by simp) ?_ he
  show (list s _).Gives a e
  rw [hq]
  exact hl

/-- Where the list fails, the complex choice reads a dict. -/
theorem complexType_of_map {a : Except Fault Value} {e : Int}
    (hl : ∃ e, (list s p).out = .error (.mismatch e)) (hm : (map s p).Gives a e)
    (he : ∀ v, a = .ok v → (s.skipBlank e).pos = e) : (complexType s p).Gives a e := by
  have hq := Source.skipBlank_of_solid hs hp hsol
  rw [complexType_eq]
  refine Source.choiceAt_gives (l := [(.list, fun q _ => list s q)]) hp ?_ ?_ he
  · intro ra hra
    rw [List.mem_singleton] at hra
    subst hra
    show ∃ e, (list s _).out = _
    rw [hq]
    exact hl
  · show (map s _).Gives a e
    rw [hq]
    exact hm

/-- Where a list or a dict starts, the value choice reads it. -/
theorem anyType_of_complex {a : Except Fault Value} {e : Int} (hc : (complexType s p).Gives a e)
    (he : ∀ v, a = .ok v → (s.skipBlank e).pos = e) : (anyType s p).Gives a e := by
  have hq := Source.skipBlank_of_solid hs hp hsol
  rw [anyType_eq]
  refine Source.choiceAt_gives (l := []) hp (by simp) ?_ he
  show (complexType s _).Gives a e
  rw [hq]
  exact hc

end Choices

/-! ## Where no value starts -/

theorem list_fail (hs : s.dialect = .json) {c : Char} {r : List Char} (hp : -1 ≤ p)
    (h : s.after p = c :: r) (hsol : Solid (c :: r)) (hc : c ≠ '[') :
    ∃ e, (list s p).out = .error (.mismatch e) ∧ e.pos = p + 1 := by
  obtain ⟨e, he, hepos, -⟩ := keyword_fail hs (l := ["["]) hp h hsol fun k hk => by
    rw [List.mem_singleton] at hk
    subst hk
    exact ⟨by decide, fun h' => hc (Option.some.inj h').symm⟩
  rw [list]
  exact ⟨e, (Step.andThen_of_error he).1, hepos⟩

theorem map_fail (hs : s.dialect = .json) {c : Char} {r : List Char} (hp : -1 ≤ p)
    (h : s.after p = c :: r) (hsol : Solid (c :: r)) (hc : c ≠ '\x7b') :
    ∃ e, (map s p).out = .error (.mismatch e) ∧ e.pos = p + 1 := by
  obtain ⟨e, he, hepos, -⟩ := keyword_fail hs (l := ["\x7b"]) hp h hsol fun k hk => by
    rw [List.mem_singleton] at hk
    subst hk
    exact ⟨by decide, fun h' => hc (Option.some.inj h').symm⟩
  rw [map]
  exact ⟨e, (Step.andThen_of_error he).1, hepos⟩

/-- Where neither bracket starts the text after the gap, the complex choice fails; past the first
character of a text of two or more, where it looked is a real position. -/
theorem complexType_fail (hs : s.dialect = .json) (hp : -1 ≤ p) (hl : 0 ≤ s.last) {c : Char}
    {r : List Char} (h : s.after (s.skipBlank p).pos = c :: r) (hc1 : c ≠ '[') (hc2 : c ≠ '\x7b') :
    ∃ e, (complexType s p).out = .error (.mismatch e) ∧ (1 ≤ s.last → 0 ≤ e.pos) := by
  have hq := Int.le_trans hp (s.skipBlank p).le
  have hsol : Solid (c :: r) := h ▸ Source.solid_skipBlank hs hp
  obtain ⟨e1, he1, hpos1⟩ := list_fail hs hq h hsol hc1
  obtain ⟨e2, he2, -⟩ := map_fail hs hq h hsol hc2
  rw [complexType_eq]
  obtain ⟨e, he, -, hpos, -⟩ := Source.choiceAt_fail (r := .list) (a := fun q _ => list s q)
    (m := [(.map, fun q _ => map s q)]) hp hl ⟨e1, he1, by omega⟩ fun ra hra => by
      rw [List.mem_singleton] at hra
      subst hra
      exact ⟨e2, he2⟩
  exact ⟨e, he, fun h1 => hpos (.inl h1)⟩

/-- Where a primitive starts, the complex choice fails and the value choice reads the
primitive. -/
theorem anyType_of_primitive (hs : s.dialect = .json) (hp : -1 ≤ p) {c : Char}
    (hc : (s.after p).head? = some c) (hsol : Solid (s.after p)) (hc1 : c ≠ '[') (hc2 : c ≠ '\x7b')
    {a : Except Fault Value} {e : Int} (hpr : (primitiveType s p).Gives a e)
    (he : ∀ v, a = .ok v → (s.skipBlank e).pos = e) : (anyType s p).Gives a e := by
  obtain ⟨r, h⟩ := List.head?_eq_some_iff.1 hc
  have hq := Source.skipBlank_of_solid hs hp hsol
  have hl : 0 ≤ s.last := by
    have := (Source.after_cons hp h).2.2
    omega
  obtain ⟨e1, he1, -⟩ := complexType_fail hs hp hl (by rw [hq]; exact h) hc1 hc2
  rw [anyType_eq]
  refine Source.choiceAt_gives (l := [(.complexType, fun q _ => complexType s q)]) hp ?_ ?_ he
  · intro ra hra
    rw [List.mem_singleton] at hra
    subst hra
    show ∃ e, (complexType s (s.skipBlank p).pos).out = .error (.mismatch e)
    rw [hq]
    exact ⟨e1, he1⟩
  · show (primitiveType s _).Gives a e
    rw [hq]
    exact hpr

/-- Where the text after the gap starts with no value at all, the value choice fails where it
looked, at a real position. -/
theorem anyType_fail (hs : s.dialect = .json) (hp : -1 ≤ p) (hl : 1 ≤ s.last) {c : Char}
    {r : List Char} (h : s.after (s.skipBlank p).pos = c :: r)
    (hc : c ≠ '[' ∧ c ≠ '\x7b' ∧ c ≠ 'n' ∧ c ≠ 't' ∧ c ≠ 'f' ∧ c ≠ '"' ∧ c ≠ '\'' ∧ c ≠ '-' ∧
      c.isDigit = false) :
    (anyType s p).Mismatched := by
  obtain ⟨hc1, hc2, hc3⟩ := hc
  have hq := Int.le_trans hp (s.skipBlank p).le
  have h' : s.after (s.skipBlank (s.skipBlank p).pos).pos = c :: r := by
    rw [Source.skipBlank_idem hs hp]
    exact h
  obtain ⟨e1, he1, hpos1⟩ := complexType_fail hs hq (by omega) h' hc1 hc2
  obtain ⟨e2, he2⟩ := primitiveType_fail hs hq hl h' hc3
  rw [anyType_eq]
  obtain ⟨e, he, -, hpos, -⟩ := Source.choiceAt_fail (r := .complexType)
    (a := fun q _ => complexType s q) (m := [(.primitiveType, fun q _ => primitiveType s q)]) hp
    (by omega) ⟨e1, he1, hpos1 hl⟩ fun ra hra => by
      rw [List.mem_singleton] at hra
      subst hra
      exact ⟨e2, he2⟩
  exact ⟨e, he, hpos (.inl hl)⟩

/-- Before a closing bracket or brace, at a real position, the choice of one value reads
nothing and stops where the gap ends. -/
theorem choice_anyType_close (hs : s.dialect = .json) {q : Int} (hq : 0 ≤ q) {c : Char}
    {r : List Char} (h : s.after q = c :: r) (hc : c = ']' ∨ c = '\x7d') :
    ∃ e, (s.choice [(.anyType, anyType s)] q).out = .error (.mismatch e) ∧
      (s.choice [(.anyType, anyType s)] q).pos = q := by
  have hsol : Solid (c :: r) := by rcases hc with rfl | rfl <;> exact Solid.cons (by decide) (by decide)
  have hsk : (s.skipBlank q).pos = q := Source.skipBlank_of_solid hs (by omega) (by rw [h]; exact hsol)
  have hl : 1 ≤ s.last := by
    have := (Source.after_cons (by omega) h).2.2
    omega
  have h' : s.after (s.skipBlank q).pos = c :: r := by rw [hsk]; exact h
  obtain ⟨e0, he0, hpos0⟩ := anyType_fail hs (by omega) hl h' (by rcases hc with rfl | rfl <;> decide)
  obtain ⟨e, he, -, -, hpos⟩ := Source.choiceAt_fail (s := s) (p := q) (r := .anyType)
    (a := fun r _ => anyType s r) (m := []) (by omega) (by omega) ⟨e0, by rw [hsk]; exact he0, hpos0⟩
    (by simp)
  exact ⟨e, he, hpos.trans hsk⟩

/-- Before a closing brace, at a real position, the choice of one pair reads nothing and stops
where the gap ends. -/
theorem choice_pair_close (hs : s.dialect = .json) {q : Int} (hq : 0 ≤ q) {r : List Char}
    (h : s.after q = '\x7d' :: r) :
    ∃ e, (s.choice [(.pair, pair s)] q).out = .error (.mismatch e) ∧
      (s.choice [(.pair, pair s)] q).pos = q := by
  have hsk : (s.skipBlank q).pos = q :=
    Source.skipBlank_of_solid hs (by omega) (by rw [h]; exact Solid.cons (by decide) (by decide))
  have hl : 1 ≤ s.last := by
    have := (Source.after_cons (by omega) h).2.2
    omega
  -- the key's choice fails on the brace, and the pair with it
  obtain ⟨e1, he1, hpos1⟩ := quotedString_fail (s := s) (p := q) (by omega) (by rw [h]; simp)
  obtain ⟨e2, he2, -, hpos2, -⟩ := Source.choiceAt_fail (s := s) (p := q) (r := .quotedString)
    (a := fun r _ => quotedString s r) (m := []) (by omega) (by omega)
    ⟨e1, by rw [hsk]; exact he1, hpos1⟩ (by simp)
  have hpair : (pair s (s.skipBlank q).pos).out = .error (.mismatch e2) := by
    rw [hsk, pair]
    exact (Step.andThen_of_error he2).1
  obtain ⟨e, he, -, -, hpos⟩ := Source.choiceAt_fail (s := s) (p := q) (r := .pair)
    (a := fun r _ => pair s r) (m := []) (by omega) (by omega) ⟨e2, hpair, hpos2 (.inr rfl)⟩
    (by simp)
  exact ⟨e, he, hpos.trans hsk⟩

/-! ## What the items and entries give -/

theorem evalItems_one (acc : Array Value) (d : Doc) :
    (fun vs => (acc ++ vs.toArray, false)) <$> Doc.evalItems [d] =
      (fun v => (acc.push v, false)) <$> d.eval := by
  cases h : d.eval <;> simp [Doc.evalItems, h, bind, Except.bind, Functor.map, Except.map, pure,
    Except.pure]

theorem evalItems_cons (acc : Array Value) (d : Doc) (ds : List Doc) :
    (fun vs => (acc ++ vs.toArray, false)) <$> Doc.evalItems (d :: ds) =
      d.eval >>= fun v => (fun vs => (acc.push v ++ vs.toArray, false)) <$> Doc.evalItems ds := by
  cases h : d.eval <;> cases h2 : Doc.evalItems ds <;>
    simp [Doc.evalItems, h, h2, bind, Except.bind, Functor.map, Except.map, pure, Except.pure]

theorem evalEntries_one (acc : List (Text × Value)) (x : Text) (d : Doc) :
    (fun l => (l, false)) <$> Doc.evalEntries acc [(x, d)] =
      (fun kv => (Value.put acc kv.1 kv.2, false)) <$> ((fun v => (x, v)) <$> d.eval) := by
  cases h : d.eval <;> simp [Doc.evalEntries, h, bind, Except.bind, Functor.map, Except.map]

theorem evalEntries_cons (acc : List (Text × Value)) (x : Text) (d : Doc)
    (es : List (Text × Doc)) :
    (fun l => (l, false)) <$> Doc.evalEntries acc ((x, d) :: es) =
      ((fun v => (x, v)) <$> d.eval) >>=
        fun kv => (fun l => (l, false)) <$> Doc.evalEntries (Value.put acc kv.1 kv.2) es := by
  cases h : d.eval <;> simp [Doc.evalEntries, h, bind, Except.bind, Functor.map, Except.map]

/-! ## Commas -/

/-- Before a closing bracket or brace there is no comma to read. -/
theorem comma_fail (hs : s.dialect = .json) {c : Char} {r : List Char} (hp : -1 ≤ p)
    (h : s.after p = c :: r) (hc : c = ']' ∨ c = '\x7d') :
    ∃ e, (s.keyword [","] p).out = .error (.mismatch e) ∧ (s.keyword [","] p).pos = p := by
  obtain ⟨e, he, -, hpos⟩ := keyword_fail hs (l := [","]) hp h
    (by rcases hc with rfl | rfl <;> exact Solid.cons (by decide) (by decide))
    (by rcases hc with rfl | rfl <;> decide)
  exact ⟨e, he, hpos⟩

theorem comma_of_text (hs : s.dialect = .json) {g r : List Char} (hp : -1 ≤ p)
    (h : s.after p = ',' :: (g ++ r)) (hg : Trail g r) :
    (s.keyword [","] p).out = .ok "," ∧ (s.keyword [","] p).pos = p + 1 + g.length :=
  keyword_first hs (k := ",") hp h (by decide) (Solid.cons (by decide) (by decide)) hg (by simp)

/-! ## Completeness

The text of a value, its whole gap, and then text that cannot continue a number: `anyType` reads
it to the value of the document it writes, or to the fault of its first number that has none, and
stops after the gap. The items of a list and the entries of a dict, up to their closing bracket,
are read the same way; the three statements are proved together, by recursion on the
derivations. -/

mutual

theorem anyType_of_text (hs : s.dialect = .json) {p : Int} {t g r : List Char} {d : Doc}
    (ht : ValueText t d) (hp : -1 ≤ p) (h : s.after p = t ++ g ++ r) (hg : Trail g r)
    (hr : NumberFollow r) : (anyType s p).Gives d.eval (p + t.length + g.length) := by
  have hsol : Solid (s.after p) := by rw [h, List.append_assoc]; exact ht.solid
  -- where the value and its gap end, solid text follows, so the choices skip nothing there
  have hend : ∀ v, d.eval = .ok v →
      (s.skipBlank (p + t.length + g.length)).pos = p + t.length + g.length := fun _ _ =>
    Source.skipBlank_of_solid hs (by omega) (by rw [Source.after_add_append hp h]; exact hg.solid)
  match ht with
  | .null =>
    obtain ⟨o, ps⟩ := primitiveType_null hs hp h hg
    exact anyType_of_primitive hs hp (c := 'n') (by rw [h]; rfl) hsol (by decide) (by decide)
      (Step.Gives.of_ok o ps) hend
  | .true =>
    obtain ⟨o, ps⟩ := primitiveType_boolean hs hp (k := "true") (.inl rfl) h hg
    exact anyType_of_primitive hs hp (c := 't') (by rw [h]; rfl) hsol (by decide) (by decide)
      (Step.Gives.of_ok o ps) hend
  | .false =>
    obtain ⟨o, ps⟩ := primitiveType_boolean hs hp (k := "false") (.inr rfl) h hg
    exact anyType_of_primitive hs hp (c := 'f') (by rw [h]; rfl) hsol (by decide) (by decide)
      (Step.Gives.of_ok o ps) hend
  | .text hx =>
    obtain ⟨o, ps⟩ := primitiveType_text hs hp hx h hg
    obtain ⟨q, body, hq, htq, -⟩ := hx
    exact anyType_of_primitive hs hp (c := q) (by rw [h, htq]; rfl) hsol
      (by rcases hq with rfl | rfl <;> decide) (by rcases hq with rfl | rfl <;> decide)
      (Step.Gives.of_ok o ps) hend
  | .number hn hnt =>
    obtain ⟨c, t', htc, hc⟩ := numLit_text_head hn hnt
    have hc' : c ≠ '[' ∧ c ≠ '\x7b' := by
      rcases hc with rfl | hc
      · decide
      · exact ⟨fun h => (by rw [h] at hc; cases hc), fun h => (by rw [h] at hc; cases hc)⟩
    exact anyType_of_primitive hs hp (c := c) (by rw [h, htc]; rfl) hsol hc'.1 hc'.2
      (primitiveType_number hs hp hn hnt h hg hr) hend
  | @ValueText.emptyList w hw =>
    have h' : s.after p = '[' :: (w ++ ([] ++ ']' :: (g ++ r))) := by rw [h]; simp
    have hin : s.after (p + 1 + w.length) = ']' :: (g ++ r) :=
      Source.after_add (by omega) (Source.after_cons hp h').2.1
    obtain ⟨e, he, hpos⟩ := choice_anyType_close hs (by omega) hin (.inl rfl)
    obtain ⟨o, ps⟩ := listItems_none false #[] he
    have hitems : (listItems s false #[] (p + 1 + w.length)).Gives
        ((fun vs => (#[] ++ vs.toArray, false)) <$> (.ok [] : Except Fault (List Value)))
        (p + 1 + w.length + ([] : List Char).length) :=
      Step.Gives.of_ok (o.trans (by simp)) (ps.trans (hpos.trans (by simp)))
    have hl := list_gives hs hp h' (.inl ⟨hw, Solid.cons (by decide) (by decide)⟩) hg hitems
    have hlen : p + 1 + w.length + ([] : List Char).length + 1 + g.length =
        p + ('[' :: (w ++ [']'])).length + g.length := by
      simp only [List.length_cons, List.length_append, List.length_nil]
      omega
    rw [hlen] at hl
    exact anyType_of_complex hs hp hsol (complexType_of_list hs hp hsol hl hend) hend
  | @ValueText.list w u _ hw hu =>
    have h' : s.after p = '[' :: (w ++ (u ++ ']' :: (g ++ r))) := by rw [h]; simp
    have hin : s.after (p + 1 + w.length) = u ++ ']' :: (g ++ r) :=
      Source.after_add (by omega) (Source.after_cons hp h').2.1
    have hl := list_gives hs hp h' (.inl ⟨hw, hu.solid⟩) hg
      (listItems_of_items hs hu false #[] (by omega) hin)
    have hlen : p + 1 + w.length + u.length + 1 + g.length =
        p + ('[' :: (w ++ u ++ [']'])).length + g.length := by
      simp only [List.length_cons, List.length_append, List.length_nil]
      omega
    rw [hlen] at hl
    exact anyType_of_complex hs hp hsol (complexType_of_list hs hp hsol hl hend) hend
  | @ValueText.emptyDict w hw =>
    have h' : s.after p = '\x7b' :: (w ++ ([] ++ '\x7d' :: (g ++ r))) := by rw [h]; simp
    have hin : s.after (p + 1 + w.length) = '\x7d' :: (g ++ r) :=
      Source.after_add (by omega) (Source.after_cons hp h').2.1
    obtain ⟨e, he, hpos⟩ := choice_pair_close hs (by omega) hin
    obtain ⟨o, ps⟩ := mapItems_none false [] he
    have hitems : (mapItems s false [] (p + 1 + w.length)).Gives
        ((fun l => (l, false)) <$> (.ok [] : Except Fault (List (Text × Value))))
        (p + 1 + w.length + ([] : List Char).length) :=
      Step.Gives.of_ok o (ps.trans (hpos.trans (by simp)))
    have hm := map_gives hs hp h' (.inl ⟨hw, Solid.cons (by decide) (by decide)⟩) hg hitems
    have hlen : p + 1 + w.length + ([] : List Char).length + 1 + g.length =
        p + ('\x7b' :: (w ++ ['\x7d'])).length + g.length := by
      simp only [List.length_cons, List.length_append, List.length_nil]
      omega
    rw [hlen] at hm
    obtain ⟨el, hel, -⟩ := list_fail hs hp h' (Solid.cons (by decide) (by decide)) (by decide)
    exact anyType_of_complex hs hp hsol (complexType_of_map hs hp hsol ⟨el, hel⟩ hm hend) hend
  | @ValueText.dict w u _ hw he =>
    have h' : s.after p = '\x7b' :: (w ++ (u ++ '\x7d' :: (g ++ r))) := by rw [h]; simp
    have hin : s.after (p + 1 + w.length) = u ++ '\x7d' :: (g ++ r) :=
      Source.after_add (by omega) (Source.after_cons hp h').2.1
    have hm := map_gives hs hp h' (.inl ⟨hw, he.solid⟩) hg
      (mapItems_of_entries hs he false [] (by omega) hin)
    have hlen : p + 1 + w.length + u.length + 1 + g.length =
        p + ('\x7b' :: (w ++ u ++ ['\x7d'])).length + g.length := by
      simp only [List.length_cons, List.length_append, List.length_nil]
      omega
    rw [hlen] at hm
    obtain ⟨el, hel, -⟩ := list_fail hs hp h' (Solid.cons (by decide) (by decide)) (by decide)
    exact anyType_of_complex hs hp hsol (complexType_of_map hs hp hsol ⟨el, hel⟩ hm hend) hend

theorem listItems_of_items (hs : s.dialect = .json) {p : Int} {u r : List Char} {ds : List Doc}
    (hu : Items u ds) (b : Bool) (acc : Array Value) (hp : -1 ≤ p) (h : s.after p = u ++ ']' :: r) :
    (listItems s b acc p).Gives ((fun vs => (acc ++ vs.toArray, false)) <$> Doc.evalItems ds)
      (p + u.length) := by
  have hq : (s.skipBlank p).pos = p := Source.skipBlank_of_solid hs hp (by rw [h]; exact hu.solid)
  match hu with
  | @Items.last t g d ht hg =>
    have hv := anyType_of_text hs ht hp h (.inl ⟨hg, Solid.cons (by decide) (by decide)⟩)
      (NumberFollow.cons (by decide))
    have hend : s.after (p + t.length + g.length) = ']' :: r := Source.after_add_append hp h
    have hsk : (s.skipBlank (p + t.length + g.length)).pos = p + t.length + g.length :=
      Source.skipBlank_of_solid hs (by omega) (by rw [hend]; exact Solid.cons (by decide) (by decide))
    have hc : (s.choice [(.anyType, anyType s)] p).Gives d.eval (p + t.length + g.length) :=
      Source.choice_one_gives hp (by rw [hq]; exact hv) fun _ _ => hsk
    obtain ⟨e, he, hpos⟩ := comma_fail hs (by omega) hend (.inl rfl)
    have hlen : p + (t ++ g).length = p + t.length + g.length := by
      simp only [List.length_append]
      omega
    rw [evalItems_one, hlen]
    exact listItems_gives_last b acc hc fun _ _ => ⟨e, he, hpos⟩
  | @Items.cons t g g' u' d _ ht hg hg' hu' =>
    have h1 : s.after p = t ++ g ++ ',' :: (g' ++ (u' ++ ']' :: r)) := by rw [h]; simp
    have hv := anyType_of_text hs ht hp h1 (.inl ⟨hg, Solid.cons (by decide) (by decide)⟩)
      (NumberFollow.cons (by decide))
    have hend := Source.after_add_append hp h1
    have hsk : (s.skipBlank (p + t.length + g.length)).pos = p + t.length + g.length :=
      Source.skipBlank_of_solid hs (by omega) (by rw [hend]; exact Solid.cons (by decide) (by decide))
    have hc : (s.choice [(.anyType, anyType s)] p).Gives d.eval (p + t.length + g.length) :=
      Source.choice_one_gives hp (by rw [hq]; exact hv) fun _ _ => hsk
    obtain ⟨k1, k2⟩ := comma_of_text hs (by omega) hend (.inl ⟨hg', hu'.solid⟩)
    have hin : s.after (p + t.length + g.length + 1 + g'.length) = u' ++ ']' :: r :=
      Source.after_add (by omega) (Source.after_cons (by omega) hend).2.1
    have hlen : p + t.length + g.length + 1 + g'.length + u'.length =
        p + (t ++ g ++ ',' :: (g' ++ u')).length := by
      simp only [List.length_cons, List.length_append]
      omega
    rw [evalItems_cons, ← hlen]
    exact listItems_gives_more b acc hc (fun _ _ => ⟨k1, k2⟩) fun v _ =>
      listItems_of_items hs hu' true (acc.push v) (by omega) hin

theorem mapItems_of_entries (hs : s.dialect = .json) {p : Int} {u r : List Char}
    {es : List (Text × Doc)}
    (he : Entries u es) (b : Bool) (acc : List (Text × Value)) (hp : -1 ≤ p)
    (h : s.after p = u ++ '\x7d' :: r) :
    (mapItems s b acc p).Gives ((fun l => (l, false)) <$> Doc.evalEntries acc es) (p + u.length) := by
  have hq : (s.skipBlank p).pos = p := Source.skipBlank_of_solid hs hp (by rw [h]; exact he.solid)
  match he with
  | @Entries.last k g₁ g₂ t g x d hk hg₁ hg₂ ht hg =>
    have h1 : s.after p = k ++ (g₁ ++ ':' :: (g₂ ++ (t ++ g ++ '\x7d' :: r))) := by rw [h]; simp
    -- the value starts after the colon and the gap after it
    have hval : s.after (p + k.length + g₁.length + 1 + g₂.length) = t ++ g ++ '\x7d' :: r :=
      Source.after_add (by omega) (Source.after_cons (by omega)
        (Source.after_add (by omega) (Source.after_add hp h1))).2.1
    have hv := anyType_of_text hs ht (by omega) hval (.inl ⟨hg, Solid.cons (by decide) (by decide)⟩)
      (NumberFollow.cons (by decide))
    have hend := Source.after_add_append (by omega) hval
    have hsk : (s.skipBlank (p + k.length + g₁.length + 1 + g₂.length + t.length + g.length)).pos =
        p + k.length + g₁.length + 1 + g₂.length + t.length + g.length :=
      Source.skipBlank_of_solid hs (by omega) (by rw [hend]; exact Solid.cons (by decide) (by decide))
    have hsk2 : (s.skipBlank (p + k.length + g₁.length + 1 + g₂.length)).pos =
        p + k.length + g₁.length + 1 + g₂.length :=
      Source.skipBlank_of_solid hs (by omega) (by rw [hval, List.append_assoc]; exact ht.solid)
    have hvc : (s.choice [(.anyType, anyType s)] (p + k.length + g₁.length + 1 + g₂.length)).Gives
        d.eval (p + k.length + g₁.length + 1 + g₂.length + t.length + g.length) :=
      Source.choice_one_gives (by omega) (by rw [hsk2]; exact hv) fun _ _ => hsk
    have hpair := pair_gives hs hp hk h1 hg₁
      (.inl ⟨hg₂, by rw [List.append_assoc]; exact ht.solid⟩) hvc
    have hpc : (s.choice [(.pair, pair s)] p).Gives ((fun v => (x, v)) <$> d.eval)
        (p + k.length + g₁.length + 1 + g₂.length + t.length + g.length) :=
      Source.choice_one_gives hp (by rw [hq]; exact hpair) fun _ _ => hsk
    obtain ⟨e, hce, hpos⟩ := comma_fail hs (by omega) hend (.inr rfl)
    have hlen : p + k.length + g₁.length + 1 + g₂.length + t.length + g.length =
        p + (k ++ g₁ ++ ':' :: (g₂ ++ t ++ g)).length := by
      simp only [List.length_cons, List.length_append]
      omega
    rw [evalEntries_one, ← hlen]
    exact mapItems_gives_last b acc hpc fun _ _ => ⟨e, hce, hpos⟩
  | @Entries.cons k g₁ g₂ t g g' u' x d _ hk hg₁ hg₂ ht hg hg' hrest =>
    have h1 : s.after p =
        k ++ (g₁ ++ ':' :: (g₂ ++ (t ++ g ++ ',' :: (g' ++ (u' ++ '\x7d' :: r))))) := by
      rw [h]; simp
    have hval : s.after (p + k.length + g₁.length + 1 + g₂.length) =
        t ++ g ++ ',' :: (g' ++ (u' ++ '\x7d' :: r)) :=
      Source.after_add (by omega) (Source.after_cons (by omega)
        (Source.after_add (by omega) (Source.after_add hp h1))).2.1
    have hv := anyType_of_text hs ht (by omega) hval (.inl ⟨hg, Solid.cons (by decide) (by decide)⟩)
      (NumberFollow.cons (by decide))
    have hend := Source.after_add_append (by omega) hval
    have hsk : (s.skipBlank (p + k.length + g₁.length + 1 + g₂.length + t.length + g.length)).pos =
        p + k.length + g₁.length + 1 + g₂.length + t.length + g.length :=
      Source.skipBlank_of_solid hs (by omega) (by rw [hend]; exact Solid.cons (by decide) (by decide))
    have hsk2 : (s.skipBlank (p + k.length + g₁.length + 1 + g₂.length)).pos =
        p + k.length + g₁.length + 1 + g₂.length :=
      Source.skipBlank_of_solid hs (by omega) (by rw [hval, List.append_assoc]; exact ht.solid)
    have hvc : (s.choice [(.anyType, anyType s)] (p + k.length + g₁.length + 1 + g₂.length)).Gives
        d.eval (p + k.length + g₁.length + 1 + g₂.length + t.length + g.length) :=
      Source.choice_one_gives (by omega) (by rw [hsk2]; exact hv) fun _ _ => hsk
    have hpair := pair_gives hs hp hk h1 hg₁
      (.inl ⟨hg₂, by rw [List.append_assoc]; exact ht.solid⟩) hvc
    have hpc : (s.choice [(.pair, pair s)] p).Gives ((fun v => (x, v)) <$> d.eval)
        (p + k.length + g₁.length + 1 + g₂.length + t.length + g.length) :=
      Source.choice_one_gives hp (by rw [hq]; exact hpair) fun _ _ => hsk
    obtain ⟨k1, k2⟩ := comma_of_text hs (by omega) hend (.inl ⟨hg', hrest.solid⟩)
    have hin : s.after (p + k.length + g₁.length + 1 + g₂.length + t.length + g.length + 1 +
        g'.length) = u' ++ '\x7d' :: r :=
      Source.after_add (by omega) (Source.after_cons (by omega) hend).2.1
    have hlen : p + k.length + g₁.length + 1 + g₂.length + t.length + g.length + 1 + g'.length +
        u'.length = p + (k ++ g₁ ++ ':' :: (g₂ ++ t ++ g ++ ',' :: (g' ++ u'))).length := by
      simp only [List.length_cons, List.length_append]
      omega
    rw [evalEntries_cons, ← hlen]
    exact mapItems_gives_more b acc hpc (fun _ _ => ⟨k1, k2⟩) fun kv _ =>
      mapItems_of_entries hs hrest true (Value.put acc kv.1 kv.2) (by omega) hin

end

end Grammar

end LaxJson
