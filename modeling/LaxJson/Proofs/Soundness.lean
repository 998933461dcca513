import LaxJson.Proofs.Values
/-!
# What the reader reads

Soundness of the value reader: whenever `anyType` gives a value, the text it passed over after
the gap it skips first is the text of a value whose document has that value, followed by a whole
gap (`anyType_sound`). Each rule of the grammar gets the same statement about what it read:
`list_sound`, `listItems_sound` for the items up to the end of the list, `pair_sound`, and so on.
They are proved together, each from the statements of the rules it calls, by the measure that
makes the rules terminate: every call is made further on in the text, or at the same place by a
rule of lower rank.
-/

set_option autoImplicit false
namespace LaxJson.Grammar

variable {s : Source} {p : Int}

/-- From `q` to `e` the text is the text of a value and the whole gap after it, and `v` is the
value of the document it writes. -/
def ReadsValue (s : Source) (q e : Int) (v : Value) : Prop :=
  ∃ t g d, s.after q = t ++ g ++ s.after e ∧ ValueText t d ∧ Trail g (s.after e) ∧ d.eval = .ok v

/-- After a value and its whole gap the text is solid: there is no gap left to skip. -/
theorem ReadsValue.skip_end (hs : s.dialect = .json) {q e : Int} {v : Value} (he : -1 ≤ e)
    (h : ReadsValue s q e v) : (s.skipBlank e).pos = e := by
  obtain ⟨_, _, _, -, -, hg, -⟩ := h
  exact Source.skipBlank_of_solid hs he hg.solid

/-! ## Inverting the rules -/

/-- A keyword that fails leaves the cursor where the gap before it ends. -/
theorem keyword_error_pos {l : List String} {f : Failure} (hp : -1 ≤ p)
    (h : (s.keyword l p).out = .error f) : (s.keyword l p).pos = (s.skipBlank p).pos := by
  have hb : (s.skipBlank p).out = .ok () := Source.skipBlankFrom_ok false hp
  unfold Source.keyword at h ⊢
  dsimp only at h ⊢
  rw [(Step.andThen_of_ok hb).1] at h
  rw [(Step.andThen_of_ok hb).2]
  revert h
  split
  · next k _ =>
    intro h
    have hb' : (s.skipBlank ((s.skipBlank p).pos + k.length)).out = .ok () :=
      Source.skipBlankFrom_ok false (by have := (s.skipBlank p).le; omega)
    simp only [Step.after_out, Step.map_out, hb'] at h
    cases h
  · intro _
    rfl

/-- A closing bracket that succeeds was not after a comma. -/
theorem closing_ok {close : String} {b : Bool} (h : (closing s close b p).out = .ok ()) :
    b = false ∧ (∃ k, (s.keyword [close] p).out = .ok k) ∧
      (closing s close b p).pos = (s.keyword [close] p).pos := by
  unfold closing at h ⊢
  obtain ⟨k, hk, hrest, hpos⟩ := Scan.bind_ok h
  cases b with
  | true =>
    -- after a comma the closing bracket always fails
    simp only [↓reduceIte] at hrest
    split at hrest <;> cases hrest
  | false => exact ⟨rfl, ⟨k, hk⟩, hpos⟩

/-- A list that was read: an opening bracket, items that did not end in a comma, and a closing
bracket. -/
theorem list_ok {v : Value} (h : (list s p).out = .ok v) :
    ∃ o r c, (s.keyword ["["] p).out = .ok o ∧
      (listItems s false #[] (s.keyword ["["] p).pos).out = .ok (r, false) ∧
      (s.keyword ["]"] (listItems s false #[] (s.keyword ["["] p).pos).pos).out = .ok c ∧
      v = .list r.toList ∧
      (list s p).pos = (s.keyword ["]"] (listItems s false #[] (s.keyword ["["] p).pos).pos).pos := by
  have h' := h
  rw [list] at h'
  obtain ⟨o, ho, h1, hpos1⟩ := Step.andThen_ok h'
  obtain ⟨⟨r, b⟩, hr, h2, hpos2⟩ := Step.andThen_ok h1
  rw [Step.map_out] at h2
  cases hcl : (closing s "]" b (listItems s false #[] (s.keyword ["["] p).pos).pos).out with
  | error e => rw [hcl] at h2; cases h2
  | ok u =>
    rw [hcl] at h2
    obtain ⟨rfl, ⟨c, hc⟩, hcpos⟩ := closing_ok hcl
    refine ⟨o, r, c, ho, hr, hc, (Except.ok.inj h2).symm, ?_⟩
    rw [list]
    exact hpos1.trans (hpos2.trans hcpos)

/-- A dict that was read: an opening brace, entries that did not end in a comma, and a closing
brace. -/
theorem map_ok {v : Value} (h : (map s p).out = .ok v) :
    ∃ o l c, (s.keyword ["\x7b"] p).out = .ok o ∧
      (mapItems s false [] (s.keyword ["\x7b"] p).pos).out = .ok (l, false) ∧
      (s.keyword ["\x7d"] (mapItems s false [] (s.keyword ["\x7b"] p).pos).pos).out = .ok c ∧
      v = .dict l ∧
      (map s p).pos = (s.keyword ["\x7d"] (mapItems s false [] (s.keyword ["\x7b"] p).pos).pos).pos := by
  have h' := h
  rw [map] at h'
  obtain ⟨o, ho, h1, hpos1⟩ := Step.andThen_ok h'
  obtain ⟨⟨l, b⟩, hl, h2, hpos2⟩ := Step.andThen_ok h1
  rw [Step.map_out] at h2
  cases hcl : (closing s "\x7d" b (mapItems s false [] (s.keyword ["\x7b"] p).pos).pos).out with
  | error e => rw [hcl] at h2; cases h2
  | ok u =>
    rw [hcl] at h2
    obtain ⟨rfl, ⟨c, hc⟩, hcpos⟩ := closing_ok hcl
    refine ⟨o, l, c, ho, hl, hc, (Except.ok.inj h2).symm, ?_⟩
    rw [map]
    exact hpos1.trans (hpos2.trans hcpos)

/-- A pair that was read: a key by its choice, a colon, and a value by its choice. -/
theorem pair_ok {x : Text} {v : Value} (h : (pair s p).out = .ok (x, v)) :
    ∃ c, (s.choice [(.quotedString, quotedString s)] p).out = .ok x ∧
      (s.keyword [":"] (s.choice [(.quotedString, quotedString s)] p).pos).out = .ok c ∧
      (s.choice [(.anyType, anyType s)]
        (s.keyword [":"] (s.choice [(.quotedString, quotedString s)] p).pos).pos).out = .ok v ∧
      (pair s p).pos = (s.choice [(.anyType, anyType s)]
        (s.keyword [":"] (s.choice [(.quotedString, quotedString s)] p).pos).pos).pos := by
  have h' := h
  rw [pair] at h'
  obtain ⟨key, hkey, h1, hpos1⟩ := Step.andThen_ok h'
  obtain ⟨c, hc, h2, hpos2⟩ := Step.andThen_ok h1
  rw [Step.map_out] at h2
  cases hv : (s.choiceAt (s.keyword [":"] (s.choice [(.quotedString, quotedString s)] p).pos).pos
      [(.anyType, fun r _ => anyType s r)]).out with
  | error e => rw [hv] at h2; cases h2
  | ok v' =>
    rw [hv] at h2
    obtain ⟨rfl, rfl⟩ := Prod.mk.inj (Except.ok.inj h2)
    refine ⟨c, hkey, hc, hv, ?_⟩
    rw [pair]
    exact hpos1.trans hpos2

/-! ## Soundness -/

mutual

theorem anyType_sound (hs : s.dialect = .json) {p : Int} (hp : -1 ≤ p) {v : Value}
    (h : (anyType s p).out = .ok v) : ReadsValue s (s.skipBlank p).pos (anyType s p).pos v := by
  have hq := Int.le_trans hp (s.skipBlank p).le
  have hidem := Source.skipBlank_idem hs hp
  have hle := Source.rest_le_rest (s := s) (s.skipBlank p).le
  rw [anyType_eq] at h ⊢
  obtain ⟨ra, hmem, hra, hpos⟩ := Source.choiceAt_sound hp h
  rw [hpos]
  simp only [List.mem_cons, List.mem_nil_iff, or_false] at hmem
  rcases hmem with rfl | rfl
  · -- a list or a dict
    have hc := complexType_sound hs hq hra
    rw [hidem] at hc
    dsimp only
    rw [hc.skip_end hs (Int.le_trans hq (complexType s _).le)]
    exact hc
  · -- a primitive
    obtain ⟨t, g, d, h1, h2, h3, h4⟩ := primitiveType_sound hs hq hra
    rw [hidem] at h1
    dsimp only
    rw [Source.skipBlank_of_solid hs (Int.le_trans hq (primitiveType s _).le) h3.solid]
    exact ⟨t, g, d, h1, h2, h3, h4⟩
termination_by 8 * s.rest p + 2
decreasing_by omega

theorem complexType_sound (hs : s.dialect = .json) {p : Int} (hp : -1 ≤ p) {v : Value}
    (h : (complexType s p).out = .ok v) :
    ReadsValue s (s.skipBlank p).pos (complexType s p).pos v := by
  have hq := Int.le_trans hp (s.skipBlank p).le
  have hidem := Source.skipBlank_idem hs hp
  have hle := Source.rest_le_rest (s := s) (s.skipBlank p).le
  rw [complexType_eq] at h ⊢
  obtain ⟨ra, hmem, hra, hpos⟩ := Source.choiceAt_sound hp h
  rw [hpos]
  simp only [List.mem_cons, List.mem_nil_iff, or_false] at hmem
  rcases hmem with rfl | rfl
  · have hl := list_sound hs hq hra
    rw [hidem] at hl
    dsimp only
    rw [hl.skip_end hs (Int.le_trans hq (list s _).le)]
    exact hl
  · have hm := map_sound hs hq hra
    rw [hidem] at hm
    dsimp only
    rw [hm.skip_end hs (Int.le_trans hq (map s _).le)]
    exact hm
termination_by 8 * s.rest p + 1
decreasing_by all_goals omega

theorem list_sound (hs : s.dialect = .json) {p : Int} (hp : -1 ≤ p) {v : Value}
    (h : (list s p).out = .ok v) : ReadsValue s (s.skipBlank p).pos (list s p).pos v := by
  obtain ⟨o, r, c, ho, hr, hc, rfl, hpos⟩ := list_ok h
  rw [hpos]
  -- the opening bracket, with the gaps around it
  obtain ⟨hmem, w, w', hsplit, hw, hw', -⟩ := Source.keyword_sound hs hp ho
  rw [List.mem_singleton] at hmem
  subst hmem
  have hadv := keyword_single_advances s "[" (by decide) p _ ho
  have hk : -1 ≤ (s.keyword ["["] p).pos := Int.le_trans hp (s.keyword ["["] p).le
  have hw0 : s.after p = w ++ ("[".toList ++ w' ++ s.after (s.keyword ["["] p).pos) := by
    rw [hsplit]
    simp only [List.append_assoc]
  have hopen : s.after (s.skipBlank p).pos = '[' :: (w' ++ s.after (s.keyword ["["] p).pos) := by
    rw [(Source.skipBlank_of_trail hs hp hw0 hw).2, Source.after_add hp hw0]
    rfl
  have hkskip : (s.skipBlank (s.keyword ["["] p).pos).pos = (s.keyword ["["] p).pos :=
    Source.skipBlank_of_solid hs hk hw'.solid
  -- the closing bracket follows the items
  have hi : -1 ≤ (listItems s false #[] (s.keyword ["["] p).pos).pos :=
    Int.le_trans hk (listItems s false #[] _).le
  obtain ⟨hmem2, w2, w3, hsplit2, -⟩ := Source.keyword_sound hs hi hc
  rw [List.mem_singleton] at hmem2
  subst hmem2
  have hne : s.after (listItems s false #[] (s.keyword ["["] p).pos).pos ≠ [] := by
    rw [hsplit2, List.append_assoc, List.append_assoc]
    exact List.append_ne_nil_of_right_ne_nil w2 (List.cons_ne_nil ']' _)
  rcases listItems_sound hs hk hr hne with ⟨-, rfl, hipos⟩ | ⟨u, ds, vs, hu, hitems, hev, rfl, hisol⟩
  · -- no items: the brackets and the gap between them
    rw [hkskip] at hipos
    generalize hI : (listItems s false #[] (s.keyword ["["] p).pos).pos = I at *
    subst hipos
    obtain ⟨-, g, hsplit3, hg, -⟩ := keyword_sound_solid hs hi hw'.solid hc
    refine ⟨'[' :: (w' ++ [']']), g, .list [], ?_, .emptyList (hw'.gap hne), hg, rfl⟩
    rw [hopen, hsplit3, show ("]" : String).toList = [']'] from rfl]
    simp
  · -- the items, with the brackets and gaps around them
    rw [hkskip] at hu
    obtain ⟨-, g, hsplit3, hg, -⟩ := keyword_sound_solid hs hi hisol hc
    have hne' : s.after (s.keyword ["["] p).pos ≠ [] := by
      rw [hu]
      exact List.append_ne_nil_of_right_ne_nil u hne
    refine ⟨'[' :: (w' ++ u ++ [']']), g, .list ds, ?_, .list (hw'.gap hne') hitems, hg, ?_⟩
    · rw [hopen, hu, hsplit3, show ("]" : String).toList = [']'] from rfl]
      simp
    · simp [Doc.eval, hev, Functor.map, Except.map]
termination_by 8 * s.rest p
decreasing_by omega

theorem listItems_sound (hs : s.dialect = .json) {p : Int} (hp : -1 ≤ p) {b : Bool}
    {acc arr : Array Value} (h : (listItems s b acc p).out = .ok (arr, false))
    (hne : s.after (listItems s b acc p).pos ≠ []) :
    (b = false ∧ arr = acc ∧ (listItems s b acc p).pos = (s.skipBlank p).pos) ∨
      ∃ u ds vs, s.after (s.skipBlank p).pos = u ++ s.after (listItems s b acc p).pos ∧
        Items u ds ∧ Doc.evalItems ds = .ok vs ∧ arr = acc ++ vs.toArray ∧
        Solid (s.after (listItems s b acc p).pos) := by
  have hq := Int.le_trans hp (s.skipBlank p).le
  rcases hx : (s.choice [(.anyType, anyType s)] p).out with (e | f) | v
  · -- no item: nothing is read
    obtain ⟨o, ps⟩ := listItems_none b acc hx
    rw [o] at h
    obtain ⟨rfl, rfl⟩ := Prod.mk.inj (Except.ok.inj h)
    exact .inl ⟨rfl, rfl, ps.trans (Source.choice_one_mismatch_pos hp hx)⟩
  · rw [listItems_fault b acc hx] at h
    cases h
  · -- an item: its text and the whole gap after it
    obtain ⟨h1, h2⟩ := Source.choice_one_ok hp hx
    have hle := Source.rest_le_rest (s := s) (s.skipBlank p).le
    have hmle := Source.rest_le_rest (s := s) (anyType s (s.skipBlank p).pos).le
    have hm1 : -1 ≤ (anyType s (s.skipBlank p).pos).pos :=
      Int.le_trans hq (anyType s (s.skipBlank p).pos).le
    obtain ⟨t, g, d, hsplit, ht, hg, hev⟩ := anyType_sound hs hq h1
    rw [Source.skipBlank_idem hs hp] at hsplit
    rw [Source.skipBlank_of_solid hs hm1 hg.solid] at h2
    generalize hm : (anyType s (s.skipBlank p).pos).pos = m at *
    rcases hc : (s.keyword [","] m).out with (e' | f) | k
    · -- no comma: the items end with this one
      obtain ⟨o, ps⟩ := listItems_last b acc hx h2 hc
      rw [o] at h
      obtain ⟨rfl, -⟩ := Prod.mk.inj (Except.ok.inj h)
      have hkp : (s.keyword [","] m).pos = m :=
        (keyword_error_pos hm1 hc).trans (Source.skipBlank_of_solid hs hm1 hg.solid)
      rw [ps, hkp] at hne ⊢
      refine .inr ⟨t ++ g, [d], [v], hsplit, .last ht (hg.gap hne), ?_, ?_, hg.solid⟩
      · simp [Doc.evalItems, hev, bind, Except.bind, pure, Except.pure]
      · simp
    · rw [listItems_comma_fault b acc hx h2 hc] at h
      cases h
    · -- a comma: the items go on after it
      obtain ⟨o, ps⟩ := listItems_more b acc hx h2 hc
      obtain ⟨hmem, w', hsplit2, hw', -⟩ := keyword_sound_solid hs hm1 hg.solid hc
      rw [List.mem_singleton] at hmem
      subst hmem
      have hadv := keyword_single_advances s "," (by decide) m _ hc
      have hc1 : -1 ≤ (s.keyword [","] m).pos := Int.le_trans hm1 (s.keyword [","] m).le
      rw [o] at h
      rw [ps] at hne ⊢
      rcases listItems_sound hs hc1 h hne with ⟨hb, -⟩ | ⟨u, ds, vs, hu, hitems, hev2, rfl, hsol⟩
      · cases hb
      · rw [Source.skipBlank_of_solid hs hc1 hw'.solid] at hu
        have hnm : s.after m ≠ [] := by
          rw [hsplit2]
          exact List.cons_ne_nil ',' _
        have hnc : s.after (s.keyword [","] m).pos ≠ [] := by
          rw [hu]
          exact List.append_ne_nil_of_right_ne_nil u hne
        refine .inr ⟨t ++ g ++ ',' :: (w' ++ u), d :: ds, v :: vs, ?_,
          .cons ht (hg.gap hnm) (hw'.gap hnc) hitems, ?_, ?_, hsol⟩
        · rw [hsplit, hsplit2, hu]
          simp
        · simp [Doc.evalItems, hev, hev2, bind, Except.bind, pure, Except.pure]
        · simp
termination_by 8 * s.rest p + 3
decreasing_by all_goals omega

theorem map_sound (hs : s.dialect = .json) {p : Int} (hp : -1 ≤ p) {v : Value}
    (h : (map s p).out = .ok v) : ReadsValue s (s.skipBlank p).pos (map s p).pos v := by
  obtain ⟨o, l, c, ho, hl, hc, rfl, hpos⟩ := map_ok h
  rw [hpos]
  -- the opening brace, with the gaps around it
  obtain ⟨hmem, w, w', hsplit, hw, hw', -⟩ := Source.keyword_sound hs hp ho
  rw [List.mem_singleton] at hmem
  subst hmem
  have hadv := keyword_single_advances s "\x7b" (by decide) p _ ho
  have hk : -1 ≤ (s.keyword ["\x7b"] p).pos := Int.le_trans hp (s.keyword ["\x7b"] p).le
  have hw0 : s.after p = w ++ ("\x7b".toList ++ w' ++ s.after (s.keyword ["\x7b"] p).pos) := by
    rw [hsplit]
    simp only [List.append_assoc]
  have hopen :
      s.after (s.skipBlank p).pos = '\x7b' :: (w' ++ s.after (s.keyword ["\x7b"] p).pos) := by
    rw [(Source.skipBlank_of_trail hs hp hw0 hw).2, Source.after_add hp hw0]
    rfl
  have hkskip : (s.skipBlank (s.keyword ["\x7b"] p).pos).pos = (s.keyword ["\x7b"] p).pos :=
    Source.skipBlank_of_solid hs hk hw'.solid
  -- the closing brace follows the entries
  have hi : -1 ≤ (mapItems s false [] (s.keyword ["\x7b"] p).pos).pos :=
    Int.le_trans hk (mapItems s false [] _).le
  obtain ⟨hmem2, w2, w3, hsplit2, -⟩ := Source.keyword_sound hs hi hc
  rw [List.mem_singleton] at hmem2
  subst hmem2
  have hne : s.after (mapItems s false [] (s.keyword ["\x7b"] p).pos).pos ≠ [] := by
    rw [hsplit2, List.append_assoc, List.append_assoc]
    exact List.append_ne_nil_of_right_ne_nil w2 (List.cons_ne_nil '\x7d' _)
  rcases mapItems_sound hs hk hl hne with ⟨-, rfl, hipos⟩ | ⟨u, es, hu, hentries, hev, hisol⟩
  · -- no entries: the braces and the gap between them
    rw [hkskip] at hipos
    generalize hI : (mapItems s false [] (s.keyword ["\x7b"] p).pos).pos = I at *
    subst hipos
    obtain ⟨-, g, hsplit3, hg, -⟩ := keyword_sound_solid hs hi hw'.solid hc
    refine ⟨'\x7b' :: (w' ++ ['\x7d']), g, .dict [], ?_, .emptyDict (hw'.gap hne), hg, rfl⟩
    rw [hopen, hsplit3, show ("\x7d" : String).toList = ['\x7d'] from rfl]
    simp
  · -- the entries, with the braces and gaps around them
    rw [hkskip] at hu
    obtain ⟨-, g, hsplit3, hg, -⟩ := keyword_sound_solid hs hi hisol hc
    have hne' : s.after (s.keyword ["\x7b"] p).pos ≠ [] := by
      rw [hu]
      exact List.append_ne_nil_of_right_ne_nil u hne
    refine ⟨'\x7b' :: (w' ++ u ++ ['\x7d']), g, .dict es, ?_, .dict (hw'.gap hne') hentries, hg,
      ?_⟩
    · rw [hopen, hu, hsplit3, show ("\x7d" : String).toList = ['\x7d'] from rfl]
      simp
    · simp [Doc.eval, hev, Functor.map, Except.map]
termination_by 8 * s.rest p
decreasing_by omega

theorem mapItems_sound (hs : s.dialect = .json) {p : Int} (hp : -1 ≤ p) {b : Bool}
    {acc l : List (Text × Value)} (h : (mapItems s b acc p).out = .ok (l, false))
    (hne : s.after (mapItems s b acc p).pos ≠ []) :
    (b = false ∧ l = acc ∧ (mapItems s b acc p).pos = (s.skipBlank p).pos) ∨
      ∃ u es, s.after (s.skipBlank p).pos = u ++ s.after (mapItems s b acc p).pos ∧
        Entries u es ∧ Doc.evalEntries acc es = .ok l ∧
        Solid (s.after (mapItems s b acc p).pos) := by
  have hq := Int.le_trans hp (s.skipBlank p).le
  rcases hx : (s.choice [(.pair, pair s)] p).out with (e | f) | ⟨x, v⟩
  · -- no entry: nothing is read
    obtain ⟨o, ps⟩ := mapItems_none b acc hx
    rw [o] at h
    obtain ⟨rfl, rfl⟩ := Prod.mk.inj (Except.ok.inj h)
    exact .inl ⟨rfl, rfl, ps.trans (Source.choice_one_mismatch_pos hp hx)⟩
  · rw [mapItems_fault b acc hx] at h
    cases h
  · -- an entry: its text and the whole gap after its value
    obtain ⟨h1, h2⟩ := Source.choice_one_ok hp hx
    have hle := Source.rest_le_rest (s := s) (s.skipBlank p).le
    have hmle := Source.rest_le_rest (s := s) (pair s (s.skipBlank p).pos).le
    have hm1 : -1 ≤ (pair s (s.skipBlank p).pos).pos :=
      Int.le_trans hq (pair s (s.skipBlank p).pos).le
    obtain ⟨k, g₁, g₂, t, g, d, hsplit, hk, hg₁, hg₂, ht, hg, hev⟩ := pair_sound hs hq h1
    rw [Source.skipBlank_idem hs hp] at hsplit
    rw [Source.skipBlank_of_solid hs hm1 hg.solid] at h2
    generalize hm : (pair s (s.skipBlank p).pos).pos = m at *
    rcases hc : (s.keyword [","] m).out with (e' | f) | c
    · -- no comma: the entries end with this one
      obtain ⟨o, ps⟩ := mapItems_last b acc hx h2 hc
      rw [o] at h
      obtain ⟨rfl, -⟩ := Prod.mk.inj (Except.ok.inj h)
      have hkp : (s.keyword [","] m).pos = m :=
        (keyword_error_pos hm1 hc).trans (Source.skipBlank_of_solid hs hm1 hg.solid)
      rw [ps, hkp] at hne ⊢
      refine .inr ⟨k ++ g₁ ++ ':' :: (g₂ ++ t ++ g), [(x, d)], hsplit,
        .last hk hg₁ hg₂ ht (hg.gap hne), ?_, hg.solid⟩
      simp [Doc.evalEntries, hev, bind, Except.bind]
    · rw [mapItems_comma_fault b acc hx h2 hc] at h
      cases h
    · -- a comma: the entries go on after it
      obtain ⟨o, ps⟩ := mapItems_more b acc hx h2 hc
      obtain ⟨hmem, w', hsplit2, hw', -⟩ := keyword_sound_solid hs hm1 hg.solid hc
      rw [List.mem_singleton] at hmem
      subst hmem
      have hadv := keyword_single_advances s "," (by decide) m _ hc
      have hc1 : -1 ≤ (s.keyword [","] m).pos := Int.le_trans hm1 (s.keyword [","] m).le
      rw [o] at h
      rw [ps] at hne ⊢
      rcases mapItems_sound hs hc1 h hne with ⟨hb, -⟩ | ⟨u, es, hu, hentries, hev2, hsol⟩
      · cases hb
      · rw [Source.skipBlank_of_solid hs hc1 hw'.solid] at hu
        have hnm : s.after m ≠ [] := by
          rw [hsplit2]
          exact List.cons_ne_nil ',' _
        have hnc : s.after (s.keyword [","] m).pos ≠ [] := by
          rw [hu]
          exact List.append_ne_nil_of_right_ne_nil u hne
        refine .inr ⟨k ++ g₁ ++ ':' :: (g₂ ++ t ++ g ++ ',' :: (w' ++ u)), (x, d) :: es, ?_,
          .cons hk hg₁ hg₂ ht (hg.gap hnm) (hw'.gap hnc) hentries, ?_, hsol⟩
        · rw [hsplit, hsplit2, hu]
          simp
        · simp [Doc.evalEntries, hev, hev2, bind, Except.bind]
termination_by 8 * s.rest p + 4
decreasing_by all_goals omega

theorem pair_sound (hs : s.dialect = .json) {p : Int} (hp : -1 ≤ p) {x : Text} {v : Value}
    (h : (pair s p).out = .ok (x, v)) :
    ∃ k g₁ g₂ t g d,
      s.after (s.skipBlank p).pos = k ++ g₁ ++ ':' :: (g₂ ++ t ++ g) ++ s.after (pair s p).pos ∧
      QuotedText k x ∧ Gap g₁ ∧ Gap g₂ ∧ ValueText t d ∧ Trail g (s.after (pair s p).pos) ∧
      d.eval = .ok v := by
  obtain ⟨c, hkey, hcolon, hval, hpos⟩ := pair_ok h
  rw [hpos]
  have hq := Int.le_trans hp (s.skipBlank p).le
  -- the key, and the gap after it that the choice skips
  obtain ⟨q1, q2⟩ := Source.choice_one_ok hp hkey
  obtain ⟨kt, hkt, hsplit1, -⟩ := quotedString_sound hq q1
  have hq1 : -1 ≤ (quotedString s (s.skipBlank p).pos).pos :=
    Int.le_trans hq (quotedString s _).le
  obtain ⟨-, g₁, hsplit2, hg₁, -⟩ := Source.skipBlank_trail hs hq1
  rw [← q2] at hsplit2 hg₁
  have hK : -1 ≤ (s.choice [(.quotedString, quotedString s)] p).pos :=
    Int.le_trans hp (s.choice [(.quotedString, quotedString s)] p).le
  have hKle := Source.rest_le_rest (s := s) (s.choice [(.quotedString, quotedString s)] p).le
  generalize (s.choice [(.quotedString, quotedString s)] p).pos = K at *
  -- the colon, on solid text
  obtain ⟨hmem, g₂, hsplit3, hg₂, -⟩ := keyword_sound_solid hs hK hg₁.solid hcolon
  rw [List.mem_singleton] at hmem
  subst hmem
  have hC : -1 ≤ (s.keyword [":"] K).pos := Int.le_trans hK (s.keyword [":"] K).le
  have hCle := Source.rest_le_rest (s := s) (s.keyword [":"] K).le
  generalize (s.keyword [":"] K).pos = C at *
  -- the value
  obtain ⟨v1, v2⟩ := Source.choice_one_ok hC hval
  have hCskip : (s.skipBlank C).pos = C := Source.skipBlank_of_solid hs hC hg₂.solid
  rw [hCskip] at v1 v2
  obtain ⟨t, g, d, hsplit4, ht, hg, hev⟩ := anyType_sound hs hC v1
  rw [hCskip] at hsplit4
  rw [v2, Source.skipBlank_of_solid hs (Int.le_trans hC (anyType s C).le) hg.solid]
  have hnK : s.after K ≠ [] := by
    rw [hsplit3]
    exact List.cons_ne_nil ':' _
  have hnC : s.after C ≠ [] := by
    rw [hsplit4, List.append_assoc]
    exact List.append_ne_nil_of_left_ne_nil ht.ne_nil _
  refine ⟨kt, g₁, g₂, t, g, d, ?_, hkt, hg₁.gap hnK, hg₂.gap hnC, ht, hg, hev⟩
  rw [hsplit1, hsplit2, hsplit3, hsplit4, show (":" : String).toList = [':'] from rfl]
  simp
termination_by 8 * s.rest p + 3
decreasing_by omega

end

end LaxJson.Grammar
