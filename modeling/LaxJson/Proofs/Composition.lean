import LaxJson.Proofs.Acceptance
/-!
# Lists and dicts read from their parts

A list written as the texts of its items between brackets, separated by commas, reads as the
list of the items' values; a dict written as key literals and value texts reads as the dict that
sets each key in turn, so a repeated key keeps its first place and its last value. Whatever
parses on its own parses the same inside a list or a dict, as long as it does not end in a
comment that no line feed closes: such a comment would run over the comma or the bracket after
it.

The parts are taken apart by the soundness of the reader, put together by the grammar, and the
whole is read back by its completeness. The main statement is `parse_compose`.
-/

set_option autoImplicit false
namespace LaxJson.Grammar

/-- The text ends, after its value, in a comment that no line feed closes. -/
def EndsInOpenComment (t : List Char) : Prop :=
  ∃ w core w' d, t = w ++ core ++ w' ∧ Gap w ∧ ValueText core d ∧ OpenGap w'

/-- The text is a value with a closed gap before it and after it. -/
def Spelled (t : List Char) (d : Doc) : Prop :=
  ∃ w core w', t = w ++ core ++ w' ∧ Gap w ∧ ValueText core d ∧ Gap w'

/-- A text without `#` ends in no comment. -/
theorem not_endsInOpenComment {t : List Char} (h : '#' ∉ t) : ¬ EndsInOpenComment t := by
  rintro ⟨w, core, w', d, rfl, -, -, g, body, rfl, -, -⟩
  exact h (by simp)

/-- A text that parses and does not end in an open comment is a value between closed gaps. -/
theorem spelled_of_parse {x : String} {v : Value} (h : parse x = .ok v)
    (hc : ¬ EndsInOpenComment x.toList) : ∃ d, Spelled x.toList d ∧ d.eval = .ok v := by
  obtain ⟨d, ⟨w, core, w', hsplit, hw, hcore, hw'⟩, hev⟩ := document_of_parse h
  refine ⟨d, ⟨w, core, w', hsplit, hw, hcore, ?_⟩, hev⟩
  rcases hw' with ⟨hg, -⟩ | ⟨hopen, -⟩
  · exact hg
  · exact absurd ⟨w, core, w', d, hsplit, hw, hcore, hopen⟩ hc

/-- The texts of values joined by commas: a gap, then the items of the grammar, whose documents
give the values. -/
theorem items_of_parses : ∀ (items : List (String × Value)), items ≠ [] →
    (∀ p ∈ items, parse p.1 = .ok p.2 ∧ ¬ EndsInOpenComment p.1.toList) →
    ∃ w u ds, [','].intercalate (items.map fun p => p.1.toList) = w ++ u ∧ Gap w ∧
      Items u ds ∧ Doc.evalItems ds = .ok (items.map Prod.snd)
  | [], hne, _ => absurd rfl hne
  | [(x, v)], _, h => by
    obtain ⟨hp, hc⟩ := h (x, v) (List.mem_singleton_self _)
    obtain ⟨d, ⟨w, c, w', hx, hw, hcore, hw'⟩, hev⟩ := spelled_of_parse hp hc
    refine ⟨w, c ++ w', [d], by simp [hx], hw, .last hcore hw', ?_⟩
    simp [Doc.evalItems, hev, bind, Except.bind, pure, Except.pure]
  | (x, v) :: q :: rest, _, h => by
    obtain ⟨hp, hc⟩ := h (x, v) List.mem_cons_self
    obtain ⟨d, ⟨w, c, w', hx, hw, hcore, hw'⟩, hev⟩ := spelled_of_parse hp hc
    obtain ⟨w₂, u₂, ds, hsplit, hw₂, hu₂, hevs⟩ := items_of_parses (q :: rest)
      (List.cons_ne_nil _ _) fun p hp => h p (List.mem_cons_of_mem _ hp)
    refine ⟨w, c ++ w' ++ ',' :: (w₂ ++ u₂), d :: ds, ?_, hw, .cons hcore hw' hw₂ hu₂, ?_⟩
    · simp only [List.map_cons] at hsplit ⊢
      rw [List.intercalate_cons_cons, hsplit, hx]
      simp
    · simp [Doc.evalItems, hev, hevs, bind, Except.bind, pure, Except.pure]

/-- Entries `key:value` joined by commas, each key a string literal: the entries of the grammar,
whose documents set the keys in turn on any dict. -/
theorem entries_of_parses : ∀ (entries : List ((String × Text) × (String × Value))), entries ≠ [] →
    (∀ e ∈ entries, QuotedText e.1.1.toList e.1.2 ∧ parse e.2.1 = .ok e.2.2 ∧
      ¬ EndsInOpenComment e.2.1.toList) →
    ∃ es, Entries ([','].intercalate (entries.map fun e => e.1.1.toList ++ ':' :: e.2.1.toList)) es ∧
      ∀ acc, Doc.evalEntries acc es = .ok (entries.foldl (fun acc e => Value.put acc e.1.2 e.2.2) acc)
  | [], hne, _ => absurd rfl hne
  | [((k, x), (t, v))], _, h => by
    obtain ⟨hk, hp, hc⟩ := h _ (List.mem_singleton_self _)
    obtain ⟨d, ⟨w, c, w', ht, hw, hcore, hw'⟩, hev⟩ := spelled_of_parse hp hc
    refine ⟨[(x, d)], ?_, fun acc => ?_⟩
    · simpa [ht] using Entries.last hk .nil hw hcore hw'
    · simp [Doc.evalEntries, hev, bind, Except.bind]
  | ((k, x), (t, v)) :: q :: rest, _, h => by
    obtain ⟨hk, hp, hc⟩ := h _ List.mem_cons_self
    obtain ⟨d, ⟨w, c, w', ht, hw, hcore, hw'⟩, hev⟩ := spelled_of_parse hp hc
    obtain ⟨es, hu, hevs⟩ := entries_of_parses (q :: rest) (List.cons_ne_nil _ _)
      fun e he => h e (List.mem_cons_of_mem _ he)
    refine ⟨(x, d) :: es, ?_, fun acc => ?_⟩
    · -- the next key follows the comma with no gap between them
      have hcons := Entries.cons hk .nil hw hcore hw' .nil hu
      simp only [List.map_cons] at hcons ⊢
      rw [List.intercalate_cons_cons, ht]
      simpa using hcons
    · simp [Doc.evalEntries, hev, hevs, bind, Except.bind]

/-- A list of the texts of values reads as the list of the values. -/
theorem parse_list_of_parts (items : List (String × Value))
    (h : ∀ p ∈ items, parse p.1 = .ok p.2 ∧ ¬ EndsInOpenComment p.1.toList) :
    parse ("[" ++ ",".intercalate (items.map Prod.fst) ++ "]") = .ok (.list (items.map Prod.snd)) := by
  have htext : ("[" ++ ",".intercalate (items.map Prod.fst) ++ "]").toList =
      '[' :: ([','].intercalate (items.map fun p => p.1.toList) ++ [']']) := by
    simp [String.toList_intercalate, Function.comp_def]
  rcases items with _ | ⟨i, rest⟩
  · -- no items: the empty list
    simp only [List.map_nil]
    have ht : ValueText ("[" ++ ",".intercalate [] ++ "]").toList (.list []) := by
      simpa using ValueText.emptyList .nil
    rw [parse_of_valueText ht]
    rfl
  · obtain ⟨w, u, ds, hsplit, hw, hu, hev⟩ := items_of_parses (i :: rest) (List.cons_ne_nil _ _) h
    have ht : ValueText ("[" ++ ",".intercalate ((i :: rest).map Prod.fst) ++ "]").toList
        (.list ds) := by
      rw [htext, hsplit]
      exact .list hw hu
    rw [parse_of_valueText ht]
    simp [Doc.eval, hev, Functor.map, Except.map, mapError_ok]

/-- A dict of key literals and texts of values reads as the dict that sets each key in turn. -/
theorem parse_dict_of_parts (entries : List ((String × Text) × (String × Value)))
    (h : ∀ e ∈ entries, QuotedText e.1.1.toList e.1.2 ∧ parse e.2.1 = .ok e.2.2 ∧
      ¬ EndsInOpenComment e.2.1.toList) :
    parse ("\x7b" ++ ",".intercalate (entries.map fun e => e.1.1 ++ ":" ++ e.2.1) ++ "\x7d") =
      .ok (.dict (entries.foldl (fun acc e => Value.put acc e.1.2 e.2.2) [])) := by
  have htext : ("\x7b" ++ ",".intercalate (entries.map fun e => e.1.1 ++ ":" ++ e.2.1) ++
      "\x7d").toList = '\x7b' :: ([','].intercalate
        (entries.map fun e => e.1.1.toList ++ ':' :: e.2.1.toList) ++ ['\x7d']) := by
    simp [String.toList_intercalate, Function.comp_def]
  rcases entries with _ | ⟨e, rest⟩
  · -- no entries: the empty dict
    simp only [List.map_nil, List.foldl_nil]
    have ht : ValueText ("\x7b" ++ ",".intercalate [] ++ "\x7d").toList (.dict []) := by
      simpa using ValueText.emptyDict .nil
    rw [parse_of_valueText ht]
    rfl
  · obtain ⟨es, hu, hev⟩ := entries_of_parses (e :: rest) (List.cons_ne_nil _ _) h
    have ht : ValueText ("\x7b" ++ ",".intercalate ((e :: rest).map fun e => e.1.1 ++ ":" ++ e.2.1) ++
        "\x7d").toList (.dict es) := by
      rw [htext]
      simpa using ValueText.dict .nil hu
    rw [parse_of_valueText ht]
    simp [Doc.eval, hev, Functor.map, Except.map, mapError_ok]

/-- Lists and dicts are read from their parts: each part reads inside them as it reads alone. -/
theorem parse_compose :
    (∀ items : List (String × Value),
      (∀ p ∈ items, parse p.1 = .ok p.2 ∧ ¬ EndsInOpenComment p.1.toList) →
      parse ("[" ++ ",".intercalate (items.map Prod.fst) ++ "]") =
        .ok (.list (items.map Prod.snd))) ∧
    ∀ entries : List ((String × Text) × (String × Value)),
      (∀ e ∈ entries, QuotedText e.1.1.toList e.1.2 ∧ parse e.2.1 = .ok e.2.2 ∧
        ¬ EndsInOpenComment e.2.1.toList) →
      parse ("\x7b" ++ ",".intercalate (entries.map fun e => e.1.1 ++ ":" ++ e.2.1) ++ "\x7d") =
        .ok (.dict (entries.foldl (fun acc e => Value.put acc e.1.2 e.2.2) [])) :=
  ⟨parse_list_of_parts, parse_dict_of_parts⟩

theorem parse_compose_literals :
    parse ("[" ++ ",".intercalate ([("true", Value.bool true), ("null", Value.ofString "null")].map
        Prod.fst) ++ "]") =
      .ok (.list ([("true", Value.bool true), ("null", Value.ofString "null")].map Prod.snd)) ∧
    parse ("\x7b" ++ ",".intercalate ([(("\"k\"", Text.ofString "k"), ("true", Value.bool true))].map
        fun e => e.1.1 ++ ":" ++ e.2.1) ++ "\x7d") =
      .ok (.dict ([(("\"k\"", Text.ofString "k"), ("true", Value.bool true))].foldl
        (fun acc e => Value.put acc e.1.2 e.2.2) [])) := by
  have htrue : parse "true" = .ok (.bool true) := parse_of_valueText .true
  have hnull : parse "null" = .ok (.ofString "null") := parse_of_valueText .null
  have hbody : StrBody '"' ['k'] [CodePoint.ofChar 'k'] :=
    .cons (t := ['k']) (u := []) (.raw (by decide) (by decide) (by decide)) .nil
  have hk : QuotedText "\"k\"".toList (Text.ofString "k") := ⟨'"', ['k'], .inl rfl, rfl, hbody⟩
  refine ⟨parse_compose.1 _ fun p hp => ?_, parse_compose.2 _ fun e he => ?_⟩
  · simp only [List.mem_cons, List.not_mem_nil, or_false] at hp
    rcases hp with rfl | rfl
    · exact ⟨htrue, not_endsInOpenComment (by decide)⟩
    · exact ⟨hnull, not_endsInOpenComment (by decide)⟩
  · rw [List.mem_singleton] at he
    subst he
    exact ⟨hk, htrue, not_endsInOpenComment (by decide)⟩

end LaxJson.Grammar
