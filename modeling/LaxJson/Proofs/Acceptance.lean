import LaxJson.Proofs.Soundness
/-!
# The documents `parse` accepts

`parse` accepts exactly the documents of the dialect. On the text of a document it gives the
value of the document, or the fault of its first number that has no value
(`parse_of_document`); and whatever text it gives a value for is the text of a document with
that value (`document_of_parse`). So a text outside the language never gets a value, and inside it
the only failures are those of evaluating numbers.
-/

set_option autoImplicit false
namespace LaxJson.Grammar

theorem after_of (text : String) : (Source.of .json text).after (-1) = text.toList := by
  simp [Source.after, Source.of]

/-- On the text of a document, the document rule gives the document's value and reads to the
end. -/
theorem document_gives {s : Source} (hs : s.dialect = .json) {d : Doc}
    (h : Document (s.after (-1)) d) :
    (document s (-1)).Gives d.eval s.last := by
  obtain ⟨w, core, w', hsplit, hw, hcore, hw'⟩ := h
  have hafter : s.after (-1) = w ++ (core ++ w') := by rw [hsplit, List.append_assoc]
  -- the gap before the value, which the choice skips
  have hskip : (s.skipBlank (-1)).pos = -1 + w.length :=
    (Source.skipBlank_of_trail hs (by omega) hafter (.inl ⟨hw, hcore.solid⟩)).2
  have hq : s.after (-1 + w.length) = core ++ w' ++ [] := by
    rw [Source.after_add (by omega) hafter, List.append_nil]
  have hv := anyType_of_text hs hcore (by omega) hq hw' (fun c hc => by cases hc)
  -- after the value and its gap, the text ends
  have hend : s.after (-1 + w.length + core.length + w'.length) = [] :=
    Source.after_add_append (by omega) hq
  have hlast : -1 + (w.length : Int) + core.length + w'.length = s.last := by
    have := (Source.after_eq_nil_iff (s := s) (p := -1 + w.length + core.length + w'.length)
      (by omega)).1 hend
    have hlen := Source.length_after (s := s) (p := -1) (by omega)
    have hl : -1 ≤ s.last := by unfold Source.last; omega
    rw [hafter] at hlen
    simp only [List.length_append] at hlen
    unfold Source.rest at hlen
    omega
  rw [hlast] at hend hv
  have hstart : (start s (-1)).Gives d.eval s.last :=
    Source.choice_one_gives (by omega) (by rw [hskip]; exact hv) fun _ _ =>
      Source.skipBlank_of_solid hs (by omega) (by rw [hend]; exact Solid.nil)
  obtain ⟨h1, h2⟩ := Source.atEnd_nil (s := s) (p := s.last) (by omega) hend
  have hdoc := Scan.bind_gives (k := fun v => s.atEnd >>= fun _ => pure v) hstart
    (f := fun v => .ok v) fun v _ =>
      Scan.bind_gives (Step.Gives.of_ok h1 h2) (f := fun _ => .ok v) fun _ _ => Step.Gives.of_ok rfl rfl
  have hval : (d.eval >>= fun v => Except.ok v) = d.eval := by
    cases d.eval <;> rfl
  rw [hval] at hdoc
  exact hdoc

/-- On the text of a document, `parse` gives the document's value, or the fault of its first
number that has none. -/
theorem parse_of_document {text : String} {d : Doc} (h : Document text.toList d) :
    parse text = d.eval.mapError .fault :=
  (document_gives (s := Source.of .json text) rfl (by rw [after_of]; exact h)).1

/-- A value with no gap around it is a whole document, read as the document's value. -/
theorem parse_of_valueText {text : String} {d : Doc} (h : ValueText text.toList d) :
    parse text = d.eval.mapError .fault :=
  parse_of_document ⟨[], text.toList, [], by simp, .nil, h, .inl ⟨.nil, Solid.nil⟩⟩

/-- Whatever the document rule gives a value for is the text of a document with that value. -/
theorem document_sound {s : Source} (hs : s.dialect = .json) {v : Value}
    (h : (document s (-1)).out = .ok v) : ∃ d, Document (s.after (-1)) d ∧ d.eval = .ok v := by
  unfold document at h
  obtain ⟨v', hv', hrest, -⟩ := Scan.bind_ok h
  obtain ⟨u, hu, hpure, -⟩ := Scan.bind_ok hrest
  obtain rfl : v' = v := Except.ok.inj hpure
  have hq : -1 ≤ (s.skipBlank (-1)).pos := Int.le_trans (by omega) (s.skipBlank (-1)).le
  -- the value, after the gap before it
  obtain ⟨h1, h2⟩ := Source.choice_one_ok (by omega) hv'
  obtain ⟨t, g, d, hsplit, ht, hg, hd⟩ := anyType_sound hs hq h1
  rw [Source.skipBlank_idem hs (by omega)] at hsplit
  -- then the end of the text
  have he : -1 ≤ (anyType s (s.skipBlank (-1)).pos).pos := Int.le_trans hq (anyType s _).le
  have hnil := Source.atEnd_sound (Int.le_trans (by omega) (start s (-1)).le) hu
  rw [show (start s (-1)).pos = (anyType s (s.skipBlank (-1)).pos).pos from
    h2.trans (Source.skipBlank_of_solid hs he hg.solid)] at hnil
  rw [hnil] at hsplit hg
  obtain ⟨-, w, hw1, hw, -⟩ := Source.skipBlank_trail hs (p := -1) (by omega)
  refine ⟨d, ⟨w, t, g, ?_, hw.gap ?_, ht, hg⟩, hd⟩
  · rw [hw1, hsplit]
    simp
  · rw [hsplit, List.append_nil]
    exact List.append_ne_nil_of_left_ne_nil ht.ne_nil _

/-- Whatever `parse` gives a value for is the text of a document with that value. -/
theorem document_of_parse {text : String} {v : Value} (h : parse text = .ok v) :
    ∃ d, Document text.toList d ∧ d.eval = .ok v := by
  rw [← after_of]
  exact document_sound rfl h

/-- `parse` accepts exactly the documents of the dialect: on the text of a document it gives the
document's value or the fault of a number in it, and it gives a value to no text that is not a
document with that value. -/
theorem parse_accepts_documents (text : String) :
    (∀ d, Document text.toList d → parse text = d.eval.mapError .fault) ∧
      ∀ v, parse text = .ok v → ∃ d, Document text.toList d ∧ d.eval = .ok v :=
  ⟨fun _ h => parse_of_document h, fun _ h => document_of_parse h⟩

end LaxJson.Grammar
