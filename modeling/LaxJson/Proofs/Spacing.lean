import LaxJson.Proofs.Acceptance
/-!
# Blanks and comments between lexemes

A text splits into lexemes from the left: a string runs from its delimiter to the next delimiter
that no backslash takes along, a comment from its `#` to the line feed that closes it or to the
end, a keyword from its first letter, and every other character is a lexeme of its own. The
places between lexemes are the places outside strings, keywords and comments.

Closed gaps (blanks, and comments each closed by a line feed) inserted at any of those places
leave what `parse` gives unchanged (`parse_loosened`); the places between the characters of a
number are among them. Inside a comment a line feed would close it early and expose the rest of
its line, so there an insertion can change the parse (`parse_comment_split`).

The proof stays on the grammar: every derivation of the language splits its text into lexemes
that do not depend on what follows (`Lexed`), and padding those lexemes with gaps gives a text
with a derivation of the same document (`ValueText.padded`, `Items.padded`, `Entries.padded`).
-/

set_option autoImplicit false
namespace LaxJson

/-! ## Lexemes -/

/-- How far a string runs after its opening delimiter `q`, its closing delimiter included: a
backslash always takes the character after it along. -/
def quoteSpan (q : Char) : List Char → Nat
  | [] => 0
  | [_] => 1
  | c :: d :: r =>
    if c = q then 1 else if c = '\\' then quoteSpan q r + 2 else quoteSpan q (d :: r) + 1

theorem quoteSpan_close (q : Char) (r : List Char) : quoteSpan q (q :: r) = 1 := by
  cases r <;> simp [quoteSpan]

theorem quoteSpan_raw {q c : Char} (hq : c ≠ q) (hb : c ≠ '\\') (r : List Char) :
    quoteSpan q (c :: r) = quoteSpan q r + 1 := by
  cases r <;> simp [quoteSpan, hq, hb]

theorem quoteSpan_escape {q : Char} (hq : '\\' ≠ q) (e : Char) (r : List Char) :
    quoteSpan q ('\\' :: e :: r) = quoteSpan q r + 2 := by
  simp [quoteSpan, hq]

/-- How far a comment runs after its `#`, the line feed that closes it included. -/
def lineSpan : List Char → Nat
  | [] => 0
  | c :: r => if c = '\n' then 1 else lineSpan r + 1

/-- The length of the lexeme a text starts with: a string, a comment, a keyword of four or five
letters, or one character. -/
def lexemeLength : List Char → Nat
  | [] => 0
  | c :: r =>
    if c = '"' ∨ c = '\'' then quoteSpan c r + 1
    else if c = '#' then lineSpan r + 1
    else if c = 't' ∨ c = 'n' then 4
    else if c = 'f' then 5
    else 1

theorem lexemeLength_pos (c : Char) (r : List Char) : 0 < lexemeLength (c :: r) := by
  simp only [lexemeLength]
  split
  · omega
  · split
    · omega
    · split
      · omega
      · split <;> omega

/-- The lexemes of a text, from the left. -/
def lexemes : List Char → List (List Char)
  | [] => []
  | c :: r =>
    (c :: r).take (lexemeLength (c :: r)) :: lexemes ((c :: r).drop (lexemeLength (c :: r)))
termination_by t => t.length
decreasing_by
  have := lexemeLength_pos c r
  simp only [List.length_drop, List.length_cons]
  omega

theorem lexemes_append {l r : List Char} (hne : l ≠ []) (hl : lexemeLength (l ++ r) = l.length) :
    lexemes (l ++ r) = l :: lexemes r := by
  obtain ⟨c, l', rfl⟩ := List.exists_cons_of_ne_nil hne
  rw [List.cons_append, lexemes, ← List.cons_append, hl, List.take_left, List.drop_left]

/-- The lexemes read the whole text. -/
theorem flatten_lexemes : ∀ t : List Char, (lexemes t).flatten = t
  | [] => by simp [lexemes]
  | c :: r => by
    rw [lexemes, List.flatten_cons, flatten_lexemes, List.take_append_drop]
termination_by t => t.length
decreasing_by
  have := lexemeLength_pos c r
  simp only [List.length_drop, List.length_cons]
  omega

/-- `Lexed t L`: the text `t` splits into the lexemes `L`, whatever follows it. -/
def Lexed (t : List Char) (L : List (List Char)) : Prop := ∀ r, lexemes (t ++ r) = L ++ lexemes r

namespace Lexed

variable {a b l : List Char} {La Lb : List (List Char)}

theorem nil : Lexed [] [] := fun _ => rfl

theorem append (ha : Lexed a La) (hb : Lexed b Lb) : Lexed (a ++ b) (La ++ Lb) := fun r => by
  rw [List.append_assoc, ha, hb, List.append_assoc]

theorem one (hne : l ≠ []) (hl : ∀ r, lexemeLength (l ++ r) = l.length) : Lexed l [l] :=
  fun r => lexemes_append hne (hl r)

end Lexed

/-- A character that is a lexeme of its own: it opens no string, comment or keyword. -/
def Plain (c : Char) : Prop := c ≠ '"' ∧ c ≠ '\'' ∧ c ≠ '#' ∧ c ≠ 't' ∧ c ≠ 'n' ∧ c ≠ 'f'

instance (c : Char) : Decidable (Plain c) :=
  inferInstanceAs (Decidable (c ≠ '"' ∧ c ≠ '\'' ∧ c ≠ '#' ∧ c ≠ 't' ∧ c ≠ 'n' ∧ c ≠ 'f'))

theorem Lexed.plain {c : Char} (hc : Plain c) : Lexed [c] [[c]] := by
  obtain ⟨h1, h2, h3, h4, h5, h6⟩ := hc
  refine Lexed.one (List.cons_ne_nil _ _) fun r => ?_
  simp [lexemeLength, h1, h2, h3, h4, h5, h6]

theorem plain_of_isBlank {c : Char} (h : isBlank c = true) : Plain c := by
  simp only [isBlank, Bool.or_eq_true, beq_iff_eq] at h
  rcases h with ((((h | h) | h) | h) | h) | h <;> subst h <;> decide

theorem plain_of_isDigit {c : Char} (h : c.isDigit = true) : Plain c := by
  refine ⟨?_, ?_, ?_, ?_, ?_, ?_⟩ <;> rintro rfl <;> exact absurd h (by decide)

/-! ## The lexemes of the grammar's pieces -/

theorem lineSpan_closed {body : List Char} (h : '\n' ∉ body) (r : List Char) :
    lineSpan (body ++ '\n' :: r) = body.length + 1 := by
  induction body with
  | nil => simp [lineSpan]
  | cons c body ih =>
    have hc : c ≠ '\n' := fun hc => h (hc ▸ List.mem_cons_self)
    simp [lineSpan, hc, ih (fun h' => h (List.mem_cons_of_mem _ h'))]

theorem lineSpan_open {body : List Char} (h : '\n' ∉ body) : lineSpan body = body.length := by
  induction body with
  | nil => rfl
  | cons c body ih =>
    have hc : c ≠ '\n' := fun hc => h (hc ▸ List.mem_cons_self)
    simp [lineSpan, hc, ih (fun h' => h (List.mem_cons_of_mem _ h'))]

/-- A comment closed by a line feed is one lexeme. -/
theorem Lexed.comment {body : List Char} (h : '\n' ∉ body) :
    Lexed ('#' :: body ++ ['\n']) ['#' :: body ++ ['\n']] :=
  Lexed.one (List.cons_ne_nil _ _) fun r => by
    simp [lexemeLength, lineSpan_closed h]

/-- A comment that runs to the end of the text is its last lexeme. -/
theorem lexemes_open {body : List Char} (h : '\n' ∉ body) :
    lexemes ('#' :: body) = ['#' :: body] := by
  have := lexemes_append (l := '#' :: body) (r := []) (List.cons_ne_nil _ _)
    (by simp [lexemeLength, lineSpan_open h])
  simpa [lexemes] using this

theorem IsHexDigit.ne_quote {a q : Char} (ha : IsHexDigit a) (hq : Grammar.IsQuote q) :
    a ≠ q ∧ a ≠ '\\' := by
  refine ⟨?_, ?_⟩
  · rintro rfl
    rcases hq with rfl | rfl <;> rcases ha with h | h | h <;> exact absurd h (by decide)
  · rintro rfl
    rcases ha with h | h | h <;> exact absurd h (by decide)

/-- A string body runs up to the first delimiter that no backslash takes along. -/
theorem quoteSpan_strBody {q : Char} (hq : Grammar.IsQuote q) {body : List Char}
    {x : List CodePoint} (h : StrBody q body x) (r : List Char) :
    quoteSpan q (body ++ q :: r) = body.length + 1 := by
  have hbq : '\\' ≠ q := fun h' => hq.ne_backslash h'.symm
  induction h with
  | nil => exact quoteSpan_close q r
  | @cons t u _ _ hp _ ih =>
    cases hp with
    | raw hcq hcb _ => simp [quoteSpan_raw hcq hcb, ih]
    | escape _ => simp [quoteSpan_escape hbq, ih]
    | unicode ha hb hc hd =>
      obtain ⟨ha1, ha2⟩ := ha.ne_quote hq
      obtain ⟨hb1, hb2⟩ := hb.ne_quote hq
      obtain ⟨hc1, hc2⟩ := hc.ne_quote hq
      obtain ⟨hd1, hd2⟩ := hd.ne_quote hq
      simp [quoteSpan_escape hbq, quoteSpan_raw ha1 ha2, quoteSpan_raw hb1 hb2,
        quoteSpan_raw hc1 hc2, quoteSpan_raw hd1 hd2, ih]

/-- A quoted string is one lexeme. -/
theorem Lexed.quoted {t : List Char} {x : Text} (h : QuotedText t x) : Lexed t [t] := by
  obtain ⟨q, body, hq, rfl, hb⟩ := h
  refine Lexed.one (List.cons_ne_nil _ _) fun r => ?_
  have hr : q :: (body ++ [q]) ++ r = q :: (body ++ q :: r) := by simp
  rw [hr]
  simp [lexemeLength, hq, quoteSpan_strBody hq hb]

/-- The characters of a literal are each a lexeme of its own. -/
theorem numLit_chars_plain {n : NumLit} (hn : n.Valid) : ∀ c ∈ n.chars, Plain c := by
  intro c hc
  simp only [NumLit.chars, NumLit.wholeChars, List.mem_append] at hc
  rcases hc with ((hc | hc) | hc) | hc
  · -- the minus sign
    split at hc
    · rw [List.mem_singleton] at hc
      subst hc
      decide
    · cases hc
  · rcases hn.whole with hw | ⟨d, rest, hw, h1, h2, hrest⟩
    · rw [hw, List.mem_singleton] at hc
      subst hc
      decide
    · rw [hw] at hc
      rcases List.mem_cons.1 hc with rfl | hc
      · exact plain_of_isDigit (Grammar.isDigit_of_onenine ⟨h1, h2⟩)
      · exact plain_of_isDigit (hrest c hc)
  · cases hf : n.fraction with
    | none => rw [hf] at hc; cases hc
    | some ds =>
      rw [hf] at hc
      simp only [NumLit.fractionChars, List.mem_cons] at hc
      rcases hc with rfl | hc
      · decide
      · exact plain_of_isDigit ((hn.fraction ds hf).2 c hc)
  · cases hx : n.exponent with
    | none => rw [hx] at hc; cases hc
    | some x =>
      rw [hx] at hc
      obtain ⟨hm, hsg, hds⟩ := hn.exponent x hx
      simp only [NumLit.exponentChars, Exponent.chars, List.cons_append, List.mem_cons,
        List.mem_append, Option.mem_toList] at hc
      rcases hc with rfl | hc | hc
      · rcases hm with h | h <;> rw [h] <;> decide
      · rcases hsg c hc with rfl | rfl <;> decide
      · exact plain_of_isDigit (hds.2 c hc)

theorem Lexed.keyword {k : String} (hk : k = "null" ∨ k = "true" ∨ k = "false") :
    Lexed k.toList [k.toList] := by
  refine Lexed.one ?_ fun r => ?_ <;> rcases hk with rfl | rfl | rfl
  all_goals first | decide | simp [lexemeLength]

/-! ## Padding lexemes with gaps -/

/-- `Padded L u`: `u` is the lexemes `L` in order, each followed by a closed gap. -/
inductive Padded : List (List Char) → List Char → Prop
  | nil : Padded [] []
  | cons {l g : List Char} {L : List (List Char)} {u : List Char} :
      Gap g → Padded L u → Padded (l :: L) (l ++ g ++ u)

namespace Padded

theorem split {L₁ L₂ : List (List Char)} {u : List Char} (h : Padded (L₁ ++ L₂) u) :
    ∃ u₁ u₂, u = u₁ ++ u₂ ∧ Padded L₁ u₁ ∧ Padded L₂ u₂ := by
  induction L₁ generalizing u with
  | nil => exact ⟨[], u, rfl, .nil, h⟩
  | cons l L₁ ih =>
    cases h with
    | @cons _ g _ u' hg hu =>
      obtain ⟨u₁, u₂, rfl, h₁, h₂⟩ := ih hu
      exact ⟨l ++ g ++ u₁, u₂, by simp, .cons hg h₁, h₂⟩

theorem one {l u : List Char} (h : Padded [l] u) : ∃ g, u = l ++ g ∧ Gap g := by
  cases h with
  | cons hg hu =>
    cases hu
    exact ⟨_, by simp, hg⟩

end Padded

/-- `Pads t P`: `t` splits into lexemes, and every text that pads them satisfies `P`. -/
def Pads (t : List Char) (P : List Char → Prop) : Prop :=
  ∃ L, Lexed t L ∧ ∀ u, Padded L u → P u

namespace Pads

variable {a b t : List Char} {P Q : List Char → Prop}

theorem nil : Pads [] (· = []) :=
  ⟨[], Lexed.nil, fun _ hu => by cases hu; rfl⟩

theorem mono (h : Pads t P) (hPQ : ∀ u, P u → Q u) : Pads t Q := by
  obtain ⟨L, hL, hP⟩ := h
  exact ⟨L, hL, fun u hu => hPQ u (hP u hu)⟩

theorem append (ha : Pads a P) (hb : Pads b Q) :
    Pads (a ++ b) (fun u => ∃ x y, u = x ++ y ∧ P x ∧ Q y) := by
  obtain ⟨La, hLa, hPa⟩ := ha
  obtain ⟨Lb, hLb, hPb⟩ := hb
  refine ⟨La ++ Lb, hLa.append hLb, fun u hu => ?_⟩
  obtain ⟨x, y, rfl, hx, hy⟩ := hu.split
  exact ⟨x, y, rfl, hPa x hx, hPb y hy⟩

/-- A lexeme on its own is padded by one gap after it. -/
theorem single (h : Lexed t [t]) : Pads t (fun u => ∃ g, u = t ++ g ∧ Gap g) :=
  ⟨[t], h, fun _ hu => hu.one⟩

/-- A character that is a lexeme of its own, before text whose paddings satisfy `P`. -/
theorem cons {c : Char} (hc : Plain c) (h : Pads t P) :
    Pads (c :: t) (fun u => ∃ g v, u = c :: (g ++ v) ∧ Gap g ∧ P v) := by
  refine ((single (Lexed.plain hc)).append h).mono ?_
  rintro _ ⟨_, v, rfl, ⟨g, rfl, hg⟩, hv⟩
  exact ⟨g, v, by simp, hg, hv⟩

end Pads

/-- A gap padded between its lexemes is a gap: each lexeme is a blank or a closed comment. -/
theorem Gap.padded {w : List Char} (h : Gap w) : Pads w Gap := by
  induction h with
  | nil => exact Pads.nil.mono fun _ hu => hu ▸ .nil
  | blank hc _ ih =>
    refine (Pads.cons (plain_of_isBlank hc) ih).mono ?_
    rintro _ ⟨g, v, rfl, hg, hv⟩
    exact .blank hc (hg.append hv)
  | @comment body w hn _ ih =>
    have hsplit : '#' :: body ++ '\n' :: w = ('#' :: body ++ ['\n']) ++ w := by simp
    rw [hsplit]
    refine ((Pads.single (Lexed.comment hn)).append ih).mono ?_
    rintro _ ⟨_, v, rfl, ⟨g, rfl, hg⟩, hv⟩
    simpa using Gap.comment hn (hg.append hv)

/-- The characters of a number, spread over gaps, padded between their lexemes: still the same
characters spread over gaps, now wider, and a gap after the last. -/
theorem Spaced.padded {cs t : List Char} (h : Spaced cs t) (hc : ∀ c ∈ cs, Plain c) :
    Pads t (fun u => ∃ t' g, u = t' ++ g ∧ Spaced cs t' ∧ Gap g) := by
  induction h with
  | one c =>
    refine (Pads.single (Lexed.plain (hc c List.mem_cons_self))).mono ?_
    rintro _ ⟨g, rfl, hg⟩
    exact ⟨[c], g, rfl, .one c, hg⟩
  | @cons c w cs t hw _ ih =>
    have ih := ih fun c' hc' => hc c' (List.mem_cons_of_mem _ hc')
    refine (Pads.cons (hc c List.mem_cons_self) ((Gap.padded hw).append ih)).mono ?_
    rintro _ ⟨g, _, rfl, hg, w', _, rfl, hw', t', g', rfl, ht', hg'⟩
    exact ⟨c :: (g ++ w' ++ t'), g', by simp, .cons c (hg.append hw') ht', hg'⟩

/-! ## Padding the grammar

Every derivation pads to a derivation of the same document: the gaps a padding inserts after a
lexeme join the gap the grammar already allows there, and after the last lexeme of a value they
join the gap that follows it. The three statements are proved together, by recursion on the
derivations, from the shapes that recur in the grammar: a piece that is one lexeme, a piece
followed by a gap, and a bracketed group. -/

namespace Pads

variable {t w u g : List Char} {P Q : List Char → Prop}

/-- A piece that is one lexeme pads to itself and a gap. -/
theorem word (hq : Q t) (hl : Lexed t [t]) :
    Pads t (fun v => ∃ t' g', v = t' ++ g' ∧ Q t' ∧ Gap g') :=
  (single hl).mono fun _ ⟨g', hv, hg'⟩ => ⟨t, g', hv, hq, hg'⟩

/-- A piece whose paddings end in a gap, then a gap: the two gaps join. -/
theorem trail (h : Pads t (fun v => ∃ t' g', v = t' ++ g' ∧ P t' ∧ Gap g')) (hg : Gap g) :
    Pads (t ++ g) (fun v => ∃ t' g', v = t' ++ g' ∧ P t' ∧ Gap g') := by
  refine (h.append (Gap.padded hg)).mono ?_
  rintro _ ⟨_, y, rfl, ⟨t', g', rfl, ht', hg'⟩, hy⟩
  exact ⟨t', g' ++ y, by simp, ht', hg'.append hy⟩

/-- A bracketed group: the opening bracket, a gap, what it encloses, and the closing bracket. -/
theorem bracket {o c : Char} (ho : Plain o) (hc : Plain c) (hw : Gap w) (hu : Pads u P) :
    Pads (o :: (w ++ u ++ [c]))
      (fun v => ∃ w' u' g', v = o :: (w' ++ u' ++ [c]) ++ g' ∧ Gap w' ∧ P u' ∧ Gap g') := by
  refine (cons ho (((Gap.padded hw).append hu).append (single (Lexed.plain hc)))).mono ?_
  rintro _ ⟨g₀, _, rfl, hg₀, _, _, rfl, ⟨w', u', rfl, hw', hu'⟩, g', rfl, hg'⟩
  exact ⟨g₀ ++ w', u', g', by simp, hg₀.append hw', hu', hg'⟩

/-- An empty group: the two brackets with a gap between them. -/
theorem empty {o c : Char} (ho : Plain o) (hc : Plain c) (hw : Gap w) :
    Pads (o :: (w ++ [c])) (fun v => ∃ w' g', v = o :: (w' ++ [c]) ++ g' ∧ Gap w' ∧ Gap g') := by
  -- it encloses nothing, which pads to nothing
  have hb := bracket ho hc hw nil
  rw [List.append_nil] at hb
  refine hb.mono ?_
  rintro _ ⟨w', _, g', rfl, hw', rfl, hg'⟩
  exact ⟨w', g', by simp, hw', hg'⟩

end Pads

mutual

theorem ValueText.padded {t : List Char} {d : Doc} (h : ValueText t d) :
    Pads t (fun u => ∃ t' g, u = t' ++ g ∧ ValueText t' d ∧ Gap g) := by
  match h with
  | .null => exact Pads.word .null (Lexed.keyword (.inl rfl))
  | .true => exact Pads.word .true (Lexed.keyword (.inr (.inl rfl)))
  | .false => exact Pads.word .false (Lexed.keyword (.inr (.inr rfl)))
  | .text hx => exact Pads.word (.text hx) (Lexed.quoted hx)
  | .number hn ht =>
    refine (Spaced.padded ht (numLit_chars_plain hn)).mono ?_
    rintro _ ⟨t', g, rfl, ht', hg⟩
    exact ⟨t', g, rfl, .number hn ht', hg⟩
  | .emptyList hw =>
    refine (Pads.empty (by decide) (by decide) hw).mono ?_
    rintro _ ⟨w', g, rfl, hw', hg⟩
    exact ⟨_, g, rfl, .emptyList hw', hg⟩
  | .list hw hu =>
    refine (Pads.bracket (by decide) (by decide) hw (Items.padded hu)).mono ?_
    rintro _ ⟨w', u', g, rfl, hw', hu', hg⟩
    exact ⟨_, g, rfl, .list hw' hu', hg⟩
  | .emptyDict hw =>
    refine (Pads.empty (by decide) (by decide) hw).mono ?_
    rintro _ ⟨w', g, rfl, hw', hg⟩
    exact ⟨_, g, rfl, .emptyDict hw', hg⟩
  | .dict hw he =>
    refine (Pads.bracket (by decide) (by decide) hw (Entries.padded he)).mono ?_
    rintro _ ⟨w', u', g, rfl, hw', hu', hg⟩
    exact ⟨_, g, rfl, .dict hw' hu', hg⟩

theorem Items.padded {u : List Char} {ds : List Doc} (h : Items u ds) : Pads u (Items · ds) := by
  match h with
  | .last ht hg =>
    refine (Pads.trail (ValueText.padded ht) hg).mono ?_
    rintro _ ⟨t', g', rfl, ht', hg'⟩
    exact .last ht' hg'
  | .cons ht hg hc hu =>
    refine ((Pads.trail (ValueText.padded ht) hg).append
      (Pads.cons (by decide) ((Gap.padded hc).append (Items.padded hu)))).mono ?_
    rintro _ ⟨_, _, rfl, ⟨t', g', rfl, ht', hg'⟩, g₀, _, rfl, hg₀, c', u', rfl, hc', hu'⟩
    simpa using Items.cons ht' hg' (hg₀.append hc') hu'

theorem Entries.padded {u : List Char} {es : List (Text × Doc)} (h : Entries u es) :
    Pads u (Entries · es) := by
  match h with
  | @Entries.last k g₁ g₂ t g x _ hk hg₁ hg₂ ht hg =>
    -- the key is one lexeme, and the value takes in the gap after it
    rw [List.append_assoc g₂ t g]
    refine ((Pads.trail (Pads.word (Q := (QuotedText · x)) hk (Lexed.quoted hk)) hg₁).append
      (Pads.cons (by decide) ((Gap.padded hg₂).append
        (Pads.trail (ValueText.padded ht) hg)))).mono ?_
    rintro _ ⟨_, _, rfl, ⟨k', gk, rfl, hk', hgk⟩, gc, _, rfl, hgc, g₂', _, rfl, hg₂', t', gt, rfl,
      ht', hgt⟩
    simpa using Entries.last hk' hgk (hgc.append hg₂') ht' hgt
  | @Entries.cons k g₁ g₂ t g _ _ x _ _ hk hg₁ hg₂ ht hg hc he =>
    rw [List.append_assoc g₂ t g]
    refine ((Pads.trail (Pads.word (Q := (QuotedText · x)) hk (Lexed.quoted hk)) hg₁).append
      (Pads.cons (by decide) (((Gap.padded hg₂).append (Pads.trail (ValueText.padded ht) hg)).append
        (Pads.cons (by decide) ((Gap.padded hc).append (Entries.padded he)))))).mono ?_
    rintro _ ⟨_, _, rfl, ⟨k', gk, rfl, hk', hgk⟩, gc, _, rfl, hgc, _, _, rfl,
      ⟨g₂', _, rfl, hg₂', t', gt, rfl, ht', hgt⟩, gm, _, rfl, hgm, c', u', rfl, hc', hu'⟩
    simpa using Entries.cons hk' hgk (hgc.append hg₂') ht' hgt (hgm.append hc') hu'

end

/-! ## Padding a document -/

namespace Pads

variable {t u : List Char} {P : List Char → Prop}

/-- Whatever pads the lexemes of `t` satisfies `P`. -/
theorem of_lexemes (h : Pads t P) (hu : Padded (lexemes t) u) : P u := by
  obtain ⟨L, hL, hP⟩ := h
  have hlex : lexemes t = L := by simpa [lexemes] using hL []
  exact hP u (hlex ▸ hu)

/-- Padding `t` and then a comment that runs to the end of the text: the comment is the last
lexeme, and the gap padded after it carries on its line. -/
theorem of_lexemes_open {body : List Char} (h : Pads t P) (hn : '\n' ∉ body)
    (hu : Padded (lexemes (t ++ '#' :: body)) u) :
    ∃ x g, u = x ++ ('#' :: body ++ g) ∧ P x ∧ Gap g := by
  obtain ⟨L, hL, hP⟩ := h
  rw [hL, lexemes_open hn] at hu
  obtain ⟨x, y, rfl, hx, hy⟩ := hu.split
  obtain ⟨g, rfl, hg⟩ := hy.one
  exact ⟨x, g, rfl, hP x hx, hg⟩

end Pads

/-- A comment that no line feed closes, then a closed gap: a whole gap to the end of the text,
the comment closed by the first line feed of the gap if it has one. -/
theorem trail_open_gap {body g : List Char} (hn : '\n' ∉ body) (hg : Gap g) :
    Trail ('#' :: body ++ g) [] := by
  induction hg generalizing body with
  | nil => exact .inr ⟨⟨[], body, by simp, .nil, hn⟩, rfl⟩
  | @blank c w hc hw ih =>
    by_cases hcn : c = '\n'
    · subst hcn
      exact .inl ⟨by simpa using Gap.comment hn hw, Solid.nil⟩
    · simpa using @ih (body ++ [c]) (by simp [hn, Ne.symm hcn])
  | @comment body' w hn' hw _ =>
    refine .inl ⟨?_, Solid.nil⟩
    simpa using @Gap.comment (body ++ '#' :: body') w (by simp [hn, hn']) hw

/-- Padding the lexemes of a document gives a document with the same value. -/
theorem Document.padded {t u : List Char} {d : Doc} (h : Document t d)
    (hu : Padded (lexemes t) u) : Document u d := by
  obtain ⟨w, core, w', rfl, hw, hc, hw'⟩ := h
  have hv := (Gap.padded hw).append (ValueText.padded hc)
  rcases hw' with ⟨hg, -⟩ | ⟨⟨g, body, rfl, hg, hn⟩, -⟩
  · -- a closed gap after the value: the gaps after its last lexeme join it
    obtain ⟨_, z, rfl, ⟨x, _, rfl, hx, t', g', rfl, ht', hg'⟩, hz⟩ :=
      (hv.append (Gap.padded hg)).of_lexemes hu
    exact ⟨x, t', g' ++ z, by simp, hx, ht', .inl ⟨hg'.append hz, Solid.nil⟩⟩
  · -- a comment that runs to the end of the text: what is padded after it extends its line
    have hsplit : w ++ core ++ (g ++ '#' :: body) = w ++ core ++ g ++ '#' :: body := by simp
    rw [hsplit] at hu
    obtain ⟨_, g₂, rfl, ⟨_, z, rfl, ⟨x, _, rfl, hx, t', g', rfl, ht', hg'⟩, hz⟩, hg₂⟩ :=
      (hv.append (Gap.padded hg)).of_lexemes_open hn hu
    exact ⟨x, t', g' ++ z ++ ('#' :: body ++ g₂), by simp, hx, ht',
      Trail.gap_append (hg'.append hz) (trail_open_gap hn hg₂)⟩

/-- `Loosened t t'`: `t'` is `t` with closed gaps inserted before its first lexeme and after each
of its lexemes. -/
def Loosened (t t' : List Char) : Prop :=
  ∃ g u, t' = g ++ u ∧ Gap g ∧ Padded (lexemes t) u

/-- Inserting only empty gaps gives the text back. -/
theorem Loosened.refl (t : List Char) : Loosened t t := by
  have hpad : ∀ L : List (List Char), Padded L L.flatten := by
    intro L
    induction L with
    | nil => exact .nil
    | cons l L ih => simpa using Padded.cons .nil ih
  exact ⟨[], t, rfl, .nil, by simpa [flatten_lexemes] using hpad (lexemes t)⟩

theorem Document.loosened {t t' : List Char} {d : Doc} (h : Document t d) (ht : Loosened t t') :
    Document t' d := by
  obtain ⟨g, u, rfl, hg, hu⟩ := ht
  obtain ⟨w, core, w', rfl, hw, hc, hw'⟩ := h.padded hu
  exact ⟨g ++ w, core, w', by simp, hg.append hw, hc, hw'⟩

namespace Grammar

/-- Closed gaps inserted between the lexemes of a text that `parse` reads to a value, before the
first and after the last, leave the value unchanged; the characters of a number are lexemes of
their own, so this spreads numbers too. -/
theorem parse_loosened {t t' : String} {v : Value} (h : parse t = .ok v)
    (ht : Loosened t.toList t'.toList) : parse t' = .ok v := by
  obtain ⟨d, hd, hv⟩ := document_of_parse h
  rw [parse_of_document (hd.loosened ht), hv]
  rfl

theorem parse_loosened_true :
    parse "true" = .ok (.bool true) ∧ Loosened "true".toList " true # yes\n".toList ∧
      parse " true # yes\n" = .ok (.bool true) := by
  have h : parse "true" = .ok (.bool true) := parse_of_valueText .true
  have hg : Gap [' ', '#', ' ', 'y', 'e', 's', '\n'] :=
    .blank rfl (@Gap.comment [' ', 'y', 'e', 's'] [] (by decide) .nil)
  have hlex : lexemes "true".toList = ["true".toList] := by
    simpa [lexemes] using Lexed.keyword (.inr (.inl rfl)) []
  have hpad : Padded ["true".toList]
      ("true".toList ++ [' ', '#', ' ', 'y', 'e', 's', '\n'] ++ []) := Padded.cons hg .nil
  rw [List.append_nil, ← hlex] at hpad
  have hl : Loosened "true".toList " true # yes\n".toList :=
    ⟨[' '], _, by decide, .blank rfl .nil, hpad⟩
  exact ⟨h, hl, parse_loosened h hl⟩

/-- A line feed inside a comment closes it early: the rest of its line is then read as text. -/
theorem parse_comment_split :
    parse "true #ab\n" = .ok (.bool true) ∧ ∀ v, parse "true #a\nb\n" ≠ .ok v := by
  have hg : Gap [' ', '#', 'a', 'b', '\n'] :=
    .blank rfl (@Gap.comment ['a', 'b'] [] (by decide) .nil)
  refine ⟨parse_of_document ⟨[], "true".toList, _, by decide, .nil, .true, .inl ⟨hg, Solid.nil⟩⟩,
    fun v h => ?_⟩
  have hfail : (parse "true #a\nb\n").toBool = false := by decide +kernel
  rw [h] at hfail
  cases hfail

end Grammar

end LaxJson
