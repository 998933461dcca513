import LaxJson.Proofs.Acceptance
import Mathlib.Data.Nat.Digits.Lemmas
/-!
# Reading back what the standard encoder writes

The standard JSON encoder, writing characters beyond ASCII as they are, writes an integer in
decimal, `true` and `false`, a list as `[a, b]`, a dict as `{"k": v}`, and a string in double
quotes: the double quote and the backslash escaped by a backslash, U+0008, U+000C, U+000A,
U+000D and U+0009 as `\b \f \n \r \t`, every other code point below U+0020 as `\u00xx`, and
every other character as it is. Its values without floats are `Plain`.

The reader refuses a control character written as it is, and the encoder writes U+007F to U+009F
that way, so a string holding one of them does not come back (`parse_encode_delete`). A string
holding a double quote does not come back either, since the reader keeps the backslash of its
escape. Without these two, a value comes back as it was (`parse_encode`): the encoder's text is
a document whose value is the value written.
-/

set_option autoImplicit false
namespace LaxJson.Encoding

open Grammar

/-! ## The encoder -/

/-- The values the encoder writes without floats: strings, booleans, integers, lists and
dicts with string keys. -/
inductive Plain where
  | text (s : String)
  | bool (b : Bool)
  | int (i : Int)
  | list (items : List Plain)
  | dict (entries : List (String × Plain))

/-- The decimal digits of a natural number, most significant first. -/
def decimal (n : Nat) : List Char :=
  if n = 0 then ['0'] else (Nat.digits 10 n).reverse.map Nat.digitChar

/-- An integer as written: a minus sign when it is negative, then the digits of its size. -/
def intChars (i : Int) : List Char := (if i < 0 then ['-'] else []) ++ decimal i.natAbs

/-- The characters written as a backslash and one letter, with that letter. -/
def shortEscape : Char → Option Char
  | '"' => some '"'
  | '\\' => some '\\'
  | '\x08' => some 'b'
  | '\x0c' => some 'f'
  | '\n' => some 'n'
  | '\r' => some 'r'
  | '\t' => some 't'
  | _ => none

/-- How a character is written inside double quotes. -/
def charChars (c : Char) : List Char :=
  match shortEscape c with
  | some e => ['\\', e]
  | none =>
    if c.toNat < 0x20 then
      ['\\', 'u', '0', '0', Nat.digitChar (c.toNat / 16), Nat.digitChar (c.toNat % 16)]
    else [c]

/-- A string in double quotes. -/
def stringChars (s : String) : List Char := '"' :: (s.toList.flatMap charChars ++ ['"'])

mutual

/-- The text the encoder writes for a value. -/
def Plain.chars : Plain → List Char
  | .text s => stringChars s
  | .bool b => if b then "true".toList else "false".toList
  | .int i => intChars i
  | .list vs => '[' :: (itemsChars vs ++ [']'])
  | .dict es => '\x7b' :: (entriesChars es ++ ['\x7d'])

/-- The items of a list, a comma and a space between two. -/
def itemsChars : List Plain → List Char
  | [] => []
  | [v] => v.chars
  | v :: w :: vs => v.chars ++ ',' :: ' ' :: itemsChars (w :: vs)

/-- The entries of a dict, each `"k": v`, a comma and a space between two. -/
def entriesChars : List (String × Plain) → List Char
  | [] => []
  | [(k, v)] => stringChars k ++ ':' :: ' ' :: v.chars
  | (k, v) :: e :: es => stringChars k ++ ':' :: ' ' :: v.chars ++ ',' :: ' ' :: entriesChars (e :: es)

end

mutual

/-- The value a plain value is. -/
def Plain.toValue : Plain → Value
  | .text s => .ofString s
  | .bool b => .bool b
  | .int i => .number (.int i)
  | .list vs => .list (values vs)
  | .dict es => .dict (entryValues es)

def values : List Plain → List Value
  | [] => []
  | v :: vs => v.toValue :: values vs

def entryValues : List (String × Plain) → List (Text × Value)
  | [] => []
  | (k, v) :: es => (Text.ofString k, v.toValue) :: entryValues es

end

/-! ## What the encoder writes, as a document -/

/-- The literal of an integer. -/
def intLit (i : Int) : NumLit := ⟨decide (i < 0), decimal i.natAbs, none, none⟩

mutual

/-- The document the encoder's text writes. -/
def Plain.doc : Plain → Doc
  | .text s => .text (Text.ofString s)
  | .bool b => .bool b
  | .int i => .number (intLit i)
  | .list vs => .list (docs vs)
  | .dict es => .dict (entryDocs es)

def docs : List Plain → List Doc
  | [] => []
  | v :: vs => v.doc :: docs vs

def entryDocs : List (String × Plain) → List (Text × Doc)
  | [] => []
  | (k, v) :: es => (Text.ofString k, v.doc) :: entryDocs es

end

/-! ## Strings -/

/-- A character that a string gives back as it was written: neither the double quote nor one of
U+007F to U+009F. -/
def Readable (c : Char) : Prop := c ≠ '"' ∧ ¬ (0x7F ≤ c.toNat ∧ c.toNat ≤ 0x9F)

instance : DecidablePred Readable := fun c => by unfold Readable; infer_instance

theorem shortEscape_some {c e : Char} (h : shortEscape c = some e) :
    (c = '"' ∧ e = '"') ∨ (c = '\\' ∧ e = '\\') ∨ (c = '\x08' ∧ e = 'b') ∨
      (c = '\x0c' ∧ e = 'f') ∨ (c = '\n' ∧ e = 'n') ∨ (c = '\r' ∧ e = 'r') ∨
      (c = '\t' ∧ e = 't') := by
  unfold shortEscape at h
  split at h <;> cases h <;> simp

theorem hexValue_digitChar {d : Nat} (h : d < 16) : (hexValue (Nat.digitChar d)).val = d := by
  interval_cases d <;> rfl

theorem isHexDigit_digitChar {d : Nat} (h : d < 16) : IsHexDigit (Nat.digitChar d) := by
  unfold IsHexDigit
  interval_cases d <;> decide

/-- Each character of a string, as the encoder writes it, is one piece of a string body that
stands for that character. -/
theorem charChars_piece {c : Char} (hc : Readable c) :
    StrPiece '"' (charChars c) [.ofChar c] := by
  unfold charChars
  split
  · next e he =>
    rcases shortEscape_some he with ⟨rfl, rfl⟩ | ⟨rfl, rfl⟩ | ⟨rfl, rfl⟩ | ⟨rfl, rfl⟩ |
      ⟨rfl, rfl⟩ | ⟨rfl, rfl⟩ | ⟨rfl, rfl⟩
    · exact absurd rfl hc.1
    · exact .escape .backslash
    · exact .escape .backspace
    · exact .escape .formFeed
    · exact .escape .lineFeed
    · exact .escape .carriageReturn
    · exact .escape .tab
  · next hnone =>
    split
    · -- a control character below U+0020, written as four hexadecimal digits
      next hlt =>
      have h1 : c.toNat / 16 < 16 := by omega
      have h2 : c.toNat % 16 < 16 := Nat.mod_lt _ (by decide)
      have hcp : hexCodePoint '0' '0' (Nat.digitChar (c.toNat / 16))
          (Nat.digitChar (c.toNat % 16)) = .ofChar c := by
        have e1 := hexValue_digitChar h1
        have e2 := hexValue_digitChar h2
        unfold hexCodePoint
        simp only [e1, e2, CodePoint.ofChar]
        congr 1
        have : (hexValue '0').val = 0 := rfl
        omega
      rw [← hcp]
      exact .unicode (.inl rfl) (.inl rfl) (isHexDigit_digitChar h1) (isHexDigit_digitChar h2)
    · -- any other character, as it is
      next hge =>
      have hbs : c ≠ '\\' := by
        rintro rfl
        exact absurd hnone (by decide)
      refine .raw hc.1 hbs ?_
      have := hc.2
      unfold Unicode.isControl
      simp only [Bool.or_eq_false_iff, decide_eq_false_iff_not, Bool.and_eq_false_iff]
      omega

theorem strBody_charChars (l : List Char) (h : ∀ c ∈ l, Readable c) :
    StrBody '"' (l.flatMap charChars) (l.map CodePoint.ofChar) := by
  induction l with
  | nil => exact .nil
  | cons c l ih =>
    have hc := h c (List.mem_cons_self ..)
    have hl := ih fun c' hc' => h c' (List.mem_cons_of_mem _ hc')
    exact .cons (charChars_piece hc) hl

/-- A string the encoder writes is the quoted text of the string. -/
theorem stringChars_quoted {s : String} (h : ∀ c ∈ s.toList, Readable c) :
    QuotedText (stringChars s) (Text.ofString s) :=
  ⟨'"', s.toList.flatMap charChars, .inl rfl, rfl, strBody_charChars s.toList h⟩

/-! ## Integers -/

theorem digitsValue_append (ds : List Char) (c : Char) :
    Numeral.digitsValue (ds ++ [c]) = 10 * Numeral.digitsValue ds + (c.toNat - '0'.toNat) := by
  simp [Numeral.digitsValue, List.foldl_append]

/-- Reading digits written most significant first gives back the number whose little-endian
digits they are. -/
theorem digitsValue_reverse (M : List Nat) (h : ∀ d ∈ M, d < 10) :
    Numeral.digitsValue (M.reverse.map Nat.digitChar) = Nat.ofDigits 10 M := by
  induction M with
  | nil => rfl
  | cons d M ih =>
    have hd : d < 10 := h d (List.mem_cons_self ..)
    have hM := ih fun d' hd' => h d' (List.mem_cons_of_mem _ hd')
    rw [List.reverse_cons, List.map_append, List.map_singleton, digitsValue_append, hM,
      Nat.toNat_digitChar_of_lt_ten hd, Nat.ofDigits_cons]
    have h0 : '0'.toNat = 48 := rfl
    omega

theorem digitsValue_decimal (n : Nat) : Numeral.digitsValue (decimal n) = n := by
  unfold decimal
  split
  · next h => subst h; rfl
  · rw [digitsValue_reverse _ fun d hd => Nat.digits_lt_base (by decide) hd, Nat.ofDigits_digits]

/-- The digits the encoder writes form an integer part without leading zeros. -/
theorem wholeDigits_decimal (n : Nat) : NumLit.WholeDigits (decimal n) := by
  unfold decimal
  split
  · exact .inl rfl
  · next hn =>
    have hne : Nat.digits 10 n ≠ [] := Nat.digits_ne_nil_iff_ne_zero.2 hn
    have hlast := Nat.getLast_digit_ne_zero 10 hn
    cases hr : (Nat.digits 10 n).reverse with
    | nil => exact absurd (List.reverse_eq_nil_iff.1 hr) hne
    | cons d rest =>
      have hL : Nat.digits 10 n = (d :: rest).reverse := by rw [← hr, List.reverse_reverse]
      have hdig : ∀ e ∈ d :: rest, e < 10 := fun e he =>
        Nat.digits_lt_base (by decide) (by rw [hL]; exact List.mem_reverse.2 he)
      have hd0 : d ≠ 0 := by simpa [hL] using hlast
      have hd : d < 10 := hdig d (List.mem_cons_self ..)
      refine .inr ⟨Nat.digitChar d, rest.map Nat.digitChar, rfl, ?_, ?_, ?_⟩
      · rw [char_le_iff, Nat.toNat_digitChar_of_lt_ten hd]
        show 49 ≤ 48 + d
        omega
      · rw [char_le_iff, Nat.toNat_digitChar_of_lt_ten hd]
        show 48 + d ≤ 57
        omega
      · simp only [List.mem_map]
        rintro c ⟨e, he, rfl⟩
        rw [Nat.isDigit_digitChar]
        exact decide_eq_true (hdig e (List.mem_cons_of_mem _ he))

theorem decimal_head (n : Nat) : ∃ c cs, decimal n = c :: cs ∧ c ≠ '-' := by
  rcases wholeDigits_decimal n with h | ⟨d, rest, h, hd, -⟩
  · exact ⟨'0', [], h, by decide⟩
  · refine ⟨d, rest, h, ?_⟩
    rintro rfl
    exact absurd hd (by decide)

theorem readInteger_intChars {i : Int} (h : (decimal i.natAbs).length ≤ digitLimit) :
    Numeral.readInteger (String.ofList (intChars i)) = .ok i := by
  obtain ⟨c, cs, hcs, hc⟩ := decimal_head i.natAbs
  have hv := digitsValue_decimal i.natAbs
  unfold Numeral.readInteger intChars
  rw [String.toList_ofList]
  by_cases hi : i < 0
  · simp only [hi, ↓reduceIte, List.cons_append, List.nil_append]
    rw [if_neg (by omega), hv]
    exact congrArg _ (by omega)
  · simp only [hi, ↓reduceIte, List.nil_append]
    rw [hcs] at h ⊢
    split
    · next heq => exact absurd (List.cons.inj heq).1 hc
    · dsimp only
      rw [if_neg (by omega), ← hcs, hv]
      simp only [Bool.false_eq_true, ↓reduceIte]
      exact congrArg _ (by omega)

theorem intLit_valid (i : Int) : (intLit i).Valid :=
  ⟨wholeDigits_decimal _, by simp [intLit], by simp [intLit]⟩

theorem intLit_chars (i : Int) : (intLit i).chars = intChars i := by
  simp [intLit, NumLit.chars, NumLit.wholeChars, NumLit.fractionChars, NumLit.exponentChars,
    intChars]

/-- An integer the encoder writes reads back as itself, as long as its digits stay within the
limit. -/
theorem intLit_eval {i : Int} (h : (decimal i.natAbs).length ≤ digitLimit) :
    (intLit i).eval = .ok (.int i) := by
  have hw : (intLit i).wholeChars = intChars i := by
    simpa [NumLit.chars, intLit, NumLit.fractionChars, NumLit.exponentChars] using intLit_chars i
  rw [NumLit.eval, hw, readInteger_intChars h]
  show Number.ofParts i (.int 0) 0 = _
  simp [Number.ofParts, Number.addInt, bind, Except.bind]

/-! ## Values -/

/-- The values that come back as they were: strings and keys of readable characters, integers
within the digit limit, and dicts without a repeated key. -/
inductive Plain.Fits : Plain → Prop
  | text {s : String} : (∀ c ∈ s.toList, Readable c) → Plain.Fits (.text s)
  | bool (b : Bool) : Plain.Fits (.bool b)
  | int {i : Int} : (decimal i.natAbs).length ≤ digitLimit → Plain.Fits (.int i)
  | list {vs : List Plain} : (∀ v ∈ vs, Plain.Fits v) → Plain.Fits (.list vs)
  | dict {es : List (String × Plain)} : (es.map Prod.fst).Nodup →
      (∀ e ∈ es, ∀ c ∈ e.1.toList, Readable c) → (∀ e ∈ es, Plain.Fits e.2) →
      Plain.Fits (.dict es)

theorem gap_space : Gap [' '] := .blank (by decide) .nil

theorem spaced_self : ∀ {cs : List Char}, cs ≠ [] → Spaced cs cs
  | [], h => absurd rfl h
  | [c], _ => .one c
  | c :: d :: cs, _ => .cons c .nil (spaced_self (List.cons_ne_nil d cs))

/-- Setting a key a dict does not have adds its entry last. -/
theorem put_of_not_mem {acc : List (Text × Value)} {k : Text} (v : Value)
    (h : k ∉ acc.map Prod.fst) : Value.put acc k v = acc ++ [(k, v)] := by
  induction acc with
  | nil => rfl
  | cons e acc ih =>
    obtain ⟨k', v'⟩ := e
    have hne : k' ≠ k := fun he => h (by simp [he])
    have hrest : k ∉ acc.map Prod.fst := fun hk => h (List.mem_cons_of_mem _ hk)
    simp [Value.put, hne, ih hrest]

theorem text_ofString_injective : Function.Injective Text.ofString := by
  intro a b h
  have hc := congrArg Text.codes h
  simp only [Text.codes_ofString] at hc
  exact String.toList_inj.1 (List.map_injective_iff.2 (fun _ _ e => Char.toNat_inj.1 e) hc)

theorem items_itemsChars : ∀ (vs : List Plain), vs ≠ [] →
    (∀ v ∈ vs, ValueText v.chars v.doc) → Items (itemsChars vs) (docs vs)
  | [], hne, _ => absurd rfl hne
  | [v], _, h => by
    have ht := h v (List.mem_singleton_self v)
    simpa [itemsChars, docs] using Items.last ht .nil
  | v :: w :: vs, _, h => by
    have ht := h v (List.mem_cons_self ..)
    have hu := items_itemsChars (w :: vs) (List.cons_ne_nil w vs)
      fun v' hv' => h v' (List.mem_cons_of_mem _ hv')
    simpa [itemsChars, docs] using Items.cons ht .nil gap_space hu

theorem evalItems_docs (vs : List Plain) (h : ∀ v ∈ vs, v.doc.eval = .ok v.toValue) :
    Doc.evalItems (docs vs) = .ok (values vs) := by
  induction vs with
  | nil => rfl
  | cons v vs ih =>
    have hv := h v (List.mem_cons_self ..)
    have hvs := ih fun v' hv' => h v' (List.mem_cons_of_mem _ hv')
    simp [docs, values, Doc.evalItems, hv, hvs, bind, Except.bind, pure, Except.pure]

theorem entries_entriesChars : ∀ (es : List (String × Plain)), es ≠ [] →
    (∀ e ∈ es, ∀ c ∈ e.1.toList, Readable c) → (∀ e ∈ es, ValueText e.2.chars e.2.doc) →
    Entries (entriesChars es) (entryDocs es)
  | [], hne, _, _ => absurd rfl hne
  | [(k, v)], _, hk, h => by
    have hq := stringChars_quoted (hk (k, v) (List.mem_singleton_self _))
    have ht := h (k, v) (List.mem_singleton_self _)
    simpa [entriesChars, entryDocs] using Entries.last hq .nil gap_space ht .nil
  | (k, v) :: e :: es, _, hk, h => by
    have hq := stringChars_quoted (hk (k, v) (List.mem_cons_self ..))
    have ht := h (k, v) (List.mem_cons_self ..)
    have hu := entries_entriesChars (e :: es) (List.cons_ne_nil e es)
      (fun e' he' => hk e' (List.mem_cons_of_mem _ he'))
      (fun e' he' => h e' (List.mem_cons_of_mem _ he'))
    simpa [entriesChars, entryDocs] using Entries.cons hq .nil gap_space ht .nil gap_space hu

/-- Setting distinct keys, none of them already there, appends the entries in order. -/
theorem evalEntries_entryDocs (es : List (String × Plain)) (acc : List (Text × Value))
    (hn : (es.map Prod.fst).Nodup) (hacc : ∀ e ∈ es, Text.ofString e.1 ∉ acc.map Prod.fst)
    (h : ∀ e ∈ es, e.2.doc.eval = .ok e.2.toValue) :
    Doc.evalEntries acc (entryDocs es) = .ok (acc ++ entryValues es) := by
  induction es generalizing acc with
  | nil => simp [entryDocs, entryValues, Doc.evalEntries]
  | cons e es ih =>
    obtain ⟨k, v⟩ := e
    have hv := h (k, v) (List.mem_cons_self ..)
    have hput := put_of_not_mem v.toValue (hacc (k, v) (List.mem_cons_self ..))
    obtain ⟨hk, hn'⟩ := List.nodup_cons.1 hn
    -- the keys after this one are neither earlier keys nor this one
    have hacc' : ∀ e ∈ es,
        Text.ofString e.1 ∉ (acc ++ [(Text.ofString k, v.toValue)]).map Prod.fst := by
      intro e he hmem
      simp only [List.map_append, List.map_singleton, List.mem_append,
        List.mem_singleton] at hmem
      rcases hmem with hmem | hmem
      · exact hacc e (List.mem_cons_of_mem _ he) hmem
      · have hek : e.1 = k := text_ofString_injective hmem
        have hmem' : e.1 ∈ es.map Prod.fst := List.mem_map_of_mem he
        rw [hek] at hmem'
        exact hk hmem'
    have hrest := ih (acc ++ [(Text.ofString k, v.toValue)]) hn' hacc'
      fun e he => h e (List.mem_cons_of_mem _ he)
    simp [entryDocs, entryValues, Doc.evalEntries, hv, hput, hrest, bind, Except.bind]

/-- A value that fits is written as the text of its document, and the document's value is the
value. -/
theorem Plain.Fits.spelled {v : Plain} (h : v.Fits) :
    ValueText v.chars v.doc ∧ v.doc.eval = .ok v.toValue := by
  induction h with
  | text hs => exact ⟨.text (stringChars_quoted hs), rfl⟩
  | bool b =>
    cases b
    · exact ⟨.false, rfl⟩
    · exact ⟨.true, rfl⟩
  | @int i hi =>
    have hne : intChars i ≠ [] := by
      obtain ⟨c, cs, hcs, -⟩ := decimal_head i.natAbs
      simp [intChars, hcs]
    refine ⟨.number (intLit_valid i) ?_, ?_⟩
    · rw [intLit_chars]
      exact spaced_self hne
    · simp [Plain.doc, Doc.eval, intLit_eval hi, Plain.toValue]
  | @list vs _ ih =>
    rcases vs with _ | ⟨w, ws⟩
    · exact ⟨.emptyList .nil, rfl⟩
    · have hu := items_itemsChars (w :: ws) (List.cons_ne_nil w ws) fun v hv => (ih v hv).1
      have hev := evalItems_docs (w :: ws) fun v hv => (ih v hv).2
      exact ⟨.list .nil hu, by simp [Plain.doc, Doc.eval, hev, Plain.toValue]⟩
  | @dict es hn hk _ ih =>
    rcases es with _ | ⟨e, es⟩
    · exact ⟨.emptyDict .nil, rfl⟩
    · have hu := entries_entriesChars (e :: es) (List.cons_ne_nil e es) hk
        fun e he => (ih e he).1
      have hev := evalEntries_entryDocs (e :: es) [] hn (by simp) fun e he => (ih e he).2
      exact ⟨.dict .nil hu, by simp [Plain.doc, Doc.eval, hev, Plain.toValue]⟩

/-- What the encoder writes for a value that fits reads back as that value. -/
theorem parse_encode {v : Plain} (h : v.Fits) : parse (String.ofList v.chars) = .ok v.toValue := by
  obtain ⟨ht, hev⟩ := h.spelled
  rw [parse_of_valueText (by simpa using ht), hev]
  rfl

theorem parse_encode_nested :
    (Plain.dict [("n", .list [.bool true, .int (-7)])]).Fits ∧
      parse (String.ofList (Plain.dict [("n", .list [.bool true, .int (-7)])]).chars) =
        .ok (Plain.dict [("n", .list [.bool true, .int (-7)])]).toValue := by
  have hl : (Plain.list [.bool true, .int (-7)]).Fits := by
    refine .list ?_
    intro v hv
    simp only [List.mem_cons, List.mem_nil_iff, or_false] at hv
    rcases hv with rfl | rfl
    · exact .bool true
    · exact .int (by simp [decimal, digitLimit])
  have hn : ∀ e ∈ [("n", Plain.list [.bool true, .int (-7)])], ∀ c ∈ e.1.toList, Readable c := by
    intro e he c hc
    rw [List.mem_singleton] at he
    subst he
    have hc' : c = 'n' := by simpa using hc
    subst hc'
    exact ⟨by decide, by decide⟩
  have h : (Plain.dict [("n", .list [.bool true, .int (-7)])]).Fits :=
    .dict (by decide) hn (by simpa using hl)
  exact ⟨h, parse_encode h⟩

/-! ## A control character that does not come back -/

/-- A value text that starts with a double quote is a string. -/
theorem quoted_of_valueText {t : List Char} {d : Doc} (ht : ValueText ('"' :: t) d) :
    ∃ x, QuotedText ('"' :: t) x := by
  generalize hc : '"' :: t = u at ht
  cases ht with
  | text hq => exact ⟨_, hq⟩
  | number hn hs =>
    obtain ⟨c, t', rfl, hc'⟩ := numLit_text_head hn hs
    obtain ⟨rfl, -⟩ := List.cons.inj hc
    rcases hc' with h | h <;> exact absurd h (by decide)
  | null => exact absurd (List.cons.inj hc).1 (by decide)
  | true => exact absurd (List.cons.inj hc).1 (by decide)
  | false => exact absurd (List.cons.inj hc).1 (by decide)
  | emptyList _ => exact absurd (List.cons.inj hc).1 (by decide)
  | list _ _ => exact absurd (List.cons.inj hc).1 (by decide)
  | emptyDict _ => exact absurd (List.cons.inj hc).1 (by decide)
  | dict _ _ => exact absurd (List.cons.inj hc).1 (by decide)

/-- No string body starts with a control character written as it is. -/
theorem strBody_not_control {q c : Char} {body r r' : List Char} {x : List CodePoint}
    (hc : Unicode.isControl c.toNat = true) (hcq : c ≠ q) (hb : StrBody q body x)
    (h : body ++ q :: r = c :: r') : False := by
  cases hb with
  | nil => exact hcq (List.cons.inj h).1.symm
  | cons hp _ =>
    cases hp with
    | raw _ _ hctl =>
      have hfirst := (List.cons.inj h).1
      subst hfirst
      rw [hctl] at hc
      exact Bool.false_ne_true hc
    | escape _ =>
      have hfirst := (List.cons.inj h).1
      subst hfirst
      exact absurd hc (by decide)
    | unicode _ _ _ _ =>
      have hfirst := (List.cons.inj h).1
      subst hfirst
      exact absurd hc (by decide)

/-- A string that opens with a control character written as it is starts no document. -/
theorem not_document_control {c : Char} (hc : Unicode.isControl c.toNat = true) (r : List Char)
    (d : Doc) : ¬ Document ('"' :: c :: r) d := by
  rintro ⟨w, core, w', he, hw, ht, -⟩
  -- the text starts with a quote, so there is no gap before the value
  have hw0 : w = [] := by
    cases hw with
    | nil => rfl
    | blank hb _ =>
      rw [← (List.cons.inj he).1] at hb
      exact absurd hb (by decide)
    | comment _ _ => exact absurd (List.cons.inj he).1 (by decide)
  subst hw0
  obtain ⟨c0, core', rfl⟩ := List.exists_cons_of_ne_nil ht.ne_nil
  obtain ⟨hc0, hrest⟩ := List.cons.inj he
  subst hc0
  obtain ⟨x, q, body, -, hcore, hb⟩ := quoted_of_valueText ht
  obtain ⟨rfl, rfl⟩ := List.cons.inj hcore
  have hcq : c ≠ '"' := by
    rintro rfl
    exact absurd hc (by decide)
  exact strBody_not_control hc hcq hb (by simpa using hrest.symm)

/-- The encoder writes U+007F as it is, and the reader refuses it. -/
theorem parse_encode_delete :
    parse (String.ofList (Plain.text "\x7f").chars) ≠ .ok (Plain.text "\x7f").toValue := by
  intro h
  obtain ⟨d, hd, -⟩ := document_of_parse h
  have hchars : (Plain.text "\x7f").chars = ['"', '\x7f', '"'] := by decide
  rw [hchars, String.toList_ofList] at hd
  exact not_document_control (by decide) ['"'] d hd

end LaxJson.Encoding
