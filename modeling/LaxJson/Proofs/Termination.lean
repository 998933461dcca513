import LaxJson.Grammar.Document
/-!
# Every call returns

Every rule of the reader finishes, on every text and from every cursor. Its only recursions are
the loops of the blank skipper, of the digit run and of the string body, each of which takes a
character or more in every turn but its last, and the cycle `any_type → complex_type → list | map
(→ pair) → any_type`, which the list and dict loops close and which comes back to `any_type`
only after a bracket, a comma or a colon was consumed. So the characters left after the cursor
fall, or stay while the rank of the rule in the cycle falls, and `8 · rest + rank` bounds how deep
calls nest.

The statement is about the rules run under a limit (`Limited`): each call of a rule of the cycle
and each turn of a loop spends one unit, and a call made with nothing left fails with a failure
`stop` of the caller's choosing. Given more units than the bound, every one of them gives what the
rule gives, whatever `stop` is, so the limit is never reached (`reader_terminates`). Each limited
rule is shown equal to the rule by one step lemma that assumes it of the calls the step makes
(`anyType_succ`, `listItems_succ`, …), and the bound by induction on the units.
-/

set_option autoImplicit false
namespace LaxJson

namespace Limited

variable (s : Source) (stop : Failure)

/-! ## The loops -/

/-- The blank skipper, with `n` turns left. -/
def skipBlankFrom : Nat → Bool → (p : Int) → Step p Unit
  | 0, _, p => Step.fail p stop
  | n + 1, inComment, p =>
    if h : p < s.last then
      match s.get? (p + 1) with
      | none => Step.fail p (.fault .indexOutOfRange)
      | some c =>
        match s.dialect.blankMove inComment c with
        | none => Step.ok p ()
        | some inComment' => (skipBlankFrom n inComment' (p + 1)).after (by omega)
    else Step.ok p ()

/-- The digits after the first, with `n` turns left. -/
def moreDigits : Nat → String → (p : Int) → Step p String
  | 0, _, p => Step.fail p stop
  | n + 1, acc, p =>
    let x := (s.choice [(.digit, Grammar.digit s)]).optional p
    x.andThen fun
      | some d, _ => moreDigits n (acc.push d) x.pos
      | none, _ => Step.ok x.pos acc

/-- The rest of a string after its opening `quote`, with `n` turns left. -/
def stringBody : Nat → Char → Array CodePoint → (p : Int) → Step p Text
  | 0, _, _, p => Step.fail p stop
  | n + 1, quote, acc, p =>
    let x := s.char none p
    x.andThen fun c _ =>
      if c = quote then Step.ok x.pos ⟨acc.toList⟩
      else if c = '\\' then
        let y := Grammar.escape s quote x.pos
        y.andThen fun cps _ => stringBody n quote (acc ++ cps.toArray) y.pos
      else if Unicode.isControl c.toNat then Grammar.complainNext s .rawControl x.pos
      else stringBody n quote (acc.push (.ofChar c)) x.pos

/-! ## The cycle of values -/

mutual

/-- `any_type`, with `n` calls left. -/
def anyType : Nat → (p : Int) → Step p Value
  | 0, p => Step.fail p stop
  | n + 1, p =>
    s.choiceAt p [(.complexType, fun q _ => complexType n q),
      (.primitiveType, fun q _ => Grammar.primitiveType s q)]

/-- `complex_type`, with `n` calls left. -/
def complexType : Nat → (p : Int) → Step p Value
  | 0, p => Step.fail p stop
  | n + 1, p => s.choiceAt p [(.list, fun q _ => list n q), (.map, fun q _ => map n q)]

/-- `list`, with `n` calls left. -/
def list : Nat → (p : Int) → Step p Value
  | 0, p => Step.fail p stop
  | n + 1, p =>
    let o := s.keyword ["["] p
    o.andThen fun _ _ =>
      let items := listItems n false #[] o.pos
      items.andThen fun r _ => (Grammar.closing s "]" r.2 items.pos).map fun _ => .list r.1.toList

/-- The items of a list, with `n` turns left. -/
def listItems : Nat → Bool → Array Value → (q : Int) → Step q (Array Value × Bool)
  | 0, _, _, q => Step.fail q stop
  | n + 1, afterComma, acc, q =>
    let x := (s.choiceAt q [(.anyType, fun r _ => anyType n r)]).optional
    x.andThen fun
      | none, _ => Step.ok x.pos (acc, afterComma)
      | some v, _ =>
        let c := (s.keyword [","]).optional x.pos
        c.andThen fun
          | none, _ => Step.ok c.pos (acc.push v, false)
          | some _, _ => listItems n true (acc.push v) c.pos

/-- `map`, with `n` calls left. -/
def map : Nat → (p : Int) → Step p Value
  | 0, p => Step.fail p stop
  | n + 1, p =>
    let o := s.keyword ["\x7b"] p
    o.andThen fun _ _ =>
      let items := mapItems n false [] o.pos
      items.andThen fun r _ => (Grammar.closing s "\x7d" r.2 items.pos).map fun _ => .dict r.1

/-- The pairs of a dict, with `n` turns left. -/
def mapItems : Nat → Bool → List (Text × Value) → (q : Int) → Step q (List (Text × Value) × Bool)
  | 0, _, _, q => Step.fail q stop
  | n + 1, afterComma, acc, q =>
    let x := (s.choiceAt q [(.pair, fun r _ => pair n r)]).optional
    x.andThen fun
      | none, _ => Step.ok x.pos (acc, afterComma)
      | some (k, v), _ =>
        let c := (s.keyword [","]).optional x.pos
        c.andThen fun
          | none, _ => Step.ok c.pos (Value.put acc k v, false)
          | some _, _ => mapItems n true (Value.put acc k v) c.pos

/-- `pair`, with `n` calls left. -/
def pair : Nat → (p : Int) → Step p (Text × Value)
  | 0, p => Step.fail p stop
  | n + 1, p =>
    let k := s.choice [(.quotedString, Grammar.quotedString s)] p
    k.andThen fun key _ =>
      let c := s.keyword [":"] k.pos
      c.andThen fun _ _ =>
        (s.choiceAt c.pos [(.anyType, fun r _ => anyType n r)]).map fun v => (key, v)

end

/-! ## The loops take no more turns than there are characters left -/

variable {s stop}

theorem skipBlankFrom_eq (n : Nat) (b : Bool) (p : Int) (h : s.rest p < n) :
    skipBlankFrom s stop n b p = s.skipBlankFrom b p := by
  induction n generalizing b p with
  | zero => omega
  | succ n ih =>
    -- the limited loop is opened by unfolding, the model's by its equation
    rw [Source.skipBlankFrom]
    show (if h : p < s.last then _ else _) = _
    by_cases hp : p < s.last
    · rw [dif_pos hp, dif_pos hp]
      cases s.get? (p + 1) with
      | none => rfl
      | some c =>
        dsimp only
        cases s.dialect.blankMove b c with
        | none => rfl
        | some b' =>
          dsimp only
          rw [ih b' (p + 1) (by unfold Source.rest at h ⊢; omega)]
    · rw [dif_neg hp, dif_neg hp]

theorem digit_choice_advances : (s.choice [(.digit, Grammar.digit s)]).Advances s :=
  Source.choice_advances s _ fun ra hra => by
    simp only [List.mem_singleton] at hra
    subst hra
    exact Grammar.digit_advances s

theorem moreDigits_eq (n : Nat) (acc : String) (p : Int) (h : s.rest p < n) :
    moreDigits s stop n acc p = Grammar.moreDigits s acc p := by
  induction n generalizing acc p with
  | zero => omega
  | succ n ih =>
    rw [moreDigits, Grammar.moreDigits]
    congr 1
    funext o ho
    cases o with
    | none => rfl
    | some d =>
      -- a digit was read, so fewer characters are left
      have hadv := digit_choice_advances p d (Step.recover_eq_some ho)
      have hpos : ((s.choice [(.digit, Grammar.digit s)]).optional p).pos =
          (s.choice [(.digit, Grammar.digit s)] p).pos := rfl
      exact ih _ _ (by rw [hpos]; omega)

theorem stringBody_eq (n : Nat) (quote : Char) (acc : Array CodePoint) (p : Int)
    (h : s.rest p < n) : stringBody s stop n quote acc p = Grammar.stringBody s quote acc p := by
  induction n generalizing acc p with
  | zero => omega
  | succ n ih =>
    rw [stringBody, Grammar.stringBody]
    congr 1
    funext c hc
    -- a character was read, so fewer characters are left
    obtain ⟨hpos, hlt⟩ := Source.char_ok hc
    have hx : s.rest (s.char none p).pos < n := by
      rw [hpos]
      unfold Source.rest at h ⊢
      omega
    congr 1
    congr 1
    · dsimp only
      congr 1
      funext cps _
      exact ih _ _ (Nat.lt_of_le_of_lt (Source.rest_le_rest (Grammar.escape s quote _).le) hx)
    · congr 1
      exact ih _ _ hx

/-! ## Each step of the cycle -/

variable {n : Nat} {p : Int}

theorem anyType_succ (hC : ∀ q, p ≤ q → complexType s stop n q = Grammar.complexType s q) :
    anyType s stop (n + 1) p = Grammar.anyType s p := by
  rw [anyType, Grammar.anyType, alt_ext hC]

theorem complexType_succ (hL : ∀ q, p ≤ q → list s stop n q = Grammar.list s q)
    (hM : ∀ q, p ≤ q → map s stop n q = Grammar.map s q) :
    complexType s stop (n + 1) p = Grammar.complexType s p := by
  rw [complexType, Grammar.complexType, alt_ext hL, alt_ext hM]

theorem list_succ (hI : ∀ q, s.rest q < s.rest p → ∀ b acc,
      listItems s stop n b acc q = Grammar.listItems s b acc q) :
    list s stop (n + 1) p = Grammar.list s p := by
  rw [list, Grammar.list]
  congr 1
  funext k hk
  -- the items start after the opening bracket
  rw [hI _ (Grammar.keyword_single_advances s "[" (by decide) p k hk)]

theorem map_succ (hJ : ∀ q, s.rest q < s.rest p → ∀ b acc,
      mapItems s stop n b acc q = Grammar.mapItems s b acc q) :
    map s stop (n + 1) p = Grammar.map s p := by
  rw [map, Grammar.map]
  congr 1
  funext k hk
  -- the pairs start after the opening brace
  rw [hJ _ (Grammar.keyword_single_advances s "\x7b" (by decide) p k hk)]

theorem listItems_succ {b : Bool} {acc : Array Value} {q : Int}
    (hA : ∀ r, q ≤ r → anyType s stop n r = Grammar.anyType s r)
    (hI : ∀ q', s.rest q' < s.rest q → ∀ b acc,
      listItems s stop n b acc q' = Grammar.listItems s b acc q') :
    listItems s stop (n + 1) b acc q = Grammar.listItems s b acc q := by
  rw [listItems, Grammar.listItems, alt_ext hA]
  congr 1
  funext o _
  cases o with
  | none => rfl
  | some v =>
    dsimp only
    congr 1
    funext o' ho'
    cases o' with
    | none => rfl
    | some k =>
      -- the next item starts after a comma
      have hadv := Grammar.optional_keyword_advances (s := s) (k := ",") (by decide) ho'
      have hx := Source.rest_le_rest (s := s)
        (s.choiceAt q [(.anyType, fun r _ => Grammar.anyType s r)]).optional.le
      exact hI _ (by omega) _ _

theorem mapItems_succ {b : Bool} {acc : List (Text × Value)} {q : Int}
    (hP : ∀ r, q ≤ r → pair s stop n r = Grammar.pair s r)
    (hJ : ∀ q', s.rest q' < s.rest q → ∀ b acc,
      mapItems s stop n b acc q' = Grammar.mapItems s b acc q') :
    mapItems s stop (n + 1) b acc q = Grammar.mapItems s b acc q := by
  rw [mapItems, Grammar.mapItems, alt_ext hP]
  congr 1
  funext o _
  cases o with
  | none => rfl
  | some kv =>
    obtain ⟨k, v⟩ := kv
    dsimp only
    congr 1
    funext o' ho'
    cases o' with
    | none => rfl
    | some u =>
      -- the next pair starts after a comma
      have hadv := Grammar.optional_keyword_advances (s := s) (k := ",") (by decide) ho'
      have hx := Source.rest_le_rest (s := s)
        (s.choiceAt q [(.pair, fun r _ => Grammar.pair s r)]).optional.le
      exact hJ _ (by omega) _ _

theorem pair_succ (hA : ∀ r, s.rest r < s.rest p → anyType s stop n r = Grammar.anyType s r) :
    pair s stop (n + 1) p = Grammar.pair s p := by
  rw [pair, Grammar.pair]
  congr 1
  funext key _
  dsimp only
  congr 1
  funext u hu
  -- the value starts after the colon that follows the key
  have hadv := Grammar.keyword_single_advances s ":" (by decide) _ u hu
  have hk := Source.rest_le_rest (s := s)
    (s.choice [(.quotedString, Grammar.quotedString s)] p).le
  rw [alt_ext (p := (s.keyword [":"] (s.choice [(.quotedString, Grammar.quotedString s)] p).pos).pos)
    fun r hr => hA r (by have hle := Source.rest_le_rest (s := s) hr; omega)]

/-! ## The cycle nests no deeper than its bound -/

/-- With more units than `8 · rest + rank`, each rule of the cycle gives what the rule gives: a
call goes either further on, or from no earlier to a rule of lower rank. -/
theorem cycle_eq (n : Nat) :
    (∀ p, 8 * s.rest p + 2 < n → anyType s stop n p = Grammar.anyType s p) ∧
    (∀ p, 8 * s.rest p + 1 < n → complexType s stop n p = Grammar.complexType s p) ∧
    (∀ p, 8 * s.rest p < n → list s stop n p = Grammar.list s p) ∧
    (∀ b acc q, 8 * s.rest q + 3 < n → listItems s stop n b acc q = Grammar.listItems s b acc q) ∧
    (∀ p, 8 * s.rest p < n → map s stop n p = Grammar.map s p) ∧
    (∀ b acc q, 8 * s.rest q + 4 < n → mapItems s stop n b acc q = Grammar.mapItems s b acc q) ∧
    (∀ p, 8 * s.rest p + 3 < n → pair s stop n p = Grammar.pair s p) := by
  induction n with
  | zero => exact ⟨nofun, nofun, nofun, nofun, nofun, nofun, nofun⟩
  | succ n ih =>
    obtain ⟨hA, hC, hL, hI, hM, hJ, hP⟩ := ih
    refine ⟨fun p h => anyType_succ fun q hq => hC q ?_,
      fun p h => complexType_succ (fun q hq => hL q ?_) (fun q hq => hM q ?_),
      fun p h => list_succ fun q hq b acc => hI b acc q ?_,
      fun b acc q h => listItems_succ (fun r hr => hA r ?_) (fun q' hq b acc => hI b acc q' ?_),
      fun p h => map_succ fun q hq b acc => hJ b acc q ?_,
      fun b acc q h => mapItems_succ (fun r hr => hP r ?_) (fun q' hq b acc => hJ b acc q' ?_),
      fun p h => pair_succ fun r hr => hA r ?_⟩
    -- every call is made at the caller's cursor or later, or at fewer characters left
    all_goals first
      | (have hle := Source.rest_le_rest (s := s) ‹_ ≤ _›; omega)
      | omega

end Limited

/-- Every rule of the reader returns. Run under a limit, the loops of the blank skipper, of the
digit run and of the string body, given more turns than there are characters after the cursor,
and the rules of the cycle of values, given more calls than `8 · rest + rank`, give exactly what
they give without the limit, whatever failure the limit would raise. -/
theorem reader_terminates (s : Source) (stop : Failure) (n : Nat) :
    (∀ b p, s.rest p < n → Limited.skipBlankFrom s stop n b p = s.skipBlankFrom b p) ∧
    (∀ acc p, s.rest p < n → Limited.moreDigits s stop n acc p = Grammar.moreDigits s acc p) ∧
    (∀ quote acc p, s.rest p < n →
      Limited.stringBody s stop n quote acc p = Grammar.stringBody s quote acc p) ∧
    (∀ p, 8 * s.rest p + 2 < n → Limited.anyType s stop n p = Grammar.anyType s p) ∧
    (∀ p, 8 * s.rest p + 1 < n → Limited.complexType s stop n p = Grammar.complexType s p) ∧
    (∀ p, 8 * s.rest p < n → Limited.list s stop n p = Grammar.list s p) ∧
    (∀ b acc q, 8 * s.rest q + 3 < n →
      Limited.listItems s stop n b acc q = Grammar.listItems s b acc q) ∧
    (∀ p, 8 * s.rest p < n → Limited.map s stop n p = Grammar.map s p) ∧
    (∀ b acc q, 8 * s.rest q + 4 < n →
      Limited.mapItems s stop n b acc q = Grammar.mapItems s b acc q) ∧
    (∀ p, 8 * s.rest p + 3 < n → Limited.pair s stop n p = Grammar.pair s p) :=
  ⟨fun b p h => Limited.skipBlankFrom_eq n b p h, fun acc p h => Limited.moreDigits_eq n acc p h,
    fun quote acc p h => Limited.stringBody_eq n quote acc p h, Limited.cycle_eq n⟩

/-- The document `[[1]]`, read from its start with 43 calls, two more than the bound of its
value, reads as without a limit. -/
theorem reader_terminates_nested :
    Limited.anyType (Source.of .json "[[1]]") (.fault .lostFailure) 43 (-1) =
      Grammar.anyType (Source.of .json "[[1]]") (-1) :=
  (reader_terminates (Source.of .json "[[1]]") (.fault .lostFailure) 43).2.2.2.1 (-1) (by decide)

end LaxJson
