import LaxJson.Proofs.Bounds
import LaxJson.Proofs.Termination
/-!
# Reusing a reader

A session keeps one piece of state besides its text and its cursor: the cache of the specs its
commands have split. Every command shares it. The rules a command runs take the segments of their
classes from it, and when the command is done, whether it succeeded or failed at any point, the
specs it asked for are split through it in order. The cache is sound by construction: each spec
in it is stored with the segments that splitting it afresh gives. Splitting through it gives what
splitting afresh gives and keeps it sound (`SplitCache.split_fst`, `SplitCache.split_sound`), and
a malformed spec stores nothing (`SplitCache.split_error`).

So what a rule does on a source depends on the source's characters and dialect alone, never on
what its cache holds. Each rule takes the same step on a source and on the same text with an
empty cache (`Source.renew`). The blank skipper, the keywords and the end test never read the
cache. A character test finds what splitting afresh finds (`Source.char_renew`). The number and
string rules follow, each from the rules it calls, and the cycle of values follows through its
limited rules, by induction on the units (`Limited.cycle_renew`). A command then answers, moves
the cursor and leaves its text as it does on a new session on the same text and cursor
(`Session.run_renew`). So a whole run answers as it does from a new session, and so does each
command after any history (`Session.reuse_answers_as_new`).
-/

set_option autoImplicit false
namespace LaxJson

namespace SplitCache

variable {c : SplitCache} {spec : String} {f : Fault}

/-- A spec that cannot be split stores nothing. -/
theorem split_error (hf : (c.split spec).1 = .error f) : (c.split spec).2 = c := by
  unfold split at hf ⊢
  cases hc : c.find? spec with
  | some segs => rfl
  | none =>
    rw [hc] at hf
    cases hseg : segments spec.toList with
    | error g => rfl
    | ok segs => simp [hseg] at hf

/-- A request for a malformed spec, made through a sound cache, leaves it as it was. -/
theorem fill_malformed (hc : c.Sound) (h : segments spec.toList = .error f) : c.fill [spec] = c :=
  split_error ((split_fst hc spec).trans h)

end SplitCache

/-! ## What a rule reads of its source -/

namespace Source

/-- The same text in the same dialect with nothing split yet: what a new reader of it holds. -/
def renew (s : Source) : Source := ⟨s.chars, s.dialect, .empty, SplitCache.sound_empty⟩

variable (s : Source)

/-! The blank skipper, the keywords, the end test and the choice never read the cache. -/

theorem skipBlankFrom_renew : s.renew.skipBlankFrom = s.skipBlankFrom := by
  -- the loop reads the characters and the dialect alone, so both sides unfold to one term
  delta skipBlankFrom
  rfl

theorem skipBlank_renew : s.renew.skipBlank = s.skipBlank := by
  unfold skipBlank
  rw [skipBlankFrom_renew]

theorem keyword_renew (kws : List String) : s.renew.keyword kws = s.keyword kws := by
  -- the keyword test reads the characters alone, and so do the skippers around it
  delta keyword skipBlank skipBlankFrom
  rfl

theorem atEnd_renew : s.renew.atEnd = s.atEnd := rfl

theorem tryAlts_renew {α : Type} {p : Int} (q : Int) (h : p ≤ q) (alts : List (Rule × Alt p α))
    (st : Standing) : s.renew.tryAlts q h alts st = s.tryAlts q h alts st := by
  induction alts generalizing st with
  | nil => rfl
  | cons ra more ih => simp only [tryAlts, skipBlank_renew, ih]

theorem choiceAt_renew {α : Type} (p : Int) (alts : List (Rule × Alt p α)) :
    s.renew.choiceAt p alts = s.choiceAt p alts := by
  unfold choiceAt
  rw [skipBlank_renew]
  simp only [tryAlts_renew]

theorem choice_renew {α : Type} (alts : List (Rule × Scan α)) :
    s.renew.choice alts = s.choice alts :=
  funext fun p => choiceAt_renew s p _

/-! A character test reads the cache, and finds there what splitting afresh finds. -/

theorem nextIn?_renew (spec : Option String) (p : Int) :
    s.renew.nextIn? spec p = s.nextIn? spec p := by
  rw [nextIn?_eq, nextIn?_eq]
  rfl

theorem requests_renew (spec : Option String) (p : Int) :
    s.renew.requests spec p = s.requests spec p := by
  rw [requests_eq, requests_eq]
  rfl

/-- Reading a character takes the same step whatever the cache holds. -/
theorem char_renew (spec : Option String) : s.renew.char spec = s.char spec := by
  funext p
  unfold char
  rw [nextIn?_renew, requests_renew]

end Source

namespace Grammar

variable (s : Source)

/-! ### Numbers -/

theorem onenine_renew : onenine s.renew = onenine s := by
  unfold onenine
  rw [Source.char_renew]

theorem digit_renew : digit s.renew = digit s := by
  unfold digit
  simp only [Source.char_renew, onenine_renew, Source.choice_renew]

theorem moreDigits_renew (acc : String) : moreDigits s.renew acc = moreDigits s acc := by
  funext p
  -- on the turns of the loop, each after a digit read
  induction acc, p using moreDigits.induct s with
  | case1 acc p x ih =>
    rw [moreDigits, moreDigits, digit_renew, Source.choice_renew]
    congr 1
    funext o ho
    cases o with
    | none => rfl
    | some d => exact ih d ho

theorem digits_renew : digits s.renew = digits s := by
  unfold digits
  rw [digit_renew, Source.choice_renew]
  simp only [moreDigits_renew]

theorem oneDigit_renew : oneDigit s.renew = oneDigit s := by
  unfold oneDigit
  simp only [digit_renew, Source.choice_renew]

theorem manyDigits_renew : manyDigits s.renew = manyDigits s := by
  unfold manyDigits
  simp only [onenine_renew, digits_renew, Source.choice_renew]

theorem negOneDigit_renew : negOneDigit s.renew = negOneDigit s := by
  unfold negOneDigit
  simp only [Source.char_renew, oneDigit_renew, Source.choice_renew]

theorem negManyDigits_renew : negManyDigits s.renew = negManyDigits s := by
  unfold negManyDigits
  simp only [Source.char_renew, manyDigits_renew, Source.choice_renew]

theorem integer_renew : integer s.renew = integer s := by
  unfold integer
  simp only [negManyDigits_renew, negOneDigit_renew, manyDigits_renew, oneDigit_renew,
    Source.choice_renew]

theorem fractionDigits_renew : fractionDigits s.renew = fractionDigits s := by
  unfold fractionDigits
  simp only [Source.char_renew, digits_renew, Source.choice_renew]

theorem fraction_renew : fraction s.renew = fraction s := by
  unfold fraction
  simp only [fractionDigits_renew, Source.choice_renew]

theorem sign_renew : sign s.renew = sign s := by
  unfold sign
  rw [Source.char_renew]

theorem exponentDigits_renew : exponentDigits s.renew = exponentDigits s := by
  unfold exponentDigits
  simp only [Source.char_renew, sign_renew, digits_renew, Source.choice_renew]

theorem exponent_renew : exponent s.renew = exponent s := by
  unfold exponent
  simp only [exponentDigits_renew, Source.choice_renew]

theorem number_renew : number s.renew = number s := by
  unfold number
  simp only [integer_renew, fraction_renew, exponent_renew, Source.choice_renew]

/-! ### Strings -/

theorem hexDigit_renew : hexDigit s.renew = hexDigit s := by
  unfold hexDigit
  rw [Source.char_renew]

theorem escape_renew (quote : Char) : escape s.renew quote = escape s quote := by
  unfold escape
  rw [Source.char_renew, hexDigit_renew]
  rfl

theorem stringBody_renew (quote : Char) (acc : Array CodePoint) :
    stringBody s.renew quote acc = stringBody s quote acc := by
  funext p
  -- on the turns of the loop, each after a character or an escape read
  induction acc, p using stringBody.induct s quote with
  | case1 acc p x hesc hraw =>
    rw [stringBody, stringBody, Source.char_renew, escape_renew]
    congr 1
    funext c hc
    -- after a character that is not the delimiter: an escape, a refused control, or the next turn
    simp only [x] at hesc hraw
    simp only [hesc c hc, hraw c hc]
    rfl

theorem quotedString_renew : quotedString s.renew = quotedString s := by
  funext p
  unfold quotedString
  rw [Source.char_renew]
  simp only [stringBody_renew]

/-! ### Values -/

theorem null_renew : null s.renew = null s := by
  unfold null
  rw [Source.keyword_renew]

theorem boolean_renew : boolean s.renew = boolean s := by
  unfold boolean
  rw [Source.keyword_renew]

theorem primitiveType_renew : primitiveType s.renew = primitiveType s := by
  unfold primitiveType
  simp only [null_renew, boolean_renew, quotedString_renew, number_renew, Source.choice_renew]

theorem closing_renew (close : String) (afterComma : Bool) :
    closing s.renew close afterComma = closing s close afterComma := by
  unfold closing
  rw [Source.keyword_renew]
  rfl

end Grammar

namespace Limited

variable (s : Source) (stop : Failure)

/-- Under a limit, the rules of the cycle of values take the same steps on a source and on its
text with nothing split. -/
theorem cycle_renew (n : Nat) :
    (∀ p, anyType s.renew stop n p = anyType s stop n p) ∧
    (∀ p, complexType s.renew stop n p = complexType s stop n p) ∧
    (∀ p, list s.renew stop n p = list s stop n p) ∧
    (∀ b acc q, listItems s.renew stop n b acc q = listItems s stop n b acc q) ∧
    (∀ p, map s.renew stop n p = map s stop n p) ∧
    (∀ b acc q, mapItems s.renew stop n b acc q = mapItems s stop n b acc q) ∧
    (∀ p, pair s.renew stop n p = pair s stop n p) := by
  induction n with
  | zero =>
    exact ⟨fun _ => rfl, fun _ => rfl, fun _ => rfl, fun _ _ _ => rfl, fun _ => rfl,
      fun _ _ _ => rfl, fun _ => rfl⟩
  | succ n ih =>
    obtain ⟨hA, hC, hL, hI, hM, hJ, hP⟩ := ih
    -- each rule calls the rules of the cycle with one unit less, and the rules outside it
    refine ⟨fun p => ?_, fun p => ?_, fun p => ?_, fun b acc q => ?_, fun p => ?_,
      fun b acc q => ?_, fun p => ?_⟩
    · rw [anyType, anyType, alt_ext fun q _ => hC q, Source.choiceAt_renew,
        Grammar.primitiveType_renew]
    · rw [complexType, complexType, alt_ext fun q _ => hL q, alt_ext fun q _ => hM q,
        Source.choiceAt_renew]
    · rw [list, list, Source.keyword_renew, hI]
      simp only [Grammar.closing_renew]
    · rw [listItems, listItems, alt_ext fun r _ => hA r, Source.choiceAt_renew,
        Source.keyword_renew]
      simp only [hI]
    · rw [map, map, Source.keyword_renew, hJ]
      simp only [Grammar.closing_renew]
    · rw [mapItems, mapItems, alt_ext fun r _ => hP r, Source.choiceAt_renew,
        Source.keyword_renew]
      simp only [hJ]
    · rw [pair, pair, Source.choice_renew, Grammar.quotedString_renew, Source.keyword_renew]
      simp only [hA, Source.choiceAt_renew]

end Limited

namespace Grammar

variable (s : Source)

/-- The rules of the cycle of values take the same steps whatever the cache holds: given more
units than their bound, the limited rules are the rules, on both sources alike. -/
theorem cycle_renew (p : Int) :
    anyType s.renew p = anyType s p ∧ complexType s.renew p = complexType s p ∧
      list s.renew p = list s p ∧ map s.renew p = map s p ∧ pair s.renew p = pair s p := by
  let stop : Failure := .fault .lostFailure
  -- both sources leave the same characters after `p`, so one bound serves both
  have hbound : ∀ k, k < 4 → 8 * s.renew.rest p + k < 8 * s.rest p + 4 := fun k hk => by
    show 8 * s.rest p + k < _
    omega
  obtain ⟨hA, hC, hL, -, hM, -, hP⟩ := Limited.cycle_renew s stop (8 * s.rest p + 4)
  obtain ⟨eA, eC, eL, -, eM, -, eP⟩ := @Limited.cycle_eq s stop (8 * s.rest p + 4)
  obtain ⟨fA, fC, fL, -, fM, -, fP⟩ :=
    @Limited.cycle_eq s.renew stop (8 * s.rest p + 4)
  refine ⟨?_, ?_, ?_, ?_, ?_⟩
  · rw [← eA p (by omega), ← fA p (hbound 2 (by omega)), hA]
  · rw [← eC p (by omega), ← fC p (hbound 1 (by omega)), hC]
  · rw [← eL p (by omega), ← fL p (hbound 0 (by omega)), hL]
  · rw [← eM p (by omega), ← fM p (hbound 0 (by omega)), hM]
  · rw [← eP p (by omega), ← fP p (hbound 3 (by omega)), hP]

theorem anyType_renew : anyType s.renew = anyType s := funext fun p => (cycle_renew s p).1

theorem start_renew : start s.renew = start s := by
  unfold start
  rw [anyType_renew, Source.choice_renew]

theorem document_renew : document s.renew = document s := by
  unfold document
  rw [start_renew, Source.atEnd_renew]

/-- Every rule of the grammar, invoked by name, takes the same step whatever the cache holds. -/
theorem grammarScan_renew (r : Rule) : grammarScan s.renew r = grammarScan s r := by
  have hC : complexType s.renew = complexType s := funext fun p => (cycle_renew s p).2.1
  have hL : list s.renew = list s := funext fun p => (cycle_renew s p).2.2.1
  have hM : map s.renew = map s := funext fun p => (cycle_renew s p).2.2.2.1
  have hP : pair s.renew = pair s := funext fun p => (cycle_renew s p).2.2.2.2
  cases r <;>
    simp only [grammarScan, start_renew, anyType_renew, primitiveType_renew, hC, hL, hM, hP,
      null_renew, boolean_renew, number_renew, integer_renew, oneDigit_renew, manyDigits_renew,
      negOneDigit_renew, negManyDigits_renew, fraction_renew, fractionDigits_renew,
      exponent_renew, exponentDigits_renew, digits_renew, digit_renew, onenine_renew,
      sign_renew, quotedString_renew, Source.char_renew, Source.atEnd_renew,
      Source.skipBlank_renew]

end Grammar

theorem Rule.scan_renew (s : Source) (r : Rule) : r.scan s.renew = r.scan s := by
  unfold Rule.scan
  rw [Grammar.grammarScan_renew]
  rfl

/-! ## Sessions -/

namespace Scan

variable {α β γ : Type}

/-- Mapping a value before a scan that follows it, and giving it back, is mapping it after. -/
theorem map_then_out (f : α → β) (x : Scan α) (y : Scan γ) (p : Int) :
    ((do let v ← f <$> x; let _ ← y; pure v : Scan β) p).out =
      f <$> ((do let v ← x; let _ ← y; pure v : Scan α) p).out := by
  cases h1 : (x p).out with
  | error e =>
    rw [bind_of_error (map_of_error h1).1, bind_of_error h1]
    rfl
  | ok v =>
    obtain ⟨hv, hvpos⟩ := map_of_ok (f := f) h1
    rw [bind_out hv hvpos, bind_out h1 rfl]
    -- both sides now run `y` from where `x` stopped
    cases h2 : (y (x p).pos).out with
    | error g =>
      rw [bind_of_error h2, bind_of_error h2]
      rfl
    | ok u =>
      rw [bind_out h2 rfl, bind_out h2 rfl]
      rfl

end Scan

namespace Session

/-- A new session on the same text, dialect and cursor: nothing split yet. -/
def renew (st : Session) : Session := ⟨st.source.renew, st.pos⟩

/-- A step taken from the cursor reports, and moves the session, alike whatever the cache holds. -/
theorem runScan_renew {α : Type} (st : Session) (x : Scan α) (yield : α → Yield) (o : Bool) :
    (st.runScan x yield o).1 = (st.renew.runScan x yield o).1 ∧
      (st.runScan x yield o).2.renew = (st.renew.runScan x yield o).2.renew :=
  ⟨rfl, rfl⟩

/-- One command answers as it does on a new session on the same text and cursor, and leaves the
same text and cursor: only the cache it leaves can differ. -/
theorem run_renew (st : Session) (c : Command) :
    (st.run c).1 = (st.renew.run c).1 ∧ (st.run c).2.renew = (st.renew.run c).2.renew := by
  have hsrc : st.renew.source = st.source.renew := rfl
  cases c with
  | parse text =>
    -- the new text, read with the session's cache or with none
    have hnew : st.renew.source.reread text = (st.source.reread text).renew := rfl
    constructor
    · simp only [run, hnew, Rule.scan_renew, Source.atEnd_renew]
    · simp only [run, hnew, Rule.scan_renew, Source.atEnd_renew]
      rfl
  | blank =>
    simp only [run, hsrc, Source.skipBlank_renew]
    exact runScan_renew st _ _ _
  | atEnd =>
    simp only [run, hsrc, Source.atEnd_renew]
    exact runScan_renew st _ _ _
  | segments spec =>
    refine ⟨?_, rfl⟩
    simp only [run, SplitCache.split_fst st.source.sound, SplitCache.split_fst st.renew.source.sound]
  | char spec o =>
    simp only [run, hsrc, Source.char_renew]
    exact runScan_renew st _ _ _
  | keyword kws o =>
    simp only [run, hsrc, Source.keyword_renew]
    exact runScan_renew st _ _ _
  | choice rules o =>
    simp only [run, hsrc, Rule.scan_renew, Source.choice_renew]
    exact runScan_renew st _ _ _
  | rule r =>
    simp only [run, hsrc, Rule.scan_renew]
    exact runScan_renew st _ _ _

/-- A run answers as it does from a new session on the same text and cursor. -/
theorem runAll_renew (st : Session) (cs : List Command) : st.runAll cs = st.renew.runAll cs := by
  induction cs generalizing st with
  | nil => rfl
  | cons c cs ih =>
    obtain ⟨hout, hst⟩ := run_renew st c
    have hpos : (st.run c).2.pos = (st.renew.run c).2.pos := (congrArg Session.pos hst :)
    -- the sessions after the command differ in their caches alone
    rw [runAll_cons, runAll_cons, hout, hpos, ih (st.run c).2, ih (st.renew.run c).2, hst]

/-- A command keeps the dialect of the session. -/
theorem run_dialect (st : Session) (c : Command) :
    (st.run c).2.source.dialect = st.source.dialect := by
  cases c <;> rfl

theorem exec_dialect (st : Session) (cs : List Command) :
    (st.exec cs).source.dialect = st.source.dialect := by
  induction cs generalizing st with
  | nil => rfl
  | cons c cs ih => exact (ih (st.run c).2).trans (run_dialect st c)

/-- A json session reads a document as `Grammar.parse` reads it. -/
theorem run_parse (st : Session) (hd : st.source.dialect = .json) (t : String) :
    (st.run (.parse t)).1 = Yield.value <$> Grammar.parse t := by
  have hs : (st.source.reread t).renew = Source.of .json t := by
    simp only [Source.renew, Source.reread, Source.of, hd]
  have hscan : Rule.scan (st.source.reread t) .start = Yield.value <$> Grammar.start (st.source.reread t) := by
    simp only [Rule.scan, Source.reread, hd, Rule.isPrimitive]
    rfl
  simp only [run, hscan]
  rw [Scan.map_then_out, Grammar.parse, ← hs, Grammar.document_renew]
  rfl

/-- A command that asks for a malformed spec, by name or through a character test, stores
nothing. -/
theorem run_malformed_cache (st : Session) {spec : String} {f : Fault}
    (h : segments spec.toList = .error f) (o : Bool) :
    (st.run (.segments spec)).2.source.cache = st.source.cache ∧
      (st.run (.char (some spec) o)).2.source.cache = st.source.cache := by
  refine ⟨SplitCache.fill_malformed st.source.sound h, ?_⟩
  have hasked : (st.run (.char (some spec) o)).2.source.cache =
      st.source.cache.fill (st.source.requests (some spec) st.pos) := by
    simp only [run, runScan, runStep, Source.store, Source.char, Step.ofFound_asked]
  -- the spec is asked for only when a character follows the cursor
  rw [hasked, Source.requests_eq]
  split
  · rfl
  · split
    · rfl
    · exact SplitCache.fill_malformed st.source.sound h

/-- A session shows nothing of the commands it ran before. After any run, each command answers
and moves the cursor as it does on a new session on the same text, dialect and cursor, and a
whole run answers as it does from a new session. A reused json session reads a document as
`Grammar.parse` reads it, and a command that asks for a malformed spec stores nothing. -/
theorem reuse_answers_as_new (st : Session) (cs : List Command) :
    (∀ c, ((st.exec cs).run c).1 = ((st.exec cs).renew.run c).1 ∧
      ((st.exec cs).run c).2.pos = ((st.exec cs).renew.run c).2.pos) ∧
    st.runAll cs = st.renew.runAll cs ∧
    (st.source.dialect = .json →
      ∀ t, ((st.exec cs).run (.parse t)).1 = Yield.value <$> Grammar.parse t) ∧
    (∀ spec f, segments spec.toList = .error f → ∀ o,
      ((st.exec cs).run (.segments spec)).2.source.cache = (st.exec cs).source.cache ∧
      ((st.exec cs).run (.char (some spec) o)).2.source.cache = (st.exec cs).source.cache) := by
  refine ⟨fun c => ?_, runAll_renew st cs, fun hd t => ?_, fun spec f h o => ?_⟩
  · obtain ⟨hout, hst⟩ := run_renew (st.exec cs) c
    exact ⟨hout, (congrArg Session.pos hst :)⟩
  · exact run_parse (st.exec cs) ((exec_dialect st cs).trans hd) t
  · exact run_malformed_cache (st.exec cs) h o

/-- A json session that read a document with a trailing comma and took a digit reads `[2]` as
`Grammar.parse` does, and asking it for the segments of `z-a` stores nothing. -/
theorem reuse_answers_as_new_json :
    (Session.start .json "[1]" 0).source.dialect = .json ∧
      segments "z-a".toList = .error .badRange ∧
      (((Session.start .json "[1]" 0).exec [.parse "[1,] ", .char (some "0-9") true]).run
        (.parse "[2]")).1 = Yield.value <$> Grammar.parse "[2]" ∧
      (((Session.start .json "[1]" 0).exec [.parse "[1,] ", .char (some "0-9") true]).run
        (.segments "z-a")).2.source.cache =
        ((Session.start .json "[1]" 0).exec [.parse "[1,] ", .char (some "0-9") true]).source.cache := by
  have hd : (Session.start .json "[1]" 0).source.dialect = .json := rfl
  have hseg : segments "z-a".toList = .error .badRange := rfl
  obtain ⟨-, -, hparse, hcache⟩ :=
    reuse_answers_as_new (Session.start .json "[1]" 0) [.parse "[1,] ", .char (some "0-9") true]
  exact ⟨hd, hseg, hparse hd "[2]", (hcache "z-a" .badRange hseg false).1⟩

end Session

end LaxJson
