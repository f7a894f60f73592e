import Boli.Proofs.Positions

/-!
# Failures of the tokenizer

The failure of a source is about one character, at which the tokens before it come to an end
(`failures_exact`). What stands behind that character makes no difference, but for a quote of its own
kind behind a quote, and neither does asking on: a cursor before a character that begins nothing stays
there and fails alike, and one that has gone to the end behind a quote finds the end from then on.

The tokens of a source up to its failure are those of a tiling that stops there. Steps of a cursor
follow the tiling (`Cursor.Settled.nextTokens_stops`), and from there on the cursor moves no more.
-/

set_option autoImplicit false

namespace Boli

open Boli.Keyword (Table)

namespace Cursor

/-- What is found when tokens are asked for a number of times, and the cursor that is left. -/
def nextTokens (table : Table) : Nat → Cursor → List (Except Lexer.Failure Token) × Cursor
  | 0, c => ([], c)
  | n + 1, c =>
    let behind := nextTokens table n (c.nextToken table).2
    ((c.nextToken table).1 :: behind.1, behind.2)

section Asking

variable (table : Table) {c : Cursor}

/-- A cursor that does not move finds the same whenever it is asked. -/
theorem nextTokens_of_stays {found : Except Lexer.Failure Token} (h : c.nextToken table = (found, c))
    (n : Nat) : c.nextTokens table n = (List.replicate n found, c) := by
  induction n with
  | zero => rfl
  | succ n ih => rw [nextTokens, h, ih, List.replicate_succ]

/-- A cursor at the end finds the end and stays there. -/
theorem nextToken_of_rest_eq_nil (h : c.rest = []) :
    c.nextToken table = (.ok (Token.endAt c.place), c) := by
  rw [nextToken, h]
  rfl

/-- Behind a gap a cursor finds the lexeme there. -/
theorem nextToken_lexeme {gap after : List Char} {l : Lexeme} (hg : ∀ x ∈ gap, Text.isBlank x = true)
    (hw : l.WellFormed) (hl : l.Longest after) (hrest : c.rest = gap ++ (l.spelling ++ after)) :
    c.nextToken table = (.ok (Token.ofLexeme table (c.place.advanceAll gap) l),
      c.moveTo (c.place.advanceAll (gap ++ l.spelling))) := by
  rw [nextToken, hrest, Tiling.step_lexeme table c.place hg hw hl, Place.advanceAll_append]

/-- Behind a gap a cursor finds the failure there. -/
theorem nextToken_fault {gap after : List Char} {x : Char} {fault : Lexeme.Fault}
    (hT : (Tiling.last gap).Stops x after fault) (hrest : c.rest = gap ++ x :: after) :
    c.nextToken table = (.error ⟨fault, c.place.advanceAll gap⟩,
      c.moveTo (fault.leave (c.place.advanceAll gap) (x :: after))) := by
  obtain ⟨rest, hstep⟩ := hT.step_eq table (c.place.advanceAll gap)
  rw [nextToken, hrest, Tiling.step_gap table c.place (x :: after) hT.valid, hstep]

variable {T : Tiling} {x : Char} {after : List Char}

/-- A cursor finds the tokens of a tiling and then the failure at which it stops. -/
theorem Settled.nextTokens_stops (h : c.Settled) {fault : Lexeme.Fault} (hT : T.Stops x after fault)
    (hrest : c.rest = T.text ++ x :: after) (n : Nat) :
    let place := c.place.advanceAll T.text
    let behind := (c.moveTo (fault.leave place (x :: after))).nextTokens table n
    c.nextTokens table ((T.tokens table c.place).length + 1 + n) =
      ((T.tokens table c.place).map .ok ++ .error ⟨fault, place⟩ :: behind.1, behind.2) := by
  induction T generalizing c with
  | last gap =>
    rw [Tiling.tokens, List.length_nil, Nat.zero_add, Nat.add_comm, nextTokens,
      nextToken_fault table hT hrest]
    rfl
  | tile gap l rest ih =>
    obtain ⟨⟨hg, hw, hl, hvalid⟩, hblank, hread⟩ := hT
    rw [Tiling.text, List.append_assoc, List.append_assoc] at hrest
    have hfirst := nextToken_lexeme table hg hw hl hrest
    rw [← List.append_assoc] at hrest
    have hmore := ih (h.move hrest) ⟨hvalid, hblank, hread⟩ (h.rest_move hrest)
    rw [h.place_move hrest, Place.advanceAll_append] at hmore
    rw [Place.advanceAll_append] at hfirst
    rw [Tiling.tokens, List.length_cons, Nat.add_right_comm, nextTokens, hfirst, hmore]
    simp only [Tiling.text, Place.advanceAll_append, List.map_cons, List.cons_append]
    rfl

/-- Before a character that begins nothing a cursor fails, and fails, and so on. -/
theorem Settled.nextTokens_unexpected (h : c.Settled) {d : Char} (hT : T.Stops x after (.unexpected d))
    (hrest : c.rest = T.text ++ x :: after) :
    ∃ c' : Cursor, c'.position = c.position + T.text.length ∧ ∀ n,
      c.nextTokens table ((T.tokens table c.place).length + 1 + n) =
        ((T.tokens table c.place).map .ok ++
          List.replicate (n + 1) (.error ⟨.unexpected d, c.place.advanceAll T.text⟩), c') := by
  have hstop : (Tiling.last []).Stops x after (.unexpected d) := ⟨nofun, hT.not_isBlank, hT.read_eq⟩
  have hstays : (c.moveTo (c.place.advanceAll T.text)).nextToken table =
      (.error ⟨.unexpected d, c.place.advanceAll T.text⟩, c.moveTo (c.place.advanceAll T.text)) := by
    have hfound := nextToken_fault table hstop (h.rest_move hrest)
    rwa [h.place_move hrest] at hfound
  have hleave : (Lexeme.Fault.unexpected d).leave (c.place.advanceAll T.text) (x :: after) =
      c.place.advanceAll T.text := rfl
  refine ⟨c.moveTo (c.place.advanceAll T.text), h.position_move hrest, fun n => ?_⟩
  rw [h.nextTokens_stops table hT hrest, hleave, nextTokens_of_stays table hstays, List.replicate_succ]

/-- Behind a quote that is not closed a cursor fails once, and finds the end from then on. -/
theorem Settled.nextTokens_unterminated (h : c.Settled) {quote : Char}
    (hT : T.Stops x after (.unterminated quote)) (hrest : c.rest = T.text ++ x :: after) :
    ∃ c' : Cursor, c'.position = c.source.length ∧ ∀ n,
      c.nextTokens table ((T.tokens table c.place).length + 1 + n) =
        ((T.tokens table c.place).map .ok ++
          .error ⟨.unterminated quote, c.place.advanceAll T.text⟩ ::
            List.replicate n (.ok (Token.endAt c'.place)), c') := by
  have hall : c.rest = c.rest ++ [] := (List.append_nil _).symm
  have hstays := nextToken_of_rest_eq_nil table (h.rest_move hall)
  have hleave : (Lexeme.Fault.unterminated quote).leave (c.place.advanceAll T.text) (x :: after) =
      c.place.advanceAll c.rest := by
    rw [Lexeme.Fault.leave, ← Place.advanceAll_append, ← hrest]
  refine ⟨c.moveTo (c.place.advanceAll c.rest), ?_, fun n => ?_⟩
  · rw [h.position_move hall, h.length_eq hall]
    rfl
  · rw [h.nextTokens_stops table hT hrest, hleave, nextTokens_of_stays table hstays]

end Asking

end Cursor

section Stops

variable (table : Table) {source : String} {T : Tiling} {x : Char} {after : List Char}
  (htext : T.text ++ x :: after = source.toList)

include htext

/-- What stands behind a character that begins nothing makes no difference, and a cursor stays there. -/
theorem unexpected_exact {d : Char} (hT : T.Stops x after (.unexpected d)) :
    let f : Lexer.Failure := ⟨.unexpected d, ({} : Place).advanceAll T.text⟩
    (∀ z : String, tokenize table (String.ofList (source.toList.take (T.text.length + 1)) ++ z) =
      .error f) ∧
    ∃ c : Cursor, c.position = T.text.length ∧ ∀ n,
      Cursor.nextTokens table ((T.tokens table {}).length + 1 + n) { source := source.toList } =
        ((T.tokens table {}).map .ok ++ List.replicate (n + 1) (.error f), c) := by
  intro f
  have hsettled := Cursor.settled_start source.toList
  have hrest : Cursor.rest { source := source.toList } = T.text ++ x :: after := htext.symm
  obtain ⟨c, hposition, hfound⟩ := hsettled.nextTokens_unexpected table hT hrest
  refine ⟨fun z => ?_, c, hposition.trans (Nat.zero_add _), hfound⟩
  have hwhole : (String.ofList (source.toList.take (T.text.length + 1)) ++ z).toList =
      T.text ++ x :: z.toList := by
    rw [String.toList_append, String.toList_ofList, ← htext, List.take_length_add_append,
      List.append_assoc]
    rfl
  rw [tokenize, hwhole, (hT.of_unexpected _).tokens_eq table]

/-- A quote that is not closed does not come again. What stands behind the source makes no difference as
long as it does not close the quote, and a cursor goes to the end. -/
theorem unterminated_exact {quote : Char} (hT : T.Stops x after (.unterminated quote)) :
    let f : Lexer.Failure := ⟨.unterminated quote, ({} : Place).advanceAll T.text⟩
    Lexeme.isQuote quote = true ∧ source.toList[T.text.length]? = some quote ∧
    quote ∉ source.toList.drop (T.text.length + 1) ∧
    (∀ z : String, quote ∉ z.toList → tokenize table (source ++ z) = .error f) ∧
    ∃ c : Cursor, c.position = source.length ∧ ∀ n,
      Cursor.nextTokens table ((T.tokens table {}).length + 1 + n) { source := source.toList } =
        ((T.tokens table {}).map .ok ++ .error f :: List.replicate n (.ok (Token.endAt c.place)), c) := by
  intro f
  obtain rfl : quote = x := hT.char_eq
  obtain ⟨hfault, -⟩ | ⟨-, hquote, hnot⟩ := Lexeme.read_eq_error_iff.1 hT.read_eq
  · cases hfault
  have hsettled := Cursor.settled_start source.toList
  have hrest : Cursor.rest { source := source.toList } = T.text ++ quote :: after := htext.symm
  obtain ⟨c, hposition, hfound⟩ := hsettled.nextTokens_unterminated table hT hrest
  refine ⟨hquote, ?_, ?_, ?_, c, hposition, hfound⟩
  · rw [← htext, List.getElem?_append_right (Nat.le_refl _), Nat.sub_self]
    rfl
  · rw [← htext, List.drop_length_add_append]
    exact hnot
  · intro z hz
    have hwhole : (source ++ z).toList = T.text ++ quote :: (after ++ z.toList) := by
      rw [String.toList_append, ← htext, List.append_assoc, List.cons_append]
    have hmore : quote ∉ after ++ z.toList := fun hm => (List.mem_append.1 hm).elim hnot hz
    rw [tokenize, hwhole, (hT.of_after fun _ => hmore).tokens_eq table]

end Stops

/-- If a source fails at a character, all before that character has tokens.

If the character begins nothing, every source that goes on otherwise behind it fails alike, and a cursor
that has found those tokens stays before the character and fails alike whenever it is asked.

Otherwise the character is a quote that does not come again. Every source that goes on without one fails
alike, and a cursor that has found those tokens fails, goes to the end, and finds the end whenever it is
asked from then on. -/
theorem failures_exact {table : Table} {source : String} {f : Lexer.Failure}
    (h : tokenize table source = .error f) :
    f.StandsAt source.toList f.place.offset ∧
    ∃ ts, tokenize table (String.ofList (source.toList.take f.place.offset)) = .ok ts ∧
      (∀ x, f.fault = .unexpected x →
        (∀ z : String, tokenize table
          (String.ofList (source.toList.take (f.place.offset + 1)) ++ z) = .error f) ∧
        ∃ c : Cursor, c.position = f.place.offset ∧ ∀ n,
          Cursor.nextTokens table (ts.length + 1 + n) { source := source.toList } =
            (ts.map .ok ++ List.replicate (n + 1) (.error f), c)) ∧
      (∀ quote, f.fault = .unterminated quote →
        Lexeme.isQuote quote = true ∧ source.toList[f.place.offset]? = some quote ∧
        quote ∉ source.toList.drop (f.place.offset + 1) ∧
        (∀ z : String, quote ∉ z.toList → tokenize table (source ++ z) = .error f) ∧
        ∃ c : Cursor, c.position = source.length ∧ ∀ n,
          Cursor.nextTokens table (ts.length + 1 + n) { source := source.toList } =
            (ts.map .ok ++ .error f :: List.replicate n (.ok (Token.endAt c.place)), c)) := by
  obtain ⟨T, x, after, hT, htext, hplace⟩ := Tiling.exists_stops_of_tokens h
  obtain ⟨fault, place⟩ := f
  obtain rfl : place = ({} : Place).advanceAll T.text := hplace
  have hoffset : (({} : Place).advanceAll T.text).offset = T.text.length := by
    rw [Place.offset_advanceAll, Nat.zero_add]
  have hvalid : T.Valid := Tiling.validBefore_nil_iff.1 (hT.valid.of_head? nofun)
  have hstands := (Cursor.settled_start source.toList).failure_standsAt hT.not_isBlank htext.symm
    rfl hT.char_eq
  rw [Nat.zero_add] at hstands
  rw [hoffset]
  refine ⟨hstands, T.tokens table {}, ?_, ?_, ?_⟩
  · rw [tokenize, String.toList_ofList, ← htext, List.take_left, Tiling.tokens_text table {} hvalid]
  · rintro d rfl
    exact unexpected_exact table htext hT
  · rintro quote rfl
    exact unterminated_exact table htext hT

/-- A character that begins nothing on the second line of a source. -/
def strayCharacter : String := "bol 'é\n' € 'x"

/-- A double quote in a source behind which only a single one comes. -/
def openQuote : String := "bol \x22é\n' €"

theorem failures_exact_secondLine :
    (∃ ts f c, tokenize .standard strayCharacter = .error f ∧ f.place = ⟨9, 10, 2, 3⟩ ∧
      tokenize .standard "bol 'é\n' " = .ok ts ∧ tokenize .standard "bol 'é\n' €agar" = .error f ∧
      Cursor.nextTokens .standard (ts.length + 2) { source := strayCharacter.toList } =
        (ts.map .ok ++ [.error f, .error f], c) ∧ c.position = 9) ∧
    (∃ ts f c, tokenize .standard openQuote = .error f ∧ f.place = ⟨4, 4, 1, 5⟩ ∧
      tokenize .standard "bol " = .ok ts ∧ tokenize .standard "bol \x22é\n' €agar" = .error f ∧
      Cursor.nextTokens .standard (ts.length + 2) { source := openQuote.toList } =
        (ts.map .ok ++ [.error f, .ok (Token.endAt c.place)], c) ∧ c.position = 10) := by
  constructor
  · have h : tokenize .standard strayCharacter = .error ⟨.unexpected '€', ⟨9, 10, 2, 3⟩⟩ := by rfl
    obtain ⟨-, ts, hts, hstray, -⟩ := failures_exact h
    obtain ⟨hsame, c, hposition, hfound⟩ := hstray '€' rfl
    exact ⟨ts, _, c, h, rfl, hts, hsame "agar", hfound 1, hposition⟩
  · have h : tokenize .standard openQuote = .error ⟨.unterminated '\x22', ⟨4, 4, 1, 5⟩⟩ := by rfl
    obtain ⟨-, ts, hts, -, hquote⟩ := failures_exact h
    obtain ⟨-, -, -, hsame, c, hposition, hfound⟩ := hquote '\x22' rfl
    exact ⟨ts, _, c, h, rfl, hts, hsame "agar" (by decide), hfound 1, hposition⟩

end Boli
