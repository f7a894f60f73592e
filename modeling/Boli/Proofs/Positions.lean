import Boli.Proofs.Tiling
import Boli.Text.Utf8
import Boli.Token.Cursor
import Mathlib.Data.List.Induction

/-!
# Places are counted from the text

The line and the column of a cursor are those that one counts in the text before it, whatever was done
with it and whatever failed on the way, and a token and a failure tell the place of their own first
character (`places_counted`).

A place that moves over a text counts on from where it stood, so the place of a position is the one that
begins at the front of the source and has moved over all before the position (`placeAt`). A cursor that
is at the place of its position is **settled**. It stays so wherever it moves (`Cursor.Settled.move`),
and each operation only moves it (`Cursor.Settled.perform`).
-/

set_option autoImplicit false

namespace Boli

open Boli.Keyword (Table)

/-! ## Counting -/

section Counting

variable (source : List Char) (position : Nat)

/-- One more than the line feeds before a position. -/
def lineAt : Nat := 1 + (source.take position).count '\n'

/-- One more than the characters that stand between a position and the last line feed before it. -/
def columnAt : Nat := 1 + ((source.take position).reverse.takeWhile (· != '\n')).length

/-- The number of bytes before a position in UTF-8. -/
def bytesBefore : Nat := (Text.Utf8.encode (String.ofList (source.take position))).length

/-- The place of a position. -/
def placeAt : Place := ({} : Place).advanceAll (source.take position)

end Counting

theorem byteLength_append (cs ds : List Char) :
    Cursor.byteLength (cs ++ ds) = Cursor.byteLength cs + Cursor.byteLength ds := by
  induction cs with
  | nil => exact (Nat.zero_add _).symm
  | cons c cs ih =>
    show c.utf8Size + Cursor.byteLength (cs ++ ds) = c.utf8Size + Cursor.byteLength cs + _
    rw [ih, Nat.add_assoc]

theorem byteLength_eq (cs : List Char) :
    Cursor.byteLength cs = (Text.Utf8.encode (String.ofList cs)).length := by
  rw [Text.Utf8.encode, String.toList_ofList]
  induction cs with
  | nil => rfl
  | cons c cs ih =>
    rw [List.flatMap_cons, List.length_append, String.length_utf8EncodeChar, ← ih]
    rfl

/-- A place that begins at the front counts the characters, the bytes and the lines that it has moved
over. -/
theorem start_advanceAll (cs : List Char) :
    ({} : Place).advanceAll cs =
      ⟨cs.length, Cursor.byteLength cs, 1 + cs.count '\n',
        1 + (cs.reverse.takeWhile (· != '\n')).length⟩ := by
  induction cs using List.reverseRecOn with
  | nil => rfl
  | append_singleton cs c ih =>
    have hbytes : Cursor.byteLength [c] = c.utf8Size := rfl
    rw [Place.advanceAll_append, ih, byteLength_append, hbytes, List.length_append,
      List.count_append, List.reverse_append]
    by_cases hc : c = '\n'
    · subst hc
      simp [Place.advance, Nat.add_assoc]
    · simp [Place.advance, hc, Nat.add_assoc]

theorem placeAt_eq {source : List Char} {k : Nat} (h : k ≤ source.length) :
    placeAt source k = ⟨k, bytesBefore source k, lineAt source k, columnAt source k⟩ := by
  rw [placeAt, start_advanceAll, byteLength_eq, List.length_take, Nat.min_eq_left h]
  rfl

theorem extract_of_drop {source text behind : List Char} {k : Nat}
    (h : source.drop k = text ++ behind) : source.extract k (k + text.length) = text := by
  rw [List.extract_eq_take_drop, Nat.add_sub_cancel_left, h, List.take_left]

theorem drop_of_drop {source text behind : List Char} {k : Nat}
    (h : source.drop k = text ++ behind) : source.drop (k + text.length) = behind := by
  rw [← List.drop_drop, h, List.drop_left]

/-! ## Settled cursors -/

namespace Cursor

/-- A cursor stands at the place of its position in the text. -/
structure Settled (c : Cursor) : Prop where
  position_le : c.position ≤ c.source.length
  place_eq : c.place = placeAt c.source c.position

variable {c : Cursor}

theorem settled_start (source : List Char) : Settled { source } := ⟨Nat.zero_le _, rfl⟩

theorem Settled.line_eq (h : c.Settled) : c.line = lineAt c.source c.position := by
  have hplace := h.place_eq
  rw [placeAt_eq h.position_le] at hplace
  exact congrArg Place.line hplace

theorem Settled.column_eq (h : c.Settled) : c.column = columnAt c.source c.position := by
  have hplace := h.place_eq
  rw [placeAt_eq h.position_le] at hplace
  exact congrArg Place.column hplace

/-- A cursor may be put to any position of its text. -/
theorem position_moveTo {k : Nat} (h : k ≤ c.source.length) :
    (c.moveTo (placeAt c.source k)).position = k := by
  rw [placeAt_eq h]
  rfl

theorem settled_moveTo {k : Nat} (h : k ≤ c.source.length) :
    (c.moveTo (placeAt c.source k)).Settled := by
  rw [placeAt_eq h]
  refine ⟨h, ?_⟩
  show Place.mk k (byteLength (c.source.take k)) _ _ = placeAt c.source k
  rw [placeAt_eq h, byteLength_eq]
  rfl

section Moving

variable {text behind : List Char}

/-- From a settled cursor on, moving over a text leads to the place behind the text. -/
theorem Settled.advanceAll_eq (h : c.Settled) (hrest : c.rest = text ++ behind) :
    c.place.advanceAll text = placeAt c.source (c.position + text.length) := by
  have htake : (c.source.drop c.position).take text.length = text := by
    rw [show c.source.drop c.position = text ++ behind from hrest, List.take_left]
  rw [h.place_eq, placeAt, placeAt, List.take_add, htake, Place.advanceAll_append]

theorem Settled.length_eq (h : c.Settled) (hrest : c.rest = text ++ behind) :
    c.source.length = c.position + text.length + behind.length := by
  have hlength := congrArg List.length hrest
  rw [Cursor.rest, List.length_drop, List.length_append] at hlength
  have := h.position_le
  omega

theorem Settled.position_move (h : c.Settled) (hrest : c.rest = text ++ behind) :
    (c.moveTo (c.place.advanceAll text)).position = c.position + text.length := by
  have hlength := h.length_eq hrest
  rw [h.advanceAll_eq hrest, position_moveTo (by omega)]

theorem Settled.move (h : c.Settled) (hrest : c.rest = text ++ behind) :
    (c.moveTo (c.place.advanceAll text)).Settled := by
  have hlength := h.length_eq hrest
  rw [h.advanceAll_eq hrest]
  exact settled_moveTo (by omega)

theorem Settled.place_move (h : c.Settled) (hrest : c.rest = text ++ behind) :
    (c.moveTo (c.place.advanceAll text)).place = c.place.advanceAll text := by
  rw [(h.move hrest).place_eq, h.position_move hrest, h.advanceAll_eq hrest]
  rfl

theorem Settled.rest_move (h : c.Settled) (hrest : c.rest = text ++ behind) :
    (c.moveTo (c.place.advanceAll text)).rest = behind := by
  rw [Cursor.rest, h.position_move hrest]
  exact drop_of_drop hrest

end Moving

/-! ## Operations -/

/-- What can be asked of a cursor. -/
inductive Operation where
  | nextToken
  | advance
  | skipBlanks
  | peek (distance : Int)
  | byteOffset (position : Int)

/-- The cursor that an operation leaves, be it that it has an answer or fails. Looking ahead and
counting bytes do not move it. -/
def perform (table : Table) (c : Cursor) : Operation → Cursor
  | .nextToken => (c.nextToken table).2
  | .advance =>
    match c.advance with
    | .ok (_, c') => c'
    | .error _ => c
  | .skipBlanks => c.skipBlanks
  | .peek _ | .byteOffset _ => c

/-- The cursor that operations leave one after the other. -/
def performAll (table : Table) (c : Cursor) (operations : List Operation) : Cursor :=
  operations.foldl (perform table) c

/-- An operation takes a text off what is left. -/
theorem exists_text_of_perform (table : Table) (c : Cursor) (operation : Operation) :
    ∃ text behind, c.rest = text ++ behind ∧
      (c.perform table operation = c.moveTo (c.place.advanceAll text) ∨ c.perform table operation = c) := by
  cases operation with
  | nextToken =>
    rw [perform, Cursor.nextToken]
    cases hstep : Lexer.step table c.place c.rest with
    | token t place behind =>
      obtain ⟨gap, l, -, -, -, hrest, -, hplace⟩ := Tiling.exists_tile_of_step hstep
      refine ⟨gap ++ l.spelling, behind, ?_, .inl ?_⟩
      · rw [List.append_assoc, hrest]
      · rw [Place.advanceAll_append, ← hplace]
    | finish place =>
      obtain ⟨-, hplace⟩ := Tiling.valid_last_of_step hstep
      exact ⟨c.rest, [], (List.append_nil _).symm, .inl (by rw [← hplace])⟩
    | failed failure place behind =>
      obtain ⟨gap, x, after, -, -, hrest, hplace, hend⟩ := Tiling.exists_gap_of_step hstep
      rcases hend with ⟨-, hend⟩ | ⟨-, -, hend⟩
      · exact ⟨gap, x :: after, hrest.symm, .inl (by rw [← hplace, ← hend])⟩
      · refine ⟨c.rest, [], (List.append_nil _).symm, .inl ?_⟩
        rw [← hrest, Place.advanceAll_append, ← hplace, ← hend]
  | advance =>
    rw [perform, Cursor.advance]
    cases hrest : c.rest with
    | nil => exact ⟨[], [], rfl, .inr rfl⟩
    | cons x behind => exact ⟨[x], behind, rfl, .inl rfl⟩
  | skipBlanks =>
    exact ⟨_, _, List.takeWhile_append_dropWhile.symm, .inl rfl⟩
  | peek distance => exact ⟨[], c.rest, rfl, .inr rfl⟩
  | byteOffset position => exact ⟨[], c.rest, rfl, .inr rfl⟩

theorem Settled.perform (h : c.Settled) (table : Table) (operation : Operation) :
    (c.perform table operation).Settled := by
  obtain ⟨text, behind, hrest, heq | heq⟩ := exists_text_of_perform table c operation
  · rw [heq]
    exact h.move hrest
  · rw [heq]
    exact h

theorem source_perform (table : Table) (c : Cursor) (operation : Operation) :
    (c.perform table operation).source = c.source := by
  obtain ⟨text, behind, -, heq | heq⟩ := exists_text_of_perform table c operation
  · rw [heq]
    rfl
  · rw [heq]

theorem Settled.performAll (h : c.Settled) (table : Table) (operations : List Operation) :
    (c.performAll table operations).Settled := by
  induction operations generalizing c with
  | nil => exact h
  | cons operation operations ih => exact ih (h.perform table operation)

theorem source_performAll (table : Table) (c : Cursor) (operations : List Operation) :
    (c.performAll table operations).source = c.source := by
  induction operations generalizing c with
  | nil => rfl
  | cons operation operations ih => exact (ih _).trans (source_perform table c operation)

end Cursor

/-! ## Tokens and failures -/

/-- Between two positions there are only blanks. -/
def BlankBetween (source : List Char) (start stop : Nat) : Prop :=
  start ≤ stop ∧ ∀ x ∈ source.extract start stop, Text.isBlank x = true

/-- A token tells the place of a position. Its spelling stands there, without blanks in front, or it is
the token of the end and the text ends there. -/
structure Token.StandsAt (source : List Char) (k : Nat) (t : Token) : Prop where
  offset_eq : t.offset = k
  line_eq : t.line = lineAt source k
  column_eq : t.column = columnAt source k
  text_eq : source.extract k (k + t.text.length) = t.text.toList
  begins : (∃ x, t.text.toList.head? = some x ∧ Text.isBlank x = false) ∨
    t.kind = .eof ∧ k = source.length

/-- A failure tells the place of a position. The character that it is about stands there. -/
structure Lexer.Failure.StandsAt (source : List Char) (k : Nat) (f : Lexer.Failure) : Prop where
  byteOffset_eq : f.place.byteOffset = bytesBefore source k
  line_eq : f.place.line = lineAt source k
  column_eq : f.place.column = columnAt source k
  char_eq : source[k]? = some f.fault.char
  not_isBlank : Text.isBlank f.fault.char = false

/-- What is found from a position on: behind blanks alone a token, which the cursor has moved over, or a
failure. The cursor stays before a character that begins nothing, and goes to the end behind a quote
that is not closed. -/
def FoundFrom (source : List Char) (position : Nat) : Except Lexer.Failure Token × Cursor → Prop
  | (.ok t, c) => ∃ k, BlankBetween source position k ∧ t.StandsAt source k ∧
      c.position = k + t.text.length
  | (.error f, c) => ∃ k, BlankBetween source position k ∧ f.StandsAt source k ∧
      ((∃ x, f.fault = .unexpected x) ∧ c.position = k ∨
        (∃ x, f.fault = .unterminated x ∧ Lexeme.isQuote x = true) ∧ c.position = source.length)

namespace Cursor

variable {table : Table} {c : Cursor}

theorem blankBetween_of_rest {gap behind : List Char} (hblank : ∀ x ∈ gap, Text.isBlank x = true)
    (hrest : c.rest = gap ++ behind) :
    BlankBetween c.source c.position (c.position + gap.length) := by
  refine ⟨Nat.le_add_right _ _, ?_⟩
  rw [extract_of_drop hrest]
  exact hblank

/-- A token of a lexeme behind blanks stands where its spelling is. -/
theorem Settled.standsAt_ofLexeme (h : c.Settled) {gap behind : List Char} {l : Lexeme}
    (hl : l.WellFormed) (hrest : c.rest = gap ++ (l.spelling ++ behind)) :
    (Token.ofLexeme table (c.place.advanceAll gap) l).StandsAt c.source (c.position + gap.length) := by
  have hlength := h.length_eq hrest
  have hplace := h.advanceAll_eq hrest
  rw [placeAt_eq (by omega)] at hplace
  refine ⟨congrArg Place.offset hplace, congrArg Place.line hplace, congrArg Place.column hplace,
    ?_, ?_⟩
  · rw [Token.ofLexeme, String.length_ofList, String.toList_ofList]
    exact extract_of_drop (drop_of_drop hrest)
  · obtain ⟨x, xs, hspelling, hx⟩ := hl.exists_spelling_eq_cons
    refine .inl ⟨x, ?_, hx⟩
    rw [Token.ofLexeme, String.toList_ofList, hspelling]
    rfl

/-- The token of the end stands at the end. -/
theorem Settled.standsAt_endAt (h : c.Settled) :
    (Token.endAt (c.place.advanceAll c.rest)).StandsAt c.source c.source.length := by
  have hlength := h.length_eq (List.append_nil c.rest).symm
  have hplace := h.advanceAll_eq (List.append_nil c.rest).symm
  rw [← show c.source.length = c.position + c.rest.length from hlength,
    placeAt_eq (Nat.le_refl _)] at hplace
  refine ⟨congrArg Place.offset hplace, congrArg Place.line hplace, congrArg Place.column hplace,
    ?_, .inr ⟨rfl, rfl⟩⟩
  have hdrop : c.source.drop c.source.length = [] ++ [] := List.drop_length
  exact extract_of_drop hdrop

/-- A failure behind blanks stands where the character is that it is about. -/
theorem Settled.failure_standsAt (h : c.Settled) {gap after : List Char} {x : Char}
    {f : Lexer.Failure} (hx : Text.isBlank x = false) (hrest : c.rest = gap ++ x :: after)
    (hplace : f.place = c.place.advanceAll gap) (hchar : f.fault.char = x) :
    f.StandsAt c.source (c.position + gap.length) := by
  have hlength := h.length_eq hrest
  rw [h.advanceAll_eq hrest, placeAt_eq (by omega)] at hplace
  refine ⟨congrArg Place.byteOffset hplace, congrArg Place.line hplace,
    congrArg Place.column hplace, ?_, hchar ▸ hx⟩
  rw [← List.head?_drop, drop_of_drop hrest, hchar, List.head?_cons]

theorem Settled.nextToken (h : c.Settled) (table : Table) :
    FoundFrom c.source c.position (c.nextToken table) := by
  rw [Cursor.nextToken]
  cases hstep : Lexer.step table c.place c.rest with
  | token t place behind =>
    obtain ⟨gap, l, hblank, hl, -, hrest, rfl, rfl⟩ := Tiling.exists_tile_of_step hstep
    refine ⟨_, blankBetween_of_rest hblank hrest.symm, h.standsAt_ofLexeme hl hrest.symm, ?_⟩
    rw [← Place.advanceAll_append, h.position_move (by rw [List.append_assoc, hrest]),
      List.length_append, Token.ofLexeme, String.length_ofList, Nat.add_assoc]
  | finish place =>
    obtain ⟨hblank, rfl⟩ := Tiling.valid_last_of_step hstep
    have hrest := (List.append_nil c.rest).symm
    have hlength : c.source.length = c.position + c.rest.length := h.length_eq hrest
    refine ⟨_, hlength ▸ blankBetween_of_rest hblank hrest, h.standsAt_endAt, ?_⟩
    rw [h.position_move hrest, hlength]
    rfl
  | failed failure place behind =>
    obtain ⟨gap, x, after, hblank, hx, hrest, hplace, hend⟩ := Tiling.exists_gap_of_step hstep
    have hbetween := blankBetween_of_rest hblank hrest.symm
    rcases hend with ⟨hfault, rfl⟩ | ⟨hfault, hquote, rfl⟩
    · refine ⟨_, hbetween, h.failure_standsAt hx hrest.symm hplace (by rw [hfault]; rfl),
        .inl ⟨⟨x, hfault⟩, ?_⟩⟩
      rw [hplace, h.position_move hrest.symm]
    · refine ⟨_, hbetween, h.failure_standsAt hx hrest.symm hplace (by rw [hfault]; rfl),
        .inr ⟨⟨x, hfault, hquote⟩, ?_⟩⟩
      have hall := (List.append_nil c.rest).symm
      rw [hplace, ← Place.advanceAll_append, hrest, h.position_move hall, h.length_eq hall]
      rfl

end Cursor

/-- After any operations on a cursor that began at the front of a source, its line and its column are
those of its position. What is found next, be it a token or a failure, tells the place of its own first
character. -/
theorem places_counted (table : Table) (source : List Char) (operations : List Cursor.Operation) :
    let c := Cursor.performAll table { source } operations
    c.source = source ∧ c.position ≤ source.length ∧ c.line = lineAt source c.position ∧
      c.column = columnAt source c.position ∧ FoundFrom source c.position (c.nextToken table) := by
  intro c
  have hsettled : c.Settled := (Cursor.settled_start source).performAll table operations
  have hsource : c.source = source := Cursor.source_performAll table { source } operations
  have hposition := hsettled.position_le
  have hline := hsettled.line_eq
  have hcolumn := hsettled.column_eq
  have hnext := hsettled.nextToken table
  rw [hsource] at hposition hline hcolumn hnext
  exact ⟨hsource, hposition, hline, hcolumn, hnext⟩

end Boli
