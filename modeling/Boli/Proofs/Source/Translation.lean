import Boli.Proofs.Source.Failures

/-!
# Cursors that start inside of a text

A cursor may be put to any position of a text, with any line and column. Whatever it is asked for from
there on, it finds what a cursor at the front of the rest finds by itself, counted on from its own start
(`nextTokens_countedFrom`). What stands before the start makes no difference, but for its bytes.

A place that moves over a text may be counted from any other place, before or after it moves
(`Place.Positive.advanceAll_countedFrom`). The tokenizer looks at the places only to move them, so that
one step of the two cursors is the same (`step_countedFrom`), and then all steps are
(`Cursor.Settled.nextTokens_within`).
-/

set_option autoImplicit false

namespace Boli

open Boli.Keyword (Table)

/-! ## Counting from another place -/

/-- The place at which a place of a text comes to stand when the text begins at another place. Only on
its first line does the column count on from there. -/
def Place.countedFrom (p start : Place) : Place where
  offset := start.offset + p.offset
  byteOffset := start.byteOffset + p.byteOffset
  line := p.line + start.line - 1
  column := if p.line = 1 then p.column + start.column - 1 else p.column

/-- A token of a text that begins at another place. -/
def Token.countedFrom (t : Token) (start : Place) : Token :=
  { t with
    offset := start.offset + t.offset
    line := t.line + start.line - 1
    column := if t.line = 1 then t.column + start.column - 1 else t.column }

/-- A failure in a text that begins at another place. -/
def Lexer.Failure.countedFrom (f : Lexer.Failure) (start : Place) : Lexer.Failure :=
  { f with place := f.place.countedFrom start }

/-- What is found in a text that begins at another place. -/
def foundFrom (start : Place) (found : Except Lexer.Failure Token) : Except Lexer.Failure Token :=
  (found.map (·.countedFrom start)).mapError (·.countedFrom start)

/-- A step of the tokenizer through a text that begins at another place. -/
def Lexer.Step.countedFrom (start : Place) : Lexer.Step → Lexer.Step
  | .token t p rest => .token (t.countedFrom start) (p.countedFrom start) rest
  | .finish p => .finish (p.countedFrom start)
  | .failed f p rest => .failed (f.countedFrom start) (p.countedFrom start) rest

/-- Lines and columns are counted from one on. -/
structure Place.Positive (p : Place) : Prop where
  line_pos : 0 < p.line
  column_pos : 0 < p.column

namespace Place.Positive

variable {p : Place}

theorem advance (h : p.Positive) (c : Char) : (p.advance c).Positive := by
  obtain ⟨hline, hcolumn⟩ := h
  constructor
  · simp only [Place.advance]
    split <;> omega
  · simp only [Place.advance]
    split <;> omega

theorem advanceAll (h : p.Positive) (cs : List Char) : (p.advanceAll cs).Positive := by
  induction cs generalizing p with
  | nil => exact h
  | cons c cs ih => exact ih (h.advance c)

/-- A line feed begins a new line wherever the text begins, and any other character stays on its
line. -/
theorem advance_countedFrom (h : p.Positive) (start : Place) (c : Char) :
    (p.countedFrom start).advance c = (p.advance c).countedFrom start := by
  obtain ⟨hline, hcolumn⟩ := h
  by_cases hc : c = '\n'
  · have hnext : p.line + 1 ≠ 1 := by omega
    simp only [Place.advance, Place.countedFrom, hc, if_true, if_neg hnext, Place.mk.injEq, and_true]
    omega
  · simp only [Place.advance, Place.countedFrom, if_neg hc, Place.mk.injEq]
    refine ⟨Nat.add_assoc _ _ _, Nat.add_assoc _ _ _, trivial, ?_⟩
    split <;> omega

theorem advanceAll_countedFrom (h : p.Positive) (start : Place) (cs : List Char) :
    (p.countedFrom start).advanceAll cs = (p.advanceAll cs).countedFrom start := by
  induction cs generalizing p with
  | nil => rfl
  | cons c cs ih =>
    rw [Place.advanceAll_cons, Place.advanceAll_cons, h.advance_countedFrom start c, ih (h.advance c)]

end Place.Positive

/-- A step of the tokenizer goes through the same characters wherever they are counted from. -/
theorem step_countedFrom (table : Table) (start : Place) {p : Place} (h : p.Positive)
    (text : List Char) :
    Lexer.step table (p.countedFrom start) text = (Lexer.step table p text).countedFrom start := by
  have hbehind := h.advanceAll (text.takeWhile Text.isBlank)
  rw [Lexer.step, Lexer.step, h.advanceAll_countedFrom]
  cases text.dropWhile Text.isBlank with
  | nil => rfl
  | cons c rest =>
    dsimp only
    cases Lexeme.read c rest with
    | ok found => simp only [hbehind.advanceAll_countedFrom]; rfl
    | error fault =>
      cases fault with
      | unexpected d => rfl
      | unterminated quote => simp only [hbehind.advanceAll_countedFrom]; rfl

/-! ## Cursors -/

namespace Cursor

/-- The cursor in a whole text that stands where another one stands in a part of it, which begins at
`start`. -/
def within (whole : List Char) (start : Place) (c : Cursor) : Cursor :=
  Cursor.moveTo { source := whole } (c.place.countedFrom start)

variable {whole : List Char} {start : Place} {c : Cursor}

theorem rest_within (hsource : c.source = whole.drop start.offset) :
    (c.within whole start).rest = c.rest := by
  show whole.drop (start.offset + c.position) = c.source.drop c.position
  rw [hsource, List.drop_drop]

/-- The bytes before the cursor are those before the part and those in it. -/
theorem place_within (hsource : c.source = whole.drop start.offset)
    (hbytes : start.byteOffset = bytesBefore whole start.offset) :
    (c.within whole start).place = c.place.countedFrom start := by
  have hbefore : byteLength (whole.take (start.offset + c.position)) =
      start.byteOffset + byteLength (c.source.take c.position) := by
    rw [List.take_add, byteLength_append, ← hsource, hbytes, bytesBefore, byteLength_eq]
  exact congrArg (fun bytes => Place.mk _ bytes _ _) hbefore

/-- A cursor that has come from the front of its text is on a line and in a column. -/
theorem Settled.positive (h : c.Settled) : c.place.Positive := by
  have hstart : ({} : Place).Positive := ⟨Nat.one_pos, Nat.one_pos⟩
  rw [h.place_eq]
  exact hstart.advanceAll _

/-- A cursor in the whole text finds what the cursor in the part does, and they go on side by side. -/
theorem Settled.nextToken_within (h : c.Settled) (hsource : c.source = whole.drop start.offset)
    (hbytes : start.byteOffset = bytesBefore whole start.offset) (table : Table) :
    (c.within whole start).nextToken table =
      (foundFrom start (c.nextToken table).1, (c.nextToken table).2.within whole start) := by
  rw [Cursor.nextToken, Cursor.nextToken, rest_within hsource, place_within hsource hbytes,
    step_countedFrom table start h.positive]
  cases Lexer.step table c.place c.rest with
  | token t p rest => rfl
  | finish p => rfl
  | failed f p rest => rfl

theorem Settled.nextTokens_within (h : c.Settled) (hsource : c.source = whole.drop start.offset)
    (hbytes : start.byteOffset = bytesBefore whole start.offset) (table : Table) (n : Nat) :
    (c.within whole start).nextTokens table n =
      ((c.nextTokens table n).1.map (foundFrom start), (c.nextTokens table n).2.within whole start) := by
  induction n generalizing c with
  | zero => rfl
  | succ n ih =>
    have hnext : (c.nextToken table).2.Settled := h.perform table .nextToken
    have hsame : (c.nextToken table).2.source = whole.drop start.offset :=
      (source_perform table c .nextToken).trans hsource
    rw [nextTokens, nextTokens, h.nextToken_within hsource hbytes table, ih hnext hsame]
    rfl

end Cursor

/-- Whatever place of a text a cursor is put to, tokens, the end and failures are found there as at the
front of the rest of the text, moved: offsets by the position, lines and the columns of the first line
by the line and the column that the cursor starts with, less one, and the bytes before a failure by
those before the position. The cursor that is left has moved likewise. -/
theorem nextTokens_countedFrom (table : Table) (source : List Char) (position line column n : Nat) :
    let start : Place := ⟨position, bytesBefore source position, line, column⟩
    let fresh := Cursor.nextTokens table n { source := source.drop position }
    Cursor.nextTokens table n ⟨source, position, line, column⟩ =
      (fresh.1.map (foundFrom start), fresh.2.within source start) := by
  intro start fresh
  have hstart : (Cursor.mk (source.drop position) 0 1 1).within source start =
      ⟨source, position, line, column⟩ := by
    simp [Cursor.within, Cursor.moveTo, Cursor.place, Place.countedFrom, start]
  have hsettled := Cursor.settled_start (source.drop position)
  rw [← hstart]
  exact hsettled.nextTokens_within rfl rfl table n

/-- The quote stands on a new line, whose columns do not depend on where the cursor starts. -/
example : (Cursor.nextTokens .empty 2 ⟨"é x\n 'y".toList, 2, 7, 4⟩).1 =
    [.ok { kind := .identifier, value := "x", text := "x", line := 7, column := 4, offset := 2 },
      .error ⟨.unterminated '\x27', ⟨5, 6, 8, 2⟩⟩] := by
  rfl

end Boli
