import Boli.Token.Lexer

/-!
A cursor over a source text, which takes single characters, blanks or whole tokens.

The cursor keeps the whole text, since it can look back and can tell byte offsets of any place. It
may stand behind the end, where it has nothing left.
-/

set_option autoImplicit false

namespace Boli

open Boli.Keyword (Table)

/-- A cursor over a source text. -/
structure Cursor where
  source : List Char
  position : Nat := 0
  line : Nat := 1
  column : Nat := 1
  deriving DecidableEq

namespace Cursor

/-- The text that is left. -/
def rest (c : Cursor) : List Char := c.source.drop c.position

/-- The number of bytes in a text. -/
def byteLength (cs : List Char) : Nat := cs.foldr (fun c count => c.utf8Size + count) 0

/-- The number of bytes before a position. A negative position counts from the end, and one beyond
either end stands for that end. -/
def byteOffset (c : Cursor) (position : Int) : Nat :=
  let index := if position < 0 then c.source.length + position else position
  byteLength (c.source.take index.toNat)

/-- The place of the cursor. -/
def place (c : Cursor) : Place :=
  ⟨c.position, byteLength (c.source.take c.position), c.line, c.column⟩

/-- The cursor at another place of its text. -/
def moveTo (c : Cursor) (p : Place) : Cursor :=
  { c with position := p.offset, line := p.line, column := p.column }

/-- Whether nothing is left. -/
def atEnd (c : Cursor) : Bool := c.source.length ≤ c.position

/-- The character at a distance from the cursor, if there is one. -/
def peek (c : Cursor) (distance : Int) : Option Char :=
  let index := (c.position : Int) + distance
  if index < 0 then none else c.source[index.toNat]?

/-- Nothing is left to take. -/
structure Exhausted where
  line : Nat
  column : Nat
  deriving DecidableEq

/-- The message that reports an exhausted cursor. -/
def Exhausted.message (e : Exhausted) : String :=
  "no character left at " ++ toString e.line ++ ":" ++ toString e.column

/-- Takes the next character. -/
def advance (c : Cursor) : Except Exhausted (Char × Cursor) :=
  match c.rest with
  | [] => .error ⟨c.line, c.column⟩
  | next :: _ => .ok (next, c.moveTo (c.place.advance next))

/-- Takes the blanks that stand next. -/
def skipBlanks (c : Cursor) : Cursor :=
  c.moveTo (c.place.advanceAll (c.rest.takeWhile Text.isBlank))

/-- Takes the next token; at the end it is the token for the end of the text. -/
def nextToken (table : Table) (c : Cursor) : Except Lexer.Failure Token × Cursor :=
  match Lexer.step table c.place c.rest with
  | .token t p _ => (.ok t, c.moveTo p)
  | .finish p => (.ok (Token.endAt p), c.moveTo p)
  | .failed failure p _ => (.error failure, c.moveTo p)

end Cursor

end Boli
