/-!
Places in a source text.

A place counts the characters and the UTF-8 bytes before it, and tells the line and the column. Only
a line feed begins a new line.
-/

set_option autoImplicit false

namespace Boli

/-- A place in a source text. -/
structure Place where
  /-- The number of characters before the place. -/
  offset : Nat := 0
  /-- The number of bytes before the place. -/
  byteOffset : Nat := 0
  line : Nat := 1
  column : Nat := 1
  deriving DecidableEq

namespace Place

/-- The place behind a character. -/
def advance (p : Place) (c : Char) : Place where
  offset := p.offset + 1
  byteOffset := p.byteOffset + c.utf8Size
  line := if c = '\n' then p.line + 1 else p.line
  column := if c = '\n' then 1 else p.column + 1

/-- The place behind a sequence of characters. -/
def advanceAll (p : Place) (cs : List Char) : Place := cs.foldl advance p

@[simp] theorem advanceAll_nil (p : Place) : p.advanceAll [] = p := rfl

@[simp] theorem advanceAll_cons (p : Place) (c : Char) (cs : List Char) :
    p.advanceAll (c :: cs) = (p.advance c).advanceAll cs := rfl

/-- Moving over a text is moving over its parts. -/
theorem advanceAll_append (p : Place) (cs ds : List Char) :
    p.advanceAll (cs ++ ds) = (p.advanceAll cs).advanceAll ds := List.foldl_append

/-- The offset grows by the number of characters. -/
theorem offset_advanceAll (p : Place) (cs : List Char) :
    (p.advanceAll cs).offset = p.offset + cs.length := by
  induction cs generalizing p with
  | nil => rfl
  | cons c cs ih => simp only [advanceAll_cons, ih, advance, List.length_cons]; omega

end Place

end Boli
