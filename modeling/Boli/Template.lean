import Boli.Dictionary
import Boli.Text.Quoted

/-!
Text templates with holes.

A template is a sequence of fixed texts and holes. A hole either takes the next of the values given
in order, or the value given under its name. In the source form of a template a hole stands in
braces, empty or around its name, and a brace that is text is doubled.
-/

set_option autoImplicit false

namespace Boli

/-- A part of a template. -/
inductive Piece where
  /-- Fixed text. -/
  | text (content : String)
  /-- A hole for the next value in order. -/
  | next
  /-- A hole for the value of a name. -/
  | named (name : String)
  deriving DecidableEq

instance : Coe String Piece := ⟨Piece.text⟩

/-- A text with holes. -/
abbrev Template : Type := List Piece

namespace Template

/-- A hole for which no value is given. -/
inductive Fault where
  | missingName (name : String)
  | missingPosition (index : Nat)
  deriving DecidableEq

/-- The message that reports a fault. -/
def Fault.message : Fault → String
  | .missingName name => Text.quoted name
  | .missingPosition index =>
    "Replacement index " ++ toString index ++ " out of range for positional args tuple"

/-- Fills the holes from left to right, the `index`-th value in order being the next one. -/
def fillFrom (values : List String) (names : Dictionary String String) (index : Nat) :
    Template → Except Fault String
  | [] => .ok ""
  | .text s :: rest => (s ++ ·) <$> fillFrom values names index rest
  | .next :: rest =>
    match values[index]? with
    | none => .error (.missingPosition index)
    | some v => (v ++ ·) <$> fillFrom values names (index + 1) rest
  | .named name :: rest =>
    match Dictionary.get? name names with
    | none => .error (.missingName name)
    | some v => (v ++ ·) <$> fillFrom values names index rest

/-- Fills a template with one value in order. -/
def fill (template : Template) (value : String) : Except Fault String :=
  fillFrom [value] [] 0 template

/-- Fills a template with values under names. -/
def fillNamed (template : Template) (names : Dictionary String String) : Except Fault String :=
  fillFrom [] names 0 template

/-! ## Source form -/

/-- The opening brace. -/
def openBrace : Char := '\x7b'

/-- The closing brace. -/
def closeBrace : Char := '\x7d'

/-- Collected text as a piece, or nothing. -/
def flush (collected : List Char) : Template :=
  if collected.isEmpty then [] else [.text (String.ofList collected)]

/-- The hole with the given content between its braces. -/
def hole (name : List Char) : Piece :=
  if name.isEmpty then .next else .named (String.ofList name)

/-- Where a reader of a source form stands. -/
inductive Stage where
  /-- In fixed text. -/
  | text
  /-- Behind a brace that may open a hole or be the first half of a doubled one. -/
  | brace (mark : Char)
  /-- Inside a hole. -/
  | hole

/-- Whether a character is a brace. -/
def isBrace (c : Char) : Bool := c = openBrace || c = closeBrace

/-- Reads a source form from a stage on, with what has been collected of the current text or hole. A
brace that neither opens a hole nor is doubled stands for itself. -/
def parseFrom (stage : Stage) (collected : List Char) : List Char → Template
  | [] =>
    match stage with
    | .text => flush collected
    | .brace mark => flush (collected ++ [mark])
    | .hole => flush (openBrace :: collected)
  | c :: rest =>
    match stage with
    | .text =>
      if isBrace c then parseFrom (.brace c) collected rest
      else parseFrom .text (collected ++ [c]) rest
    | .brace mark =>
      if c = mark then parseFrom .text (collected ++ [c]) rest
      else if mark = openBrace then
        flush collected ++
          if c = closeBrace then hole [] :: parseFrom .text [] rest else parseFrom .hole [c] rest
      else if isBrace c then parseFrom (.brace c) (collected ++ [mark]) rest
      else parseFrom .text (collected ++ [mark, c]) rest
    | .hole =>
      if c = closeBrace then hole collected :: parseFrom .text [] rest
      else parseFrom .hole (collected ++ [c]) rest

/-- Reads a template from its source form. -/
def parse (source : String) : Template := parseFrom .text [] source.toList

/-- One character of fixed text in source form. -/
def doubled (c : Char) : List Char := if isBrace c then [c, c] else [c]

/-- A piece in source form. -/
def pieceSource : Piece → List Char
  | .text s => s.toList.flatMap doubled
  | .next => [openBrace, closeBrace]
  | .named name => openBrace :: name.toList ++ [closeBrace]

/-- The source form of a template. -/
def source (template : Template) : String := String.ofList (template.flatMap pieceSource)

end Template

end Boli
