import Boli.Json.Shown
import Boli.Template
import Boli.ValueKind

/-!
Target languages as records of their surface syntax.

A `Target` holds everything that the output in one language depends on: the lines around the
program, terminators, block style, keywords, and templates for declarations, printing, text
literals, operators and concatenation. The emitter reads these and knows no language by name.
-/

set_option autoImplicit false

namespace Boli

/-- How a block is delimited. -/
inductive BlockStyle where
  /-- Between braces. -/
  | braces
  /-- By a colon and indentation. -/
  | colon
  deriving DecidableEq

/-- A value that names no block style. -/
structure BlockStyle.Unknown where
  given : Json

/-- The message that reports an unknown block style. -/
def BlockStyle.Unknown.message (u : Unknown) : String :=
  u.given.shown ++ " is not a valid BlockStyle"

/-- The block style of a name. -/
def BlockStyle.ofJson : Json → Except BlockStyle.Unknown BlockStyle
  | .text "braces" => .ok .braces
  | .text "colon" => .ok .colon
  | v => .error ⟨v⟩

/-- The name of a block style. -/
def BlockStyle.name : BlockStyle → String
  | braces => "braces"
  | colon => "colon"

/-- The surface syntax of one target language. -/
structure Target where
  /-- The canonical name, which is also the extension of output files. -/
  name : String
  /-- Other names for the target. -/
  aliases : List String := []
  /-- Lines before the program. -/
  opening : List String := []
  /-- Lines after the program. -/
  closing : List String := []
  /-- The nesting depth of top-level statements. -/
  bodyLevel : Int := 0
  /-- What one level of nesting adds in front of a line. -/
  indentUnit : String := "  "
  /-- What ends a simple statement. -/
  terminator : String := ";"
  blockStyle : BlockStyle := .braces
  /-- What surrounds the condition of a statement; one hole. -/
  conditionFormat : Template := ["(", .next, ")"]
  ifKeyword : String := "if"
  elseIfKeyword : String := "else if"
  elseKeyword : String := "else"
  whileKeyword : String := "while"
  /-- The statement that fills an empty block, where the language allows none. -/
  emptyBlock : Option String := none
  /-- A declaration; holes `type`, `name` and `value`. -/
  declaration : Template := [.named "name", " = ", .named "value"]
  /-- The type names of a statically typed language. -/
  typeNames : Dictionary ValueKind String := []
  /-- An assignment; holes `name` and `value`. -/
  assignment : Template := [.named "name", " = ", .named "value"]
  /-- Print calls for each kind of value; hole `value`. -/
  printTemplates : Dictionary ValueKind Template := []
  /-- A text literal; one hole for its escaped content. -/
  stringTemplate : Template := ["\x22", .next, "\x22"]
  /-- Operators that are not written between their operands; holes `left` and `right`. -/
  operators : Dictionary String Template := []
  /-- Concatenation of texts, if the language has one; holes `left` and `right`. -/
  concatenation : Option Template := some [.named "left", " + ", .named "right"]
  /-- The conversion of a number inside a concatenation; one hole. -/
  stringify : Template := [.next]
  /-- What starts a line comment. -/
  commentMark : String := "//"
  deriving DecidableEq

namespace Target

/-- Whether declarations name a static type. -/
def typed (t : Target) : Bool := !t.typeNames.isEmpty

/-- The print call for a kind of value: its own, or the one for numbers if it has none or an empty
one. -/
def printTemplate (t : Target) (kind : ValueKind) : Except Template.Fault Template :=
  match (t.printTemplates.get? kind).filter (!·.isEmpty) with
  | some template => .ok template
  | none =>
    match t.printTemplates.get? .number with
    | some template => .ok template
    | none => .error (.missingName "number")

/-- The type name of a kind of value, empty where there is none. -/
def typeName (t : Target) (kind : ValueKind) : String := (t.typeNames.get? kind).getD ""

/-! ## Text literals -/

/-- Escapes the content of a text literal so that its closing quote ends it. Of `run` backslashes
read so far, those that reach a double quote or the end are doubled and the quote gets one of its
own; all others stay as they are. -/
def escapeFrom (run : Nat) : List Char → List Char
  | [] => List.replicate (2 * run) '\\'
  | c :: rest =>
    if c = '\\' then escapeFrom (run + 1) rest
    else if c = '\x22' then List.replicate (2 * run + 1) '\\' ++ '\x22' :: escapeFrom 0 rest
    else List.replicate run '\\' ++ c :: escapeFrom 0 rest

/-- The content of a text literal in the target's quotes. -/
def escapeContent (s : String) : String := String.ofList (escapeFrom 0 s.toList)

/-- A text literal of the target. -/
def quote (t : Target) (content : String) : Except Template.Fault String :=
  t.stringTemplate.fill (escapeContent content)

/-! ## Operations -/

/-- Values for the holes of an operator. -/
def operands (left right : String) : Dictionary String String := [("left", left), ("right", right)]

/-- A concatenation of texts, if the target has one. -/
def concatenate (t : Target) (left right : String) : Except Template.Fault (Option String) :=
  match t.concatenation with
  | none => .ok none
  | some template => some <$> template.fillNamed (operands left right)

/-- An operation on two operands; an operator without a template is written between them. -/
def binary (t : Target) (operator left right : String) : Except Template.Fault String :=
  match t.operators.get? operator with
  | none => .ok (left ++ " " ++ operator ++ " " ++ right)
  | some template => template.fillNamed (operands left right)

end Target

end Boli
