import Boli.Program
import Boli.Target
import Boli.Text.Numeral

/-!
Programs in the surface syntax of a target.

The emitter walks a program once, from top to bottom, and collects lines. On the way it records the
kind of value that each declaration gives to its name, since declarations, print calls and
concatenations depend on kinds. A node that the target cannot express stops the walk, or under the
comment policy takes the statement that directly holds it out of the output and leaves a comment
line in its place.
-/

set_option autoImplicit false

namespace Boli

/-- What happens to a node that a target cannot express. -/
inductive Policy where
  /-- Emission fails. -/
  | fail
  /-- The statement is replaced by a comment line. -/
  | comment
  deriving DecidableEq

namespace Policy

/-- A value that names no policy. -/
structure Unknown where
  given : Json

/-- The message that reports an unknown policy. -/
def Unknown.message (u : Unknown) : String :=
  u.given.shown ++ " is not a valid UnsupportedNodePolicy"

/-- The policy of a name. -/
def ofJson : Json → Except Unknown Policy
  | .text "fail" => .ok .fail
  | .text "comment" => .ok .comment
  | v => .error ⟨v⟩

end Policy

namespace Emission

/-- Why emission stops. -/
inductive Failure where
  /-- A node that the target cannot express. -/
  | unsupported (kind : String) (target : String)
  /-- A template of the target asks for a value that it is not given. -/
  | template (fault : Template.Fault)
  /-- A number that is not written as a numeral. -/
  | numeral (fault : Text.Numeral.Fault)
  deriving DecidableEq

/-- The message that reports a failure. -/
def Failure.message : Failure → String
  | unsupported kind target =>
    "No rendering rule for node kind " ++ Text.quoted kind ++ " on target " ++ Text.quoted target
  | template fault => fault.message
  | numeral fault => fault.message

/-- Kinds of values by the names they were declared for. -/
abbrev Bindings : Type := Dictionary String ValueKind

/-! ## Expressions -/

/-- The kind of an expression's value. A name that was not declared holds a number, and an operation
on a text gives a text. -/
def valueKind (bindings : Bindings) : Expression → ValueKind
  | .text _ => .string
  | .identifier name => (bindings.get? name).getD .number
  | .binary _ left right =>
    if valueKind bindings left = .string ∨ valueKind bindings right = .string then .string
    else .number
  | .number _ | .foreign _ _ => .number

/-- The failure at a node of a kind. -/
def unsupported {α : Type} (t : Target) (kind : String) : Except Failure α :=
  .error (.unsupported kind t.name)

/-- An operand of a concatenation: the text of a number is converted to a text. -/
def asString (t : Target) (bindings : Bindings) (e : Expression) (text : String) :
    Except Failure String :=
  if valueKind bindings e = .string then .ok text
  else (t.stringify.fill text).mapError .template

/-- The text of an expression. A sum with a text in it is a concatenation. -/
def expression (t : Target) (bindings : Bindings) : Expression → Except Failure String
  | .number n => (Text.Numeral.write n).mapError .numeral
  | .text s => (t.quote s).mapError .template
  | .identifier name => .ok name
  | .foreign kind _ => unsupported t kind
  | .binary operator left right => do
    let l ← expression t bindings left
    let r ← expression t bindings right
    if operator = "+" ∧ valueKind bindings (.binary operator left right) = .string then
      let l ← asString t bindings left l
      let r ← asString t bindings right r
      match ← (t.concatenate l r).mapError .template with
      | some text => return text
      | none => unsupported t (Expression.binary operator left right).kind
    else (t.binary operator l r).mapError .template

/-- The text of a condition. -/
def condition (t : Target) (bindings : Bindings) : Condition → Except Failure String
  | .foreign kind _ => unsupported t kind
  | .compare left operator right => do
    let l ← expression t bindings left
    let r ← expression t bindings right
    let text ← (t.binary operator l r).mapError .template
    (t.conditionFormat.fill text).mapError .template

/-! ## Lines -/

/-- A line of output: the depth at which it stands, and its text. -/
structure Line where
  depth : Int
  text : String
  deriving DecidableEq

/-- A unit of text, several times. -/
def repeated (count : Nat) (text : String) : String := String.join (List.replicate count text)

/-- What stands in front of a line at a depth; a negative depth counts as none. -/
def indentation (t : Target) (depth : Int) : String := repeated depth.toNat t.indentUnit

/-- A line as it is written. -/
def Line.render (t : Target) (l : Line) : String := indentation t l.depth ++ l.text

/-- Where the emitter stands. -/
structure State where
  lines : List Line := []
  depth : Int := 0
  bindings : Bindings := []
  /-- The kinds of the nodes that comment lines were written for. -/
  dropped : List String := []
  deriving DecidableEq

end Emission

/-- A step of the emitter. A failure keeps what was written before it. -/
abbrev Emission (α : Type) : Type := EStateM Emission.Failure Emission.State α

namespace Emission

/-- Takes a result or its failure into the emitter. -/
def lift {α : Type} : Except Failure α → Emission α
  | .ok a => pure a
  | .error failure => throw failure

/-- Adds a line at the current depth. -/
def line (text : String) : Emission Unit :=
  modify fun s => { s with lines := s.lines ++ [⟨s.depth, text⟩] }

/-- Adds a simple statement. -/
def simple (t : Target) (text : String) : Emission Unit := line (text ++ t.terminator)

/-- Adds lines that are not indented. -/
def frame (texts : List String) : Emission Unit :=
  modify fun s => { s with lines := s.lines ++ texts.map (⟨0, ·⟩) }

/-- The lines as one text. -/
def State.output (t : Target) (s : State) : String :=
  "\n".intercalate (s.lines.map (Line.render t)) ++ "\n"

/-- Adds the comment line for a node of a kind. -/
def commentOut (t : Target) (kind : String) : Emission Unit := do
  modify fun s => { s with dropped := s.dropped ++ [kind] }
  line (t.commentMark ++ " Unsupported statement type: " ++ kind)

/-- Moves the depth. -/
def indent (levels : Int) : Emission Unit :=
  modify fun s => { s with depth := s.depth + levels }

/-- Records the kind of a name. -/
def bind (name : String) (kind : ValueKind) : Emission Unit :=
  modify fun s => { s with bindings := s.bindings.put name kind }

/-- The text of an expression under the current bindings. -/
def expressionText (t : Target) (e : Expression) : Emission String := do
  lift (expression t (← get).bindings e)

/-- The text of a condition under the current bindings. -/
def conditionText (t : Target) (c : Condition) : Emission String := do
  lift (condition t (← get).bindings c)

/-! ## Blocks -/

/-- Opens a block below a header. -/
def openBlock (t : Target) (header : String) : Emission Unit := do
  line (match t.blockStyle with
    | .colon => header ++ ":"
    | .braces => header ++ " \x7b")
  indent 1

/-- The header of a further branch, which in brace style closes the branch before it. -/
def continuation (t : Target) (header : String) : String :=
  match t.blockStyle with
  | .braces => "\x7d " ++ header
  | .colon => header

/-- Closes the last block of a statement. -/
def closeBlock (t : Target) : Emission Unit :=
  match t.blockStyle with
  | .braces => line "\x7d"
  | .colon => pure ()

/-- Adds the statement that fills a block without statements. -/
def fillIfEmpty (t : Target) (body : List Statement) : Emission Unit :=
  match body, t.emptyBlock with
  | [], some filler => line filler
  | _, _ => pure ()

/-- Runs the emitter for one statement. Under the comment policy a statement that cannot be
expressed takes back its lines, but not the kinds it recorded, and is replaced by a comment line. -/
def guarded (t : Target) (policy : Policy) (emit : Emission Unit) : Emission Unit := do
  let before ← get
  tryCatch emit fun failure =>
    match policy, failure with
    | .comment, .unsupported kind _ => do
      modify fun s => { s with lines := before.lines, depth := before.depth }
      commentOut t kind
    | _, _ => throw failure

/-! ## Statements -/

mutual

/-- Adds the lines of a statement. -/
def construct (t : Target) (policy : Policy) : Statement → Emission Unit
  | .foreign kind _ => lift (unsupported t kind)
  | .declare name initializer => do
    let kind := valueKind (← get).bindings initializer
    bind name kind
    let value ← expressionText t initializer
    let text ← lift ((t.declaration.fillNamed
      [("type", t.typeName kind), ("name", name), ("value", value)]).mapError .template)
    simple t text
  | .assign name value => do
    let value ← expressionText t value
    let text ← lift ((t.assignment.fillNamed [("name", name), ("value", value)]).mapError .template)
    simple t text
  | .evaluate e => do simple t (← expressionText t e)
  | .print value => do
    let kind := valueKind (← get).bindings value
    let template ← lift ((t.printTemplate kind).mapError .template)
    let value ← expressionText t value
    let text ← lift ((template.fillNamed [("value", value)]).mapError .template)
    simple t text
  | .branch c body rest => do
    openBlock t (t.ifKeyword ++ " " ++ (← conditionText t c))
    fillIfEmpty t body
    each t policy body
    indent (-1)
    continueBranch t policy rest
    closeBlock t
  | .loop c body => do
    openBlock t (t.whileKeyword ++ " " ++ (← conditionText t c))
    fillIfEmpty t body
    each t policy body
    indent (-1)
    closeBlock t

/-- Adds the lines of what follows the body of a branch, up to its last block. -/
def continueBranch (t : Target) (policy : Policy) : Otherwise → Emission Unit
  | .nothing => pure ()
  | .last body => do
    openBlock t (continuation t t.elseKeyword)
    fillIfEmpty t body
    each t policy body
    indent (-1)
  | .elseIf c body rest => do
    openBlock t (continuation t (t.elseIfKeyword ++ " " ++ (← conditionText t c)))
    fillIfEmpty t body
    each t policy body
    indent (-1)
    continueBranch t policy rest

/-- Adds the lines of statements, each of which the policy guards. -/
def each (t : Target) (policy : Policy) : List Statement → Emission Unit
  | [] => pure ()
  | s :: ss => do
    guarded t policy (construct t policy s)
    each t policy ss

end

/-- Adds the lines of a statement under the policy. -/
def statement (t : Target) (policy : Policy) (s : Statement) : Emission Unit :=
  guarded t policy (construct t policy s)

/-- Adds the lines of a sequence of statements. -/
def body (t : Target) (policy : Policy) (statements : List Statement) : Emission Unit := do
  fillIfEmpty t statements
  each t policy statements

/-- Adds a header and a block of statements, without the line that closes it. -/
def block (t : Target) (policy : Policy) (header : String) (statements : List Statement) :
    Emission Unit := do
  openBlock t header
  body t policy statements
  indent (-1)

/-- Adds the lines of a program and gives all lines as one text. -/
def program (t : Target) (policy : Policy) : Program → Emission String
  | .foreign kind _ => do
    match policy with
    | .fail => lift (unsupported t kind)
    | .comment => commentOut t kind
    return (← get).output t
  | .statements statements => do
    frame t.opening
    modify fun s => { s with depth := t.bodyLevel }
    body t policy statements
    modify fun s => { s with depth := 0 }
    frame t.closing
    return (← get).output t

/-- The text of a program in the syntax of a target, with the kinds of the nodes that were commented
out. -/
def run (t : Target) (policy : Policy) (p : Program) : Except Failure (String × List String) :=
  match EStateM.run (program t policy p) {} with
  | .ok text s => .ok (text, s.dropped)
  | .error failure _ => .error failure

end Emission

/-- The text of a program in the syntax of a target. -/
def emit (t : Target) (policy : Policy) (p : Program) : Except Emission.Failure String :=
  Prod.fst <$> Emission.run t policy p

end Boli
