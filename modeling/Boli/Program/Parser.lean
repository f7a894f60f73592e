import Boli.Program
import Boli.Text.Numeral
import Boli.Token

/-!
From tokens to programs.

    program   := statement*
    statement := declare | print | branch | loop | simple
    declare   := VAR IDENTIFIER '=' expression ';'?
    print     := PRINT expression ';'?
    branch    := IF condition block (ELSE_IF condition block)* (ELSE block)?
    loop      := WHILE condition LOOP_START? block
    simple    := IDENTIFIER ('=' expression)? ';'?
    block     := '{' statement* '}' | statement
    condition := primary COMPARISON primary
    expression := primary (ARITHMETIC primary)?
    primary   := NUMBER | STRING | IDENTIFIER

The parser looks one token ahead and stops at the first token that does not fit, which it leaves
unread. In permissive mode a token that begins no statement is passed over where a statement is
expected; the parser remembers which tokens it passed over.
-/

set_option autoImplicit false

namespace Boli

/-- How a token that begins no statement is treated. -/
inductive Strictness where
  /-- It is an error. -/
  | strict
  /-- It is passed over. -/
  | permissive
  deriving DecidableEq

namespace Parser

/-- What the grammar asks for. -/
inductive Expectation where
  | statement
  | comparison
  | primary
  | kind (kind : Token.Kind)
  | exactly (kind : Token.Kind) (value : String)
  | other (description : String)
  deriving DecidableEq

/-- The wording of an expectation. -/
def Expectation.text : Expectation → String
  | statement => "start of statement (VAR, PRINT, IF, WHILE, IDENTIFIER)"
  | comparison => "comparison operator (< <= == > >=)"
  | primary => "NUMBER or STRING or IDENTIFIER"
  | kind k => k.name
  | exactly k value => k.name ++ " " ++ Text.quoted value
  | other description => description

/-- Why tokens are no program. -/
inductive Failure where
  /-- A token that does not fit. -/
  | unexpected (expected : Expectation) (found : Token)
  /-- A number token whose value is not read as a number. -/
  | numeral (fault : Text.Numeral.Fault)
  deriving DecidableEq

/-- How a message shows a token. -/
def describe (t : Token) : String :=
  if t.kind = .eof then t.kind.name else t.kind.name ++ " " ++ Text.quoted t.value

/-- The place of a token in a message; a token without a line has none. -/
def location (t : Token) : String :=
  if t.line = 0 then ""
  else " (line " ++ toString t.line ++ ", col " ++ toString t.column ++ ")"

/-- The message that reports a failure. -/
def Failure.message : Failure → String
  | unexpected expected found =>
    "Expected " ++ expected.text ++ ", got " ++ describe found ++ location found
  | numeral fault => fault.message

/-- Where the parser stands: the tokens that are left, how many are read, and which of those were
passed over, by index. -/
structure State where
  rest : List Token
  position : Nat := 0
  skipped : List (Nat × Token) := []
  deriving DecidableEq

end Parser

/-- A step of the parser. A failure keeps the state in which it arose. -/
abbrev Parser (α : Type) : Type := EStateM Parser.Failure Parser.State α

namespace Parser

/-! ## Single tokens -/

/-- The next token; behind the last one it is the end of the input. -/
def current : Parser Token := do return (← get).rest.headD Token.endOfInput

/-- Takes the next token. At the end the position still moves on. -/
def advance : Parser Token := do
  let t ← current
  modify fun s => { s with rest := s.rest.tail, position := s.position + 1 }
  return t

/-- Whether nothing is left. -/
def atEnd : Parser Bool := do return (← current).kind = .eof

/-- Whether the next token has a kind. -/
def check (kind : Token.Kind) : Parser Bool := do return (← current).kind = kind

/-- Whether the next token has a kind and a value. -/
def checkValue (kind : Token.Kind) (value : String) : Parser Bool := do
  let t ← current
  return t.kind = kind && t.value = value

/-- Fails at the next token. -/
def fail {α : Type} (expected : Expectation) : Parser α := do
  throw (.unexpected expected (← current))

/-- Takes the next token, which must have a kind. -/
def expect (kind : Token.Kind) : Parser Token := do
  if ← check kind then advance else fail (.kind kind)

/-- Takes the next token, which must have a kind and a value. -/
def expectValue (kind : Token.Kind) (value : String) : Parser Token := do
  if ← checkValue kind value then advance else fail (.exactly kind value)

/-- Takes the next token if it has a kind. -/
def optional (kind : Token.Kind) : Parser (Option Token) := do
  if ← check kind then return some (← advance) else return none

/-- Takes the next token and remembers that it was passed over. -/
def skip : Parser Unit := do
  let t ← current
  modify fun s => { s with skipped := s.skipped ++ [(s.position, t)] }
  let _ ← advance

/-! ## Expressions -/

/-- The operators of expressions. -/
def arithmeticOperators : List String := ["+", "-", "*", "/"]

/-- The operators of conditions. -/
def comparisonOperators : List String := ["<", "<=", "==", ">", ">="]

/-- The value of a number token. -/
def numberOf (t : Token) : Parser Expression :=
  match Text.Numeral.read t.value with
  | .ok n => return .number n
  | .error fault => throw (.numeral fault)

/-- A literal or a name. -/
def primary : Parser Expression := do
  let t ← current
  match t.kind with
  | .number => do let _ ← advance; numberOf t
  | .string => do let _ ← advance; return .text t.value
  | .identifier => do let _ ← advance; return .identifier t.value
  | _ => fail .primary

/-- A primary, or one operation on two. -/
def expression : Parser Expression := do
  let left ← primary
  let t ← current
  if t.kind = .operator ∧ t.value ∈ arithmeticOperators then
    let _ ← advance
    let right ← primary
    return .binary t.value left right
  else return left

/-- A comparison of two primaries. -/
def condition : Parser Condition := do
  let left ← primary
  let t ← current
  if t.kind = .operator ∧ t.value ∈ comparisonOperators then
    let _ ← advance
    let right ← primary
    return .compare left t.value right
  else fail .comparison

/-! ## Simple statements -/

/-- The sign between a name and its value. -/
def assignOperator : String := "="

/-- A declaration. -/
def declaration : Parser Statement := do
  let _ ← expect (.keyword .var)
  let name ← expect .identifier
  let _ ← expectValue .operator assignOperator
  let initializer ← expression
  let _ ← optional .semicolon
  return .declare name.value initializer

/-- A print statement. -/
def printing : Parser Statement := do
  let _ ← expect (.keyword .print)
  let value ← expression
  let _ ← optional .semicolon
  return .print value

/-- An assignment, or a name by itself. -/
def simple : Parser Statement := do
  let name ← expect .identifier
  if ← checkValue .operator assignOperator then
    let _ ← advance
    let value ← expression
    let _ ← optional .semicolon
    return .assign name.value value
  else
    let _ ← optional .semicolon
    return .evaluate (.identifier name.value)

/-! ## Statements

The functions on nested statements take fuel, one unit for each call. Along a chain of calls at most
two in a row read no token, so three units for each token that is left are enough. -/

mutual

/-- A statement, or nothing if a token was passed over. -/
def statementUpTo (mode : Strictness) : Nat → Parser (Option Statement)
  | 0 => fail .statement
  | fuel + 1 => do
    match (← current).kind with
    | .keyword .var => return some (← declaration)
    | .keyword .print => return some (← printing)
    | .keyword .ifStart => return some (← branchUpTo mode fuel)
    | .keyword .whileStart => return some (← loopUpTo mode fuel)
    | .identifier => return some (← simple)
    | .eof => fail .statement
    | _ =>
      match mode with
      | .strict => fail .statement
      | .permissive => do skip; return none

/-- A branch with all its continuations. -/
def branchUpTo (mode : Strictness) : Nat → Parser Statement
  | 0 => fail .statement
  | fuel + 1 => do
    let _ ← expect (.keyword .ifStart)
    let c ← condition
    let body ← blockUpTo mode fuel
    let rest ← otherwiseUpTo mode fuel
    return .branch c body rest

/-- What follows the body of a branch. -/
def otherwiseUpTo (mode : Strictness) : Nat → Parser Otherwise
  | 0 => fail .statement
  | fuel + 1 => do
    if ← check (.keyword .elseIf) then
      let _ ← advance
      let c ← condition
      let body ← blockUpTo mode fuel
      let rest ← otherwiseUpTo mode fuel
      return .elseIf c body rest
    else if ← check (.keyword .elseStart) then
      let _ ← advance
      return .last (← blockUpTo mode fuel)
    else return .nothing

/-- A loop. -/
def loopUpTo (mode : Strictness) : Nat → Parser Statement
  | 0 => fail .statement
  | fuel + 1 => do
    let _ ← expect (.keyword .whileStart)
    let c ← condition
    let _ ← optional (.keyword .loopStart)
    let body ← blockUpTo mode fuel
    return .loop c body

/-- A block: statements between braces, or one statement. -/
def blockUpTo (mode : Strictness) : Nat → Parser (List Statement)
  | 0 => fail .statement
  | fuel + 1 => do
    if ← check .openBrace then
      let _ ← advance
      bracedUpTo mode fuel
    else return (← statementUpTo mode fuel).toList

/-- Statements up to the closing brace. -/
def bracedUpTo (mode : Strictness) : Nat → Parser (List Statement)
  | 0 => fail .statement
  | fuel + 1 => do
    if ← check .closeBrace then
      let _ ← advance
      return []
    else if ← atEnd then fail (.kind .closeBrace)
    else
      let s ← statementUpTo mode fuel
      let ss ← bracedUpTo mode fuel
      return s.toList ++ ss

end

/-- Fuel for everything that can be read from a state. -/
def State.fuel (s : State) : Nat := 3 * s.rest.length + 3

/-- A statement, or nothing if a token was passed over. -/
def statement (mode : Strictness) : Parser (Option Statement) := do
  statementUpTo mode (← get).fuel

/-- A branch with all its continuations. -/
def branch (mode : Strictness) : Parser Statement := do branchUpTo mode (← get).fuel

/-- A loop. -/
def loop (mode : Strictness) : Parser Statement := do loopUpTo mode (← get).fuel

/-- A block: statements between braces, or one statement. -/
def block (mode : Strictness) : Parser (List Statement) := do blockUpTo mode (← get).fuel

/-! ## Programs -/

/-- Statements up to the end, at most as many as there is fuel. -/
def statementsUpTo (mode : Strictness) : Nat → Parser (List Statement)
  | 0 => return []
  | fuel + 1 => do
    if ← atEnd then return []
    else
      let s ← statement mode
      let ss ← statementsUpTo mode fuel
      return s.toList ++ ss

/-- A program. Each statement takes a token, so the number of tokens is enough fuel. -/
def program (mode : Strictness) : Parser Program := do
  return .statements (← statementsUpTo mode ((← get).rest.length + 1))

/-- The state before the first of the given tokens. -/
def State.start (tokens : List Token) : State := { rest := tokens }

end Parser

/-- The program of a sequence of tokens, or the first failure. -/
def parse (mode : Strictness) (tokens : List Token) : Except Parser.Failure Program :=
  match (Parser.program mode).run (.start tokens) with
  | .ok p _ => .ok p
  | .error failure _ => .error failure

end Boli
