import Boli.Emission
import Boli.Program.Parser
import Boli.Target.Registry
import Boli.Token.Lexer

/-!
From a source text to the text of a target: the target is looked up first, then the source is read
into tokens, the tokens into a program, and the program is emitted.
-/

set_option autoImplicit false

namespace Boli

open Boli.Keyword (Table)

/-- Why a source text is not compiled. -/
inductive CompileError where
  | target (error : Target.Unknown)
  | lexical (failure : Lexer.Failure)
  | grammar (failure : Parser.Failure)
  | emission (failure : Emission.Failure)
  deriving DecidableEq

/-- The message that reports an error. -/
def CompileError.message : CompileError → String
  | target error => error.message
  | lexical failure => failure.message
  | grammar failure => failure.message
  | emission failure => failure.message

/-- Whether an error tells of the source, the target or a node, rather than of a limit on the length
of numerals or of a template of the target. -/
def CompileError.isDiagnostic : CompileError → Bool
  | target _ | lexical _ => true
  | grammar (.unexpected _ _) => true
  | grammar (.numeral _) => false
  | emission (.unsupported _ _) => true
  | emission _ => false

/-- The text of a source for a target that has been looked up. -/
def compileFor (t : Target) (table : Table) (mode : Strictness) (policy : Policy)
    (source : String) : Except CompileError String := do
  let tokens ← (tokenize table source).mapError .lexical
  let program ← (parse mode tokens).mapError .grammar
  (emit t policy program).mapError .emission

/-- The text of a source for the target of an identifier. -/
def compile (source : String) (identifier : String) (table : Table) (mode : Strictness)
    (policy : Policy) : Except CompileError String := do
  let t ← (Target.find identifier).mapError .target
  compileFor t table mode policy source

end Boli
