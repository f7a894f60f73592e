import Boli.Cli.Arguments
import Boli.Compile
import Boli.Json.Writer
import Boli.Keyword.File
import Boli.Program.Data
import Boli.Target.Selection

/-!
A run of the compiler from the command line, on a tree of files.

A run reads its keyword file and its source, compiles, and either prints the code or writes it to
one file. It is a function from the arguments and the files to the exit status, what is printed,
what is logged, and the files afterwards. Errors in the arguments give status 2; errors that are
reported give status 1; errors that no report is made of end the run as they are.

The arguments may hold lone surrogates (`runLoose`). A text with one of them cannot be encoded. This
matters for paths, for the code, and for a source that does not get to tokens, where the bytes in front
of the fault are counted. For arguments that are texts it never does (`run`).
-/

set_option autoImplicit false

namespace Boli.Cli

open Boli.Keyword (Table)
open Boli.Text (Block CodePoint Loose Surrogate)

/-! ## The log -/

/-- The severity of a log line. -/
inductive Level where
  | debug
  | info
  | warning
  | error
  deriving DecidableEq

/-- The name of a severity. -/
def Level.name : Level → String
  | debug => "DEBUG"
  | info => "INFO"
  | warning => "WARNING"
  | error => "ERROR"

/-- A line of the log. -/
structure LogLine where
  level : Level
  message : String
  deriving DecidableEq

/-- A line of the log as it is printed. -/
def LogLine.text (l : LogLine) : String := l.level.name ++ ": " ++ l.message ++ "\n"

/-- The log as it is printed: without debugging lines unless they are asked for. -/
def logText (verbose : Bool) (lines : List LogLine) : String :=
  String.join ((lines.filter fun l => verbose || l.level ≠ .debug).map LogLine.text)

/-! ## Errors -/

/-- Why a run stops. -/
inductive RunError where
  | policy (error : Policy.Unknown)
  | target (error : Target.Unknown)
  | keywords (error : Keyword.FileError)
  | source (fault : FileTree.TextFault)
  | compile (error : CompileError)
  | output (fault : FileTree.Fault) (path : String)

/-- How a run ends with an error. -/
inductive Treatment where
  /-- It is reported as an error of the program or its configuration. -/
  | compilation
  /-- It is reported as an error in reading or writing. -/
  | inputOutput
  /-- It is not reported. -/
  | escapes
  deriving DecidableEq

/-- The treatment of a fault at a path. -/
def faultTreatment (fault : FileTree.Fault) : Treatment :=
  if fault.isNumbered then .inputOutput else .escapes

/-- The treatment of an error. -/
def RunError.treatment : RunError → Treatment
  | policy _ => .escapes
  | target _ => .compilation
  | keywords (.table (.compositeKind _)) => .escapes
  | keywords _ => .compilation
  | source (.unreadable fault _) => faultTreatment fault
  | source (.notUtf8 _) => .escapes
  | compile error => if error.isDiagnostic then .compilation else .escapes
  | output fault _ => faultTreatment fault

/-- The message of an error. -/
def RunError.message : RunError → String
  | policy error => error.message
  | target error => error.message
  | keywords error => error.message
  | source (.unreadable fault path) => fault.message path
  | source (.notUtf8 fault) => fault.message
  | compile error => error.message
  | output fault path => fault.message path

/-! ## Encoding -/

/-- A text of the arguments as it was given. -/
def Arguments.loose (a : Arguments) (s : String) : Loose :=
  match a.lone with
  | none => .ofString s
  | some block => .ofText block s

/-- The bytes of a text that comes from the source. The text of a file holds no surrogates. -/
def Arguments.encode (a : Arguments) (s : String) : Except FileTree.Fault (List UInt8) :=
  match if a.isString then (a.loose s).fault? (fun _ => false) else none with
  | some fault => .error (.unencodable fault)
  | none => .ok (Text.Utf8.encode s)

/-- Whether there are bytes for a path. Some surrogates stand for bytes in paths. -/
def Arguments.checkPath (a : Arguments) (path : String) : Except FileTree.Fault Unit :=
  match (a.loose path).fault? Surrogate.isByte with
  | some fault => .error (.unencodable fault)
  | none => .ok ()

/-! ## Steps of a run -/

/-- What a run has printed and logged so far, and the files as they are now. -/
structure Session where
  tree : FileTree
  printed : String := ""
  log : List LogLine := []

/-- A step of a run. -/
abbrev Run (α : Type) : Type := EStateM RunError Session α

/-- Takes a result or its failure into a run. -/
def lift {ε α : Type} (cause : ε → RunError) : Except ε α → Run α
  | .ok a => pure a
  | .error e => throw (cause e)

/-- Adds a line to the log. -/
def log (level : Level) (message : String) : Run Unit :=
  modify fun s => { s with log := s.log ++ [⟨level, message⟩] }

/-- Prints a text. -/
def print (text : String) : Run Unit := modify fun s => { s with printed := s.printed ++ text }

/-- A text set flush left in a column. -/
def flushLeft (width : Nat) (s : String) : String :=
  s ++ String.ofList (List.replicate (width - s.length) ' ')

/-- The listing of tokens. -/
def tokenListing (tokens : List Token) : String :=
  "Tokens:\n" ++ String.join (tokens.map fun t =>
    "  " ++ flushLeft 12 t.kind.name ++ " " ++ Text.quoted t.value ++ "\n")

/-- The listing of a program. -/
def programListing (p : Program) : String := "AST:\n" ++ p.toJson.indented ++ "\n"

/-- The log line for a token that was passed over. -/
def skippedText (t : Token) : String :=
  "Skipping token Token(" ++ t.kind.name ++ ", " ++ Text.quoted t.value ++ ") at line " ++
    toString t.line ++ ", col " ++ toString t.column

/-- The keyword table of a run. -/
def readTable (a : Arguments) : Run Table := do
  match a.keywordsPath with
  | none => return .standard
  | some path =>
    lift (.keywords ∘ (.unreadable · path)) (a.checkPath path)
    let configuration ← lift .keywords (Keyword.loadConfiguration (← get).tree path)
    let added ← lift (.keywords ∘ .table) (Table.standard.additions configuration)
    log .debug ("Keyword table extended with " ++ toString added.length ++ " alias(es)")
    lift (.keywords ∘ .table) (Table.standard.extend added)

/-- The source text of a run. -/
def readSource (a : Arguments) : Run String := do
  if a.isString then return a.source
  else
    lift (.source ∘ (.unreadable · a.source)) (a.checkPath a.source)
    return String.ofList (← lift .source ((← get).tree.readText a.source))

/-- The tokens of a source text. A failure tells the number of bytes in front of it. -/
def Arguments.tokens (a : Arguments) (table : Table) (source : String) :
    Except RunError (List Token) :=
  match tokenize table source with
  | .ok tokens => .ok tokens
  | .error failure => do
    let before := String.ofList (source.toList.take failure.place.offset)
    let _ ← (a.encode before).mapError (.source ∘ (.unreadable · a.source))
    throw (.compile (.lexical failure))

/-- Reads a source text into tokens. -/
def readTokens (a : Arguments) (table : Table) (source : String) : Run (List Token) := do
  let tokens ← lift id (a.tokens table source)
  log .debug ("Lexed " ++ toString tokens.length ++ " token(s) from " ++ toString source.length ++
    " character(s)")
  return tokens

/-- The program of a sequence of tokens. Tokens that are passed over are logged, whatever becomes of
the rest. -/
def readProgram (mode : Strictness) (tokens : List Token) : Run Program := do
  let result := (Parser.program mode).run (.start tokens)
  let skipped := match result with
    | .ok _ s => s.skipped
    | .error _ s => s.skipped
  skipped.forM fun (_, t) => log .debug (skippedText t)
  match result with
  | .error failure _ => throw (.compile (.grammar failure))
  | .ok p _ =>
    match p with
    | .statements body =>
      log .debug ("Parsed " ++ toString body.length ++ " top-level statement(s)")
    | .foreign _ _ => pure ()
    return p

/-- The code of a program. Nodes that are commented out are logged. -/
def generate (t : Target) (policy : Policy) (p : Program) : Run String := do
  let (code, dropped) ← lift (.compile ∘ .emission) (Emission.run t policy p)
  dropped.forM fun kind =>
    log .warning ("Unsupported node " ++ kind ++ " on target " ++ t.name)
  return code

/-- Writes the code to the output file. The file is made or emptied when it is opened, and this comes
before the code is encoded. -/
def save (a : Arguments) (t : Target) (code : String) : Run Unit := do
  let path ← lift .target (Target.outputPath a.source a.out t.name)
  lift (.output · path) (a.checkPath path)
  let opened ← lift (.output · path) ((← get).tree.write path [])
  modify fun s => { s with tree := opened }
  let bytes ← lift (.output · path) (a.encode code)
  let written ← lift (.output · path) (opened.write path bytes)
  modify fun s => { s with tree := written }
  log .info ("Code saved to " ++ path)

/-- Prints the code. -/
def printCode (a : Arguments) (code : String) : Run Unit := do
  let _ ← lift (.output · "<stdout>") (a.encode code)
  print code

/-- Whether the code is printed and not written. -/
def Arguments.prints (a : Arguments) : Bool := a.toStdout || (a.isString && a.outPath.isNone)

/-- A whole run, which gives the code. -/
def session (a : Arguments) : Run String := do
  let policy ← match a.policy with
    | some policy => pure policy
    | none => throw (.policy ⟨.array []⟩)
  let t ← lift .target (Target.select a.target a.out)
  log .debug ("Selected target " ++ t.name)
  let table ← readTable a
  let source ← readSource a
  let tokens ← readTokens a table source
  if a.dumpTokens then print (tokenListing tokens)
  let program ← readProgram a.strictness tokens
  if a.dumpAst then print (programListing program)
  let code ← generate t policy program
  if a.prints then printCode a code else save a t code
  return code

/-! ## Outcomes -/

/-- How a run ends. -/
inductive Ending where
  | exit (status : Nat)
  | escaped (error : RunError)

/-- What a run leaves behind. -/
structure Outcome where
  ending : Ending
  /-- What is printed on the standard output. -/
  printed : String := ""
  /-- What is printed on the standard error output. -/
  logged : String := ""
  tree : FileTree

/-- The text that tells how the program is called. -/
def usage : String :=
  "usage: boli [-h] [-s] [-t TARGET] [-o OUTFILE] [--stdout] [--dump-tokens] [--dump-ast]\n" ++
  "            [--keywords JSON] [--permissive] [--on-unsupported POLICY] [-v] source\n"

/-- The report of an error. -/
def report (error : RunError) : List LogLine × Ending :=
  match error.treatment with
  | .compilation => ([⟨.error, "Compilation error: " ++ error.message⟩], .exit 1)
  | .inputOutput => ([⟨.error, "I/O error: " ++ error.message⟩], .exit 1)
  | .escapes => ([], .escaped error)

/-- Runs the compiler with arguments that have been read. -/
def runArguments (a : Arguments) (tree : FileTree) : Outcome :=
  match (session a).run { tree := tree } with
  | .ok _ s => ⟨.exit 0, s.printed, logText a.verbose s.log, s.tree⟩
  | .error error s =>
    let (lines, ending) := report error
    ⟨ending, s.printed, logText a.verbose (s.log ++ lines), s.tree⟩

/-- Runs the compiler with arguments that may have been read. -/
def start (parsed : Except Stop Arguments) (tree : FileTree) : Outcome :=
  match parsed with
  | .error .help => ⟨.exit 0, usage, "", tree⟩
  | .error .usage => ⟨.exit 2, "", usage, tree⟩
  | .ok a => runArguments a tree

/-- Runs the compiler with arguments that are texts. -/
def run (argv : List String) (tree : FileTree) : Outcome := start (Arguments.parse argv) tree

/-- Reads a command line that may hold lone surrogates. The characters that stand for them are none
that it holds. -/
def Arguments.parseLoose (argv : List Loose) : Except Stop Arguments := do
  let block := Block.free (argv.flatMap fun w => w.chars.map Char.toNat)
  let a ← Arguments.parse (argv.map fun w => w.text block)
  return { a with lone := if argv.any (·.any CodePoint.isLone) then some block else none }

/-- Runs the compiler with arguments that may hold lone surrogates. -/
def runLoose (argv : List Loose) (tree : FileTree) : Outcome :=
  start (Arguments.parseLoose argv) tree

end Boli.Cli
