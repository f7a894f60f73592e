import Boli.Emission
import Boli.Program.Parser
import Boli.Target.Registry
import Boli.Text.DecimalDigit
import Boli.Text.Loose

/-!
The arguments of the command line.

A command line names one source and any options in any order. A long option may be cut short as long
as it stays the only one with that beginning, and takes its value after `=` or as the next argument;
the values of short options may also follow directly, and short options without values may stand
together. Everything after `--` is a value. An argument that looks like a negative number, or that
is no option and has a blank in it, is a value too.

Options act in the order in which they stand, and help ends the reading. An unknown option or a value
too many does not stop those around it from acting first: it only counts at the end. An abbreviation
of several options counts before any option acts, and an option without its value, or with one that it
does not take, when its turn comes.

The mark `--` as the value that is attached to an option, as in `--out=--`, is no value. So it was up
to version 3.11.7 of the library that reads the arguments; from 3.11.8 on the mark is the value there.
In that version, too, a letter that is no option makes an argument with several short options unfit
before any of them acts.
-/

set_option autoImplicit false

namespace Boli.Cli

/-- An option. -/
inductive Flag where
  | help
  /-- The source is program text, not a path. -/
  | string
  | target
  | out
  | stdout
  | dumpTokens
  | dumpAst
  | keywords
  | permissive
  | onUnsupported
  | verbose
  deriving DecidableEq

/-- The spellings of all options. -/
def spellings : List (String × Flag) :=
  [("-h", .help), ("--help", .help), ("-s", .string), ("--string", .string), ("-t", .target),
    ("--target", .target), ("-o", .out), ("--out", .out), ("--stdout", .stdout),
    ("--dump-tokens", .dumpTokens), ("--dump-ast", .dumpAst), ("--keywords", .keywords),
    ("--permissive", .permissive), ("--on-unsupported", .onUnsupported), ("-v", .verbose),
    ("--verbose", .verbose)]

/-- Whether an option has a value. -/
def Flag.takesValue : Flag → Bool
  | target | out | keywords | onUnsupported => true
  | _ => false

/-- What the arguments ask for. -/
structure Arguments where
  /-- A path, or program text. -/
  source : String
  isString : Bool := false
  /-- An identifier of a target, in lower case. -/
  target : Option String := none
  out : Option String := none
  toStdout : Bool := false
  dumpTokens : Bool := false
  dumpAst : Bool := false
  keywords : Option String := none
  strictness : Strictness := .strict
  /-- The policy; none if the option was given the mark `--` for its value, which names none. -/
  policy : Option Policy := some .fail
  verbose : Bool := false
  /-- The characters that stand for lone surrogates in the texts above, if there are any. -/
  lone : Option Text.Block := none
  deriving DecidableEq

/-- The output path; an empty one counts as absent. -/
def Arguments.outPath (a : Arguments) : Option String := a.out.filter (· ≠ "")

/-- The path of the keyword file; an empty one counts as absent. -/
def Arguments.keywordsPath (a : Arguments) : Option String := a.keywords.filter (· ≠ "")

/-- Why arguments do not lead to a run. -/
inductive Stop where
  /-- Help is asked for. -/
  | help
  /-- The arguments do not fit. -/
  | usage
  deriving DecidableEq

/-! ## Sorting arguments -/

/-- An argument by its role. -/
inductive Item where
  /-- An option, whether in a short spelling, and the value or further options attached to it. -/
  | option (flag : Flag) (short : Bool) (attached : Option (List Char))
  | value (text : String)
  /-- The mark `--`. -/
  | terminator
  /-- What looks like an option and is none. -/
  | unknown
  deriving DecidableEq

/-- The option of a spelling. -/
def flagOf? (spelling : List Char) : Option Flag :=
  Dictionary.get? (String.ofList spelling) spellings

/-- Splits an argument at its first equals sign. -/
def splitEquals (arg : List Char) : Option (List Char × List Char) :=
  if arg.contains '=' then
    some (arg.takeWhile (· != '='), (arg.dropWhile (· != '=')).drop 1)
  else none

/-- The options that an argument may be an abbreviation of, or the short option that it begins
with. -/
def candidates (arg : List Char) : List Item :=
  if arg.take 2 = ['-', '-'] then
    let (start, attached) := match splitEquals arg with
      | some (name, v) => (name, some v)
      | none => (arg, none)
    (spellings.filter fun (s, _) => start.isPrefixOf s.toList).map fun (_, flag) =>
      .option flag false attached
  else ((flagOf? (arg.take 2)).map fun flag => .option flag true (some (arg.drop 2))).toList

/-- Whether a text is a run of digits, or digits with a point before the last run, after a minus. -/
def looksNegative (arg : List Char) : Bool :=
  let isDigit (c : Char) := (Text.digitValue? c).isSome
  let body := if arg.getLast? = some '\n' then arg.dropLast else arg
  match body with
  | '-' :: rest =>
    match rest.dropWhile isDigit with
    | [] => !rest.isEmpty
    | '.' :: fraction => !fraction.isEmpty && fraction.all isDigit
    | _ => false
  | _ => false

/-- The role of an argument that is not behind `--` and not `--` itself. -/
def classify (arg : String) : Except Stop Item :=
  let cs := arg.toList
  match cs with
  | '-' :: _ :: _ =>
    match flagOf? cs with
    | some flag => .ok (.option flag (cs.length = 2) none)
    | none =>
      match (splitEquals cs).bind fun (name, v) => (flagOf? name).map fun flag =>
          Item.option flag (name.length = 2) (some v) with
      | some item => .ok item
      | none =>
        match candidates cs with
        | [item] => .ok item
        | [] => .ok (if looksNegative cs || cs.contains ' ' then .value arg else .unknown)
        | _ => .error .usage
  | _ => .ok (.value arg)

/-- The roles of all arguments. -/
def sort : List String → Except Stop (List Item)
  | [] => .ok []
  | arg :: args =>
    if arg = "--" then .ok (.terminator :: args.map .value)
    else do
      let item ← classify arg
      return item :: (← sort args)

/-! ## Options and their values -/

/-- An option that is set, with its value if it takes one. The value is none if the option was given
the mark `--` for it. -/
inductive Setting where
  | plain (flag : Flag)
  | valued (flag : Flag) (value : Option String)
  deriving DecidableEq

/-- The value that is attached to an option; the mark `--` is none. -/
def attachedValue (v : List Char) : Option String :=
  if v = ['-', '-'] then none else some (String.ofList v)

/-- The settings of an option and the characters behind its letter: its value, or further options.
Gives the option that still waits for a value, if the last one does. -/
def cluster (flag : Flag) : List Char → Except Stop (List Setting × Option Flag)
  | [] => .ok (if flag.takesValue then ([], some flag) else ([.plain flag], none))
  | c :: cs =>
    if flag.takesValue then .ok ([.valued flag (attachedValue (c :: cs))], none)
    else
      match flagOf? ['-', c] with
      | some next =>
        (fun (settings, waiting) => (.plain flag :: settings, waiting)) <$> cluster next cs
      | none => .error .usage

/-- The settings of an option with what is attached to it. -/
def settingsOf (flag : Flag) (short : Bool) :
    Option (List Char) → Except Stop (List Setting × Option Flag)
  | none => cluster flag []
  | some v =>
    if flag.takesValue then .ok ([.valued flag (attachedValue v)], none)
    else if short ∧ ¬v.isEmpty then cluster flag v
    else .error .usage

/-! ## Reading arguments -/

/-- The arguments read so far; the source is missing until its value comes. -/
structure Reading where
  source : Option String := none
  arguments : Arguments := { source := "" }
  /-- Whether there is an unknown option or a value too many. -/
  surplus : Bool := false

/-- Sets an option without a value. -/
def Reading.set (r : Reading) (flag : Flag) : Except Stop Reading :=
  let a := r.arguments
  match flag with
  | .help => .error .help
  | .string => .ok { r with arguments := { a with isString := true } }
  | .stdout => .ok { r with arguments := { a with toStdout := true } }
  | .dumpTokens => .ok { r with arguments := { a with dumpTokens := true } }
  | .dumpAst => .ok { r with arguments := { a with dumpAst := true } }
  | .permissive => .ok { r with arguments := { a with strictness := .permissive } }
  | .verbose => .ok { r with arguments := { a with verbose := true } }
  | .target | .out | .keywords | .onUnsupported => .error .usage

/-- Sets an option with a value. A target has to be registered, and a policy known. -/
def Reading.setValue (r : Reading) (flag : Flag) (v : Option String) : Except Stop Reading :=
  let a := r.arguments
  match flag, v with
  | .target, none => .ok { r with arguments := { a with target := none } }
  | .target, some s =>
    let s := Target.lower s
    if (Registry.standard.get? s).isSome then
      .ok { r with arguments := { a with target := some s } }
    else .error .usage
  | .out, _ => .ok { r with arguments := { a with out := v } }
  | .keywords, _ => .ok { r with arguments := { a with keywords := v } }
  | .onUnsupported, none => .ok { r with arguments := { a with policy := none } }
  | .onUnsupported, some s =>
    match Policy.ofJson (.text s) with
    | .ok policy => .ok { r with arguments := { a with policy := some policy } }
    | .error _ => .error .usage
  | .help, _ | .string, _ | .stdout, _ | .dumpTokens, _ | .dumpAst, _ | .permissive, _
  | .verbose, _ => .error .usage

/-- Lets options act in their order. -/
def Reading.apply (r : Reading) : List Setting → Except Stop Reading
  | [] => .ok r
  | .plain flag :: settings => do (← r.set flag).apply settings
  | .valued flag v :: settings => do (← r.setValue flag v).apply settings

/-- What may come next. -/
inductive Next where
  | anything
  /-- The value of an option has to come. The options that stand before it in its argument have not
  acted yet. -/
  | value (before : List Setting) (flag : Flag)
  /-- The source has just come, and the mark `--` may stand behind it. -/
  | mark
  deriving DecidableEq

/-- Reads arguments in order. The mark `--` may stand before the source or directly behind it. -/
def Reading.items (r : Reading) (next : Next) : List Item → Except Stop Reading
  | [] =>
    match next with
    | .value _ _ => .error .usage
    | _ => .ok r
  | item :: rest =>
    match next, item with
    | .value before flag, .value v => do
      (← r.apply (before ++ [.valued flag (some v)])).items .anything rest
    | .value _ _, _ => .error .usage
    | .mark, .terminator => r.items .anything rest
    | _, .option flag short attached => do
      match ← settingsOf flag short attached with
      | (settings, some flag) => r.items (.value settings flag) rest
      | (settings, none) => (← r.apply settings).items .anything rest
    | _, .value v =>
      if r.source.isSome then { r with surplus := true }.items .anything rest
      else { r with source := some v }.items .mark rest
    | .anything, .terminator => { r with surplus := r.surplus || r.source.isSome }.items .anything rest
    | _, .unknown => { r with surplus := true }.items .anything rest

/-- Reads a command line. -/
def Arguments.parse (argv : List String) : Except Stop Arguments := do
  let r ← Reading.items {} .anything (← sort argv)
  match r.source with
  | some source => if r.surplus then throw .usage else return { r.arguments with source := source }
  | none => throw .usage

end Boli.Cli
