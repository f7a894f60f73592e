import Boli.Main
import Boli.Token.Cursor
import Boli.Proofs.Grammar
import Boli.Proofs.Grammar.Attachment
import Boli.Proofs.Grammar.Follow
import Boli.Proofs.Grammar.Meaning
import Boli.Proofs.Grammar.Separators
import Boli.Proofs.Grammar.Unambiguity
import Boli.Proofs.Parsing
import Boli.Proofs.Parsing.Soundness
import Boli.Proofs.Parsing.Completeness
import Boli.Proofs.Parsing.Sentences
import Boli.Proofs.Parsing.Separators
import Boli.Proofs.Parsing.Concatenation
import Boli.Proofs.Parsing.Built
import Boli.Proofs.Parsing.Locality
import Boli.Proofs.Parsing.Completion
import Boli.Proofs.Parsing.Prefixes
import Boli.Proofs.Parsing.Pairs
import Boli.Proofs.Parsing.Alike
import Boli.Proofs.Parsing.Modes
import Boli.Proofs.Parsing.Skipping
import Boli.Proofs.Parsing.Sentinel
import Boli.Proofs.Parsing.Detachment
import Boli.Proofs.Parsing.Renumbering
import Boli.Proofs.Program
import Boli.Proofs.Program.Places
import Boli.Proofs.Template
import Boli.Proofs.Emission
import Boli.Proofs.Emission.Agreement
import Boli.Proofs.Emission.Context
import Boli.Proofs.Emission.Dropped
import Boli.Proofs.Emission.Formats
import Boli.Proofs.Emission.Rendering
import Boli.Proofs.Emission.Policies
import Boli.Proofs.Emission.Sums
import Boli.Proofs.Emission.Declarations
import Boli.Proofs.Emission.Placement
import Boli.Proofs.Emission.Recording
import Boli.Proofs.Lexemes
import Boli.Proofs.Tiling
import Boli.Proofs.Positions
import Boli.Proofs.Source
import Boli.Proofs.Source.Alike
import Boli.Proofs.Source.Layout
import Boli.Proofs.Source.Respelling
import Boli.Proofs.Source.RoundTrip
import Boli.Proofs.Literals
import Boli.Proofs.Emission.Literals
import Boli.Proofs.Cancellation
import Boli.Proofs.Quoting
import Boli.Proofs.Emission.Surface
import Boli.Proofs.Emission.Layout
import Boli.Proofs.Emission.Styles
import Boli.Proofs.Emission.Injective
import Boli.Proofs.Emission.Outline
import Boli.Proofs.Emission.Lines
import Boli.Proofs.Emission.Shapes
import Boli.Proofs.Emission.Suites
import Boli.Proofs.Emission.Skeleton
import Boli.Proofs.Keyword.Collisions
import Boli.Proofs.Keyword.Layering
import Boli.Proofs.Keyword.Outcomes
import Boli.Proofs.Keyword.Loading
import Boli.Proofs.Parsing.Blotting
import Boli.Proofs.Diagnostics
import Boli.Proofs.Source.Composition
import Boli.Proofs.Source.Failures
import Boli.Proofs.Keyword.Relabelling
import Boli.Proofs.Emission.LineBreaks
import Boli.Proofs.Emission.Frames
import Boli.Proofs.Emission.Numerals
import Boli.Proofs.Json
import Boli.Proofs.Path
import Boli.Proofs.Selection
import Boli.Proofs.Files
import Boli.Proofs.Cli.Session
import Boli.Proofs.Cli.Listings
import Boli.Proofs.Cli.Driver
import Boli.Proofs.Cli.Atomicity
import Boli.Proofs.Cli.Escapes
import Boli.Proofs.Cli.Inputs
import Boli.Proofs.Program.Data
import Boli.Proofs.Source.Translation
import Boli.Proofs.Parsing.Progress

/-!
# Boli

A compiler from a small language with Hindustani keywords to eight target languages: its lexer, its
parser, its emitter with the descriptions of the targets, its keyword tables and their files, and its
command line, which runs on a tree of files.

## What is left aside

- **Lone surrogates.** A text is a sequence of characters, in a source, in a file and in a path. A
  surrogate that is not half of a pair can come in from the command line and from an escape in JSON.
  There it is kept, by a private use character in its place (`Text.Block`), and it is known where it
  makes encoding fail (`Cli.runLoose`). Messages and listings show the character in its place, and a
  path that holds it leads to a file of that name. All that is said of `Cli.run` is said of arguments
  that are texts. A JSON text or a command line that mentions a character of each private use block
  leaves none to stand for surrogates.
- **Standard output** takes UTF-8 and refuses surrogates.
- **The system's files.** A tree has files and folders and no links, no permissions, no devices and no
  full disks, and nothing else changes it during a run (`FileTree`).
- **Depth and memory.** There is no limit to nesting, in programs or in JSON, and to the size of what is
  kept in memory.
- **The library that reads the arguments** is taken as it was up to version 3.11.7 (`Cli.Arguments`).
  What it prints for help and for arguments that do not fit is not taken over.
- **The reasons for which a keyword file is not JSON** are not told apart (`Keyword.FileError`).
- **Nodes of other classes.** A tree holds the compiler's own nodes and foreign objects, and no
  extensions of its own nodes.
- **Format texts.** Templates have holes, in order or named, and nothing else of what format texts can
  hold (`Template`).
-/
