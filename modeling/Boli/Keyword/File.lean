import Boli.FileTree
import Boli.Json.Reader
import Boli.Keyword.Table
import Boli.Text.Blank

/-!
Keyword files: configurations of the keyword table in plain data.

A keyword file holds an object. Each of its keys is a group of spellings, separated by commas and
with blanks around them dropped, and the value names their keyword. Of two keys with the same group
the later one gives the value. The configuration goes on top of the standard table.
-/

set_option autoImplicit false

namespace Boli.Keyword

/-- Why a keyword file gives no table. -/
inductive FileError where
  | unreadable (fault : FileTree.Fault) (path : String)
  | notUtf8 (fault : Text.Utf8.Fault)
  | notJson
  | numeralTooLong (digits : Nat)
  | notAnObject
  | table (error : TableError)
  deriving DecidableEq

/-- The message that reports an error. The first four say that the file is not loaded. -/
def FileError.message : FileError → String
  | unreadable fault path => "Failed to load keyword file: " ++ fault.message path
  | notUtf8 fault => "Failed to load keyword file: " ++ fault.message
  | notJson => "Failed to load keyword file: not JSON"
  | numeralTooLong digits =>
    "Failed to load keyword file: " ++ (Text.Numeral.Fault.tooLongToRead digits).message
  | notAnObject => "Keyword file must hold a JSON object"
  | table error => error.message

/-- Splits a text at commas. -/
def splitCommas : List Char → List (List Char)
  | [] => [[]]
  | c :: cs =>
    if c = ',' then [] :: splitCommas cs
    else
      match splitCommas cs with
      | [] => [[c]]
      | first :: rest => (c :: first) :: rest

/-- The spellings in a key: its parts between commas, trimmed, without empty ones. -/
def spellings (key : String) : List String :=
  ((splitCommas key.toList).map fun part => String.ofList (Text.trimChars part)).filter (· ≠ "")

/-- The groups of spellings of a keyword file with their values, in order. -/
def fileGroups (fields : List (String × Json)) : Dictionary (List String) Json :=
  Dictionary.putAll [] (fields.map fun (key, value) => (spellings key, value))

/-- The configuration in the fields of a keyword file. -/
def fileConfiguration (fields : List (String × Json)) : Configuration :=
  (fileGroups fields).map fun (words, value) => (.group (words.map .word), value)

/-- Reads the configuration in the text of a keyword file. -/
def readConfiguration (text : List Char) : Except FileError Configuration :=
  match Json.read text with
  | .ok (.object fields) => .ok (fileConfiguration fields)
  | .ok _ => .error .notAnObject
  | .error .malformed => .error .notJson
  | .error (.tooLong digits) => .error (.numeralTooLong digits)

/-- Reads the configuration in the keyword file at a path. -/
def loadConfiguration (tree : FileTree) (path : String) : Except FileError Configuration :=
  match tree.readText path with
  | .ok text => readConfiguration text
  | .error (.unreadable fault path) => .error (.unreadable fault path)
  | .error (.notUtf8 fault) => .error (.notUtf8 fault)

/-- The standard table with the spellings of the keyword file at a path. -/
def Table.ofFile (tree : FileTree) (path : String) : Except FileError Table := do
  let configuration ← loadConfiguration tree path
  (Table.standard.withAliases configuration).mapError .table

end Boli.Keyword
