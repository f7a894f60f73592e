import Boli.Json.Shown
import Boli.Keyword

/-!
Keyword tables: which words spell which keywords.

A table holds its spellings in order, each a word and each only once. Putting a configuration on top
of a table has two halves: `Table.additions` collects what the configuration adds and finds every
collision, and `Table.extend` checks that the new spellings are words.
-/

set_option autoImplicit false

namespace Boli.Keyword

/-- A word that a configuration gives to a keyword although it already spells another. -/
structure Collision where
  word : String
  /-- The keyword that the word was first given to. -/
  previous : Keyword
  given : Keyword
  deriving DecidableEq

/-- The description of a collision. -/
def Collision.text (c : Collision) : String :=
  "'" ++ c.word ++ "' → conflict between " ++ c.previous.name ++ " and " ++ c.given.name

/-- A container of plain data. -/
inductive Container where
  | array
  | object
  deriving DecidableEq

/-- The name of a container in messages. -/
def Container.name : Container → String
  | array => "list"
  | object => "dict"

/-- Why a table cannot be built. -/
inductive TableError where
  /-- An array or object stands for a keyword. -/
  | compositeKind (container : Container)
  /-- No keyword has this name; the spelling is told where there is one. -/
  | unknownKind (shown : String) (word : Option String)
  /-- A spelling that is not a word. -/
  | notAWord (shown : String)
  /-- A configuration that is not an object. -/
  | notAMapping
  /-- Words that are given two keywords. -/
  | collisions (found : List Collision)
  deriving DecidableEq

/-- The message that reports an error. -/
def TableError.message : TableError → String
  | compositeKind container => "unhashable type: '" ++ container.name ++ "'"
  | unknownKind shown none => "Unknown keyword kind: " ++ shown
  | unknownKind shown (some word) => "Unknown keyword kind: " ++ shown ++ " (for " ++ word ++ ")"
  | notAWord shown => "Keyword spelling must be a word: " ++ shown
  | notAMapping => "Keyword configuration must be a mapping"
  | collisions _ => "Alias collision(s) detected"

/-- The words of an error that are in conflict, described one by one. -/
def TableError.conflicts : TableError → List String
  | collisions found => found.map Collision.text
  | _ => []

/-- A spelling, or a group of spellings, in a configuration. -/
inductive Alias where
  /-- No spelling. -/
  | none
  | word (spelling : String)
  /-- A value that is no text, by its own text. -/
  | value (text : String)
  | group (members : List Alias)

namespace Alias

mutual

/-- The spellings in a group, in order. -/
def words : Alias → List String
  | none => []
  | word s => [s]
  | value text => [text]
  | group members => wordsOfAll members

/-- The spellings in several groups, in order. -/
def wordsOfAll : List Alias → List String
  | [] => []
  | a :: as => a.words ++ wordsOfAll as

end

mutual

/-- A spelling as a message shows it. -/
def shown : Alias → String
  | none => "None"
  | word s => Text.quoted s
  | value text => text
  | group members => "(" ++ ", ".intercalate (shownAll members) ++ closing members

/-- The members of a group as a message shows them. -/
def shownAll : List Alias → List String
  | [] => []
  | a :: as => a.shown :: shownAll as

/-- The end of a group; a comma marks the group of one. -/
def closing : List Alias → String
  | [_] => ",)"
  | _ => ")"

end

mutual

/-- Reads a spelling or a group from plain data. -/
def ofJson : Json → Alias
  | .null => none
  | .text s => word s
  | .array elements => group (ofElements elements)
  | v => value v.shown

/-- Reads the members of a group. -/
def ofElements : List Json → List Alias
  | [] => []
  | a :: as => ofJson a :: ofElements as

end

end Alias

/-- Spellings with the values that name their keywords, in order. -/
abbrev Configuration : Type := List (Alias × Json)

/-- Reads a configuration; each field of the object is a spelling. -/
def Configuration.ofJson : Json → Except TableError Configuration
  | .object fields => .ok (fields.map fun (k, v) => (.word k, v))
  | _ => .error .notAMapping

/-- The keyword that a value names. `word` tells the spelling in the error. -/
def ofJson (word : Option String) : Json → Except TableError Keyword
  | .array _ => .error (.compositeKind .array)
  | .object _ => .error (.compositeKind .object)
  | .text s => match ofName? s with
    | some k => .ok k
    | none => .error (.unknownKind s word)
  | v => .error (.unknownKind v.shown word)

/-- The words that spell keywords, in order. -/
structure Table where
  entries : Dictionary String Keyword
  isWord_of_mem : ∀ e ∈ entries, isWord e.1 = true
  nodup : entries.keys.Nodup

namespace Table

/-- The keyword that a word spells. -/
def lookup (t : Table) (word : String) : Option Keyword := t.entries.get? word

/-- The number of spellings. -/
def size (t : Table) : Nat := t.entries.length

/-- A table of given entries, or the first of them that is no word. -/
def ofWords (entries : Dictionary String Keyword) (nodup : entries.keys.Nodup) :
    Except TableError Table :=
  match h : entries.find? (fun e => !isWord e.1) with
  | some e => .error (.notAWord (Text.quoted e.1))
  | none => .ok ⟨entries, by simpa using h, nodup⟩

/-- The table without spellings. -/
def empty : Table := ⟨[], by simp, by simp [Dictionary.keys]⟩

/-- The standard table. -/
def standard : Table where
  entries :=
    [("ye", .var), ("bol", .print), ("agar", .ifStart), ("yafir", .elseIf), ("varna", .elseStart),
      ("jabtak", .whileStart), ("tabtak", .loopStart)]
  isWord_of_mem := by decide
  nodup := by decide

/-- One entry of a new table: its keyword is checked before its spelling. -/
def checkEntry : Alias × Json → Except TableError (String × Keyword)
  | (spelling, kind) => do
    let k ← ofJson (some spelling.shown) kind
    match spelling with
    | .word w => if isWord w then return (w, k) else throw (.notAWord spelling.shown)
    | _ => throw (.notAWord spelling.shown)

/-- A new table of the given entries, which are checked in order. -/
def ofEntries (entries : Configuration) : Except TableError Table := do
  let checked ← entries.mapM checkEntry
  ofWords (Dictionary.putAll [] checked) (Dictionary.nodup_keys_putAll checked List.nodup_nil)

/-! ## Further spellings -/

/-- Words added so far, and the collisions found so far. -/
structure Layering where
  added : Dictionary String Keyword := []
  collisions : List Collision := []

/-- Gives a word to a keyword. A word that already spells another keyword, in the table or among the
words added, is a collision and keeps what it spells. -/
def give (t : Table) (k : Keyword) (l : Layering) (word : String) : Layering :=
  match (l.added.get? word).or (t.lookup word) with
  | some previous =>
    if previous = k then { l with added := l.added.put word k }
    else { l with collisions := l.collisions ++ [⟨word, previous, k⟩] }
  | none => { l with added := l.added.put word k }

/-- Gives all words of a configuration, up to the first value that names no keyword. -/
def layer (t : Table) : Configuration → Layering → Except TableError Layering
  | [], l => .ok l
  | (group, kind) :: rest, l => do
    let k ← Keyword.ofJson none kind
    layer t rest (group.words.foldl (give t k) l)

/-- What a configuration adds to a table, in the order of first mention. -/
def additions (t : Table) (configuration : Configuration) :
    Except TableError (Dictionary String Keyword) := do
  let l ← layer t configuration {}
  if l.collisions.isEmpty then return l.added else throw (.collisions l.collisions)

/-- A table with further entries behind its own. -/
def extend (t : Table) (added : Dictionary String Keyword) : Except TableError Table :=
  ofWords (t.entries.putAll added) (Dictionary.nodup_keys_putAll added t.nodup)

/-- A table with the spellings of a configuration on top of its own. -/
def withAliases (t : Table) (configuration : Configuration) : Except TableError Table := do
  t.extend (← t.additions configuration)

/-! ## Views -/

/-- Whether two tables spell the same keywords by the same words, in whatever order. -/
def sameSpellings (a b : Table) : Bool :=
  a.size = b.size && a.entries.all fun e => b.lookup e.1 = some e.2

/-- A text set flush right in a column. -/
def flushRight (width : Nat) (s : String) : String :=
  String.ofList (List.replicate (width - s.length) ' ') ++ s

/-- The spellings in alphabetical order, one to a line. -/
def report (t : Table) : String :=
  let sorted := t.entries.mergeSort fun a b => !decide (b.1 < a.1)
  "\n".intercalate (sorted.map fun (w, k) => flushRight 12 w ++ " → " ++ k.name)

/-- The table in one line, in its own order. -/
def describe (t : Table) : String :=
  "KeywordTable(" ++ (Json.object (t.entries.map fun (w, k) => (w, .text k.name))).shown ++ ")"

end Table

end Boli.Keyword
