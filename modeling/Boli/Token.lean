import Boli.Keyword

/-!
Tokens: the words, literals, operators and marks of a source text with their places.

The kind of a token has a name, and any name is the name of a kind, so that a sequence of tokens may
hold kinds that the language has no use for.
-/

set_option autoImplicit false

namespace Boli

/-- The kind of a token. -/
inductive Token.Kind where
  | keyword (keyword : Keyword)
  | identifier
  | number
  | string
  | operator
  | semicolon
  | openBrace
  | closeBrace
  /-- The end of the input. -/
  | eof
  | other (name : String)
  deriving DecidableEq

namespace Token.Kind

/-- The name of a kind. -/
def name : Kind → String
  | keyword k => k.name
  | identifier => "IDENTIFIER"
  | number => "NUMBER"
  | string => "STRING"
  | operator => "OPERATOR"
  | semicolon => "SEMICOLON"
  | openBrace => "OPEN_BRACE"
  | closeBrace => "CLOSE_BRACE"
  | eof => "EOF"
  | other name => name

/-- The kinds of the language that are not keywords. -/
def structural : List Kind :=
  [identifier, number, string, operator, semicolon, openBrace, closeBrace, eof]

/-- The kind of a name. -/
def ofName (name : String) : Kind :=
  match Keyword.ofName? name with
  | some k => keyword k
  | none => (structural.find? (·.name == name)).getD (other name)

theorem name_ofName (s : String) : (ofName s).name = s := by
  unfold ofName
  split
  · rename_i k h
    exact Keyword.name_of_ofName? h
  · cases h : structural.find? (·.name == s) with
    | none => rfl
    | some k => simpa using List.find?_some h

end Token.Kind

/-- A token. -/
structure Token where
  kind : Token.Kind
  /-- What the token stands for: a word, a run of digits, a text without its quotes, an operator. -/
  value : String
  /-- The spelling in the source. -/
  text : String := ""
  /-- The line of the first character, from one on; zero for a token without a place. -/
  line : Nat := 0
  /-- The column of the first character, from one on. -/
  column : Nat := 0
  /-- The index of the first character. -/
  offset : Nat := 0
  deriving DecidableEq

/-- The token that stands for the end of a sequence of tokens. -/
def Token.endOfInput : Token := { kind := .eof, value := Token.Kind.eof.name }

end Boli
