/-!
Keywords of the language, by what they stand for.

A keyword has a fixed name. The words that spell it are a matter of the keyword table, in which a
keyword may have several spellings. A spelling is a word: an ASCII letter followed by ASCII letters
and digits.
-/

set_option autoImplicit false

namespace Boli

/-- What a keyword stands for. -/
inductive Keyword where
  /-- Starts a declaration. -/
  | var
  /-- Starts a print statement. -/
  | print
  /-- Starts a conditional. -/
  | ifStart
  /-- Starts a further condition of a conditional. -/
  | elseIf
  /-- Starts the last branch of a conditional. -/
  | elseStart
  /-- Starts a loop. -/
  | whileStart
  /-- May stand between the condition of a loop and its body. -/
  | loopStart
  deriving DecidableEq

namespace Keyword

/-- The name of a keyword. -/
def name : Keyword → String
  | var => "VAR"
  | print => "PRINT"
  | ifStart => "IF"
  | elseIf => "ELSE_IF"
  | elseStart => "ELSE"
  | whileStart => "WHILE"
  | loopStart => "LOOP_START"

/-- All keywords. -/
def all : List Keyword := [var, print, ifStart, elseIf, elseStart, whileStart, loopStart]

/-- The keyword of a name. -/
def ofName? (name : String) : Option Keyword := all.find? (·.name == name)

theorem ofName?_name (k : Keyword) : ofName? k.name = some k := by
  cases k <;> decide

theorem name_of_ofName? {s : String} {k : Keyword} (h : ofName? s = some k) : k.name = s := by
  simpa using List.find?_some h

/-- Whether a text is an ASCII letter followed by ASCII letters and digits. -/
def isWordChars : List Char → Bool
  | [] => false
  | c :: cs => c.isAlpha && cs.all Char.isAlphanum

/-- Whether a text can spell a keyword. -/
def isWord (s : String) : Bool := isWordChars s.toList

end Keyword

end Boli
