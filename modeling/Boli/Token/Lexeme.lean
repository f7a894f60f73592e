import Boli.Text.Blank
import Boli.Token

/-!
Lexemes: the pieces that a source text falls into between blanks.

A lexeme is a word, a run of digits, a text between quotes, an operator, or a mark. `Lexeme.read`
takes the longest one at the front of a text. It knows neither places nor keywords; those are added
when a lexeme becomes a token.
-/

set_option autoImplicit false

namespace Boli

/-- A piece of a source text. -/
inductive Lexeme where
  /-- An ASCII letter followed by ASCII letters and digits. -/
  | word (letters : List Char)
  /-- A run of ASCII digits. -/
  | number (digits : List Char)
  /-- A text between two of the same quote, which it does not hold. -/
  | quoted (quote : Char) (content : List Char)
  /-- An operator sign, alone or followed by an equals sign. -/
  | operator (spelling : List Char)
  | semicolon
  | openBrace
  | closeBrace
  deriving DecidableEq

namespace Lexeme

/-- Why no lexeme can be read. -/
inductive Fault where
  /-- A character that begins no lexeme. -/
  | unexpected (c : Char)
  /-- A text whose closing quote is missing. -/
  | unterminated (quote : Char)
  deriving DecidableEq

/-- The character that a fault is about. -/
def Fault.char : Fault → Char
  | unexpected c => c
  | unterminated quote => quote

/-- A single or a double quote. -/
def isQuote (c : Char) : Bool := c = '\x22' || c = '\x27'

/-- A character that is an operator, or begins one. -/
def isOperatorSign (c : Char) : Bool := "=+-*/<>".toList.contains c

/-- The spelling of a lexeme in the source. -/
def spelling : Lexeme → List Char
  | word letters => letters
  | number digits => digits
  | quoted quote content => quote :: content ++ [quote]
  | operator spelling => spelling
  | semicolon => [';']
  | openBrace => ['\x7b']
  | closeBrace => ['\x7d']

/-- What a lexeme stands for: its spelling, without quotes. -/
def value : Lexeme → List Char
  | quoted _ content => content
  | l => l.spelling

/-- Reads the longest lexeme that begins with `c` and goes on in `rest`, and gives it with the text
behind it. -/
def read (c : Char) (rest : List Char) : Except Fault (Lexeme × List Char) :=
  if c.isAlpha then
    .ok (word (c :: rest.takeWhile Char.isAlphanum), rest.dropWhile Char.isAlphanum)
  else if c.isDigit then
    .ok (number (c :: rest.takeWhile Char.isDigit), rest.dropWhile Char.isDigit)
  else if isQuote c then
    match rest.dropWhile (· != c) with
    | [] => .error (.unterminated c)
    | _ :: after => .ok (quoted c (rest.takeWhile (· != c)), after)
  else if isOperatorSign c then
    match rest with
    | '=' :: after => .ok (operator [c, '='], after)
    | _ => .ok (operator [c], rest)
  else if c = ';' then .ok (semicolon, rest)
  else if c = '\x7b' then .ok (openBrace, rest)
  else if c = '\x7d' then .ok (closeBrace, rest)
  else .error (.unexpected c)

/-- A lexeme and the text behind it make up the text that was read. -/
theorem spelling_append_of_read {c : Char} {rest after : List Char} {l : Lexeme}
    (h : read c rest = .ok (l, after)) : l.spelling ++ after = c :: rest := by
  unfold read at h
  repeat' split at h
  all_goals simp only [Except.ok.injEq, Prod.mk.injEq, reduceCtorEq] at h
  all_goals obtain ⟨rfl, rfl⟩ := h
  · simp [spelling]
  · simp [spelling]
  · rename_i d after' hd
    have : rest.takeWhile (· != c) ++ rest.dropWhile (· != c) = rest :=
      List.takeWhile_append_dropWhile
    rw [hd] at this
    have hdc : d = c := by
      have := List.head?_dropWhile_not (· != c) rest
      rw [hd] at this
      simpa using this
    subst hdc
    simpa [spelling] using this
  · simp [spelling]
  · simp [spelling]
  · simp_all [spelling]
  · simp_all [spelling]
  · simp_all [spelling]

/-- Reading takes at least one character. -/
theorem length_lt_of_read {c : Char} {rest after : List Char} {l : Lexeme}
    (h : read c rest = .ok (l, after)) : after.length < (c :: rest).length := by
  rw [← spelling_append_of_read h, List.length_append]
  have : 0 < l.spelling.length := by
    unfold read at h
    repeat' split at h
    all_goals simp only [Except.ok.injEq, Prod.mk.injEq, reduceCtorEq] at h
    all_goals obtain ⟨rfl, rfl⟩ := h
    all_goals simp [spelling]
  omega

end Lexeme

end Boli
