import Boli.Keyword.Table
import Boli.Text.Quoted
import Boli.Token.Lexeme
import Boli.Token.Place

/-!
From a source text to its tokens.

`Lexer.step` skips blanks and reads one lexeme; `tokenize` repeats it to the end of the text. The
keyword table only decides the kind of a word. A character that begins no lexeme is not consumed,
and a text without a closing quote is consumed to the end.
-/

set_option autoImplicit false

namespace Boli

open Boli.Keyword (Table)

namespace Token

/-- The kind of a lexeme's token. -/
def Kind.ofLexeme (table : Table) : Lexeme → Kind
  | .word letters => ((table.lookup (String.ofList letters)).map .keyword).getD .identifier
  | .number _ => .number
  | .quoted _ _ => .string
  | .operator _ => .operator
  | .semicolon => .semicolon
  | .openBrace => .openBrace
  | .closeBrace => .closeBrace

/-- The token of a lexeme that stands at a place. -/
def ofLexeme (table : Table) (place : Place) (l : Lexeme) : Token where
  kind := Kind.ofLexeme table l
  value := String.ofList l.value
  text := String.ofList l.spelling
  line := place.line
  column := place.column
  offset := place.offset

/-- The token for the end of a text at a place. -/
def endAt (place : Place) : Token :=
  { endOfInput with line := place.line, column := place.column, offset := place.offset }

end Token

namespace Lexer

/-- A fault and the place of the character it is about. -/
structure Failure where
  fault : Lexeme.Fault
  place : Place
  deriving DecidableEq

/-- The message that reports a failure. -/
def Failure.message (f : Failure) : String :=
  let what := match f.fault with
    | .unexpected c => "Unexpected character " ++ Text.quoted (String.singleton c)
    | .unterminated _ => "Unterminated string literal"
  what ++ " at offset " ++ toString f.place.byteOffset ++ " (line " ++ toString f.place.line ++
    ", col " ++ toString f.place.column ++ ")"

/-- What one step finds, with the place and the text behind it. -/
inductive Step where
  | token (token : Token) (place : Place) (rest : List Char)
  | finish (place : Place)
  | failed (failure : Failure) (place : Place) (rest : List Char)
  deriving DecidableEq

/-- Skips blanks and reads a token. -/
def step (table : Table) (place : Place) (text : List Char) : Step :=
  let start := place.advanceAll (text.takeWhile Text.isBlank)
  match text.dropWhile Text.isBlank with
  | [] => .finish start
  | c :: rest =>
    match Lexeme.read c rest with
    | .ok (l, after) => .token (Token.ofLexeme table start l) (start.advanceAll l.spelling) after
    | .error (.unexpected d) => .failed ⟨.unexpected d, start⟩ start (c :: rest)
    | .error (.unterminated quote) =>
      .failed ⟨.unterminated quote, start⟩ (start.advanceAll (c :: rest)) []

/-- A token takes at least one character. -/
theorem length_lt_of_step {table : Table} {place place' : Place} {text rest : List Char}
    {t : Token} (h : step table place text = .token t place' rest) :
    rest.length < text.length := by
  unfold step at h
  have hle : (text.dropWhile Text.isBlank).length ≤ text.length :=
    (List.dropWhile_sublist _).length_le
  split at h
  · simp at h
  · rename_i c cs hcs
    rw [hcs] at hle
    split at h
    · rename_i l after hr
      simp only [Step.token.injEq] at h
      obtain ⟨-, -, rfl⟩ := h
      exact Nat.lt_of_lt_of_le (Lexeme.length_lt_of_read hr) hle
    · simp at h
    · simp at h

/-- The tokens of a text from a place on, at most as many as there is fuel. -/
def tokensUpTo (table : Table) : Nat → Place → List Char → Except Failure (List Token)
  | 0, _, _ => .ok []
  | fuel + 1, place, text =>
    match step table place text with
    | .token t place rest => (t :: ·) <$> tokensUpTo table fuel place rest
    | .finish _ => .ok []
    | .failed failure _ _ => .error failure

/-- The tokens of a text from a place on. Each takes a character, so the length of the text is
enough fuel for all of them and the end. -/
def tokens (table : Table) (place : Place) (text : List Char) : Except Failure (List Token) :=
  tokensUpTo table (text.length + 1) place text

/-- Fuel beyond the length of the text makes no difference. -/
theorem tokensUpTo_eq {table : Table} {fuel : Nat} {place : Place} {text : List Char}
    (h : text.length < fuel) : tokensUpTo table fuel place text = tokens table place text := by
  have key : ∀ (m n : Nat) (place : Place) (text : List Char), text.length < m → text.length < n →
      tokensUpTo table m place text = tokensUpTo table n place text := by
    intro m
    induction m with
    | zero => intro n place text h; omega
    | succ m ih =>
      intro n place text hm hn
      obtain ⟨n, rfl⟩ : ∃ k, n = k + 1 := ⟨n - 1, by omega⟩
      simp only [tokensUpTo]
      split
      · rename_i t place' rest hs
        have := length_lt_of_step hs
        rw [ih n place' rest (by omega) (by omega)]
      · rfl
      · rfl
  exact key _ _ _ _ h (Nat.lt_succ_self _)

/-- The tokens of a text are the first one and those of the rest. -/
theorem tokens_eq (table : Table) (place : Place) (text : List Char) :
    tokens table place text =
      match step table place text with
      | .token t place rest => (t :: ·) <$> tokens table place rest
      | .finish _ => .ok []
      | .failed failure _ _ => .error failure := by
  rw [tokens, tokensUpTo]
  split
  · rename_i hs
    rw [tokensUpTo_eq (length_lt_of_step hs)]
  · rfl
  · rfl

end Lexer

/-- The tokens of a source text, or the first failure. -/
def tokenize (table : Table) (source : String) : Except Lexer.Failure (List Token) :=
  Lexer.tokens table {} source.toList

end Boli
