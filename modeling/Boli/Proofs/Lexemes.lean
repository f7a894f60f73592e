import Boli.Token.Lexer
import Mathlib.Data.List.TakeWhile

/-!
# What a lexeme looks like

A lexeme is **well-formed** when its spelling is one the language has, and a text behind it leaves it
**longest** when no character there would still belong to it. Reading at the front of a text finds
exactly the well-formed lexeme that the text behind it leaves longest (`read_eq_ok_iff`), so there
is one at most.
-/

set_option autoImplicit false

namespace Boli

namespace Lexeme

/-- A spelling that the language has. -/
def WellFormed : Lexeme → Prop
  | .word letters =>
    ∃ c cs, letters = c :: cs ∧ c.isAlpha = true ∧ ∀ d ∈ cs, d.isAlphanum = true
  | .number digits => digits ≠ [] ∧ ∀ d ∈ digits, d.isDigit = true
  | .quoted quote content => isQuote quote = true ∧ quote ∉ content
  | .operator spelling =>
    ∃ c, isOperatorSign c = true ∧ (spelling = [c] ∨ spelling = [c, '='])
  | .semicolon | .openBrace | .closeBrace => True

/-- The text behind a lexeme does not begin with a character that belongs to it. -/
def Longest : Lexeme → List Char → Prop
  | .word _, rest => ∀ c ∈ rest.head?, c.isAlphanum = false
  | .number _, rest => ∀ c ∈ rest.head?, c.isDigit = false
  | .operator [_], rest => ∀ c ∈ rest.head?, c ≠ '='
  | _, _ => True

/-- The kind and the value of a lexeme's token. Only the table tells keywords from identifiers. -/
inductive Means (table : Keyword.Table) : Lexeme → Token.Kind → String → Prop where
  | keyword {letters : List Char} {k : Keyword} :
      table.lookup (String.ofList letters) = some k →
      Means table (.word letters) (.keyword k) (String.ofList letters)
  | identifier {letters : List Char} :
      table.lookup (String.ofList letters) = none →
      Means table (.word letters) .identifier (String.ofList letters)
  | number {digits : List Char} : Means table (.number digits) .number (String.ofList digits)
  | string {quote : Char} {content : List Char} :
      Means table (.quoted quote content) .string (String.ofList content)
  | operator {spelling : List Char} :
      Means table (.operator spelling) .operator (String.ofList spelling)
  | semicolon : Means table .semicolon .semicolon ";"
  | openBrace : Means table .openBrace .openBrace "\x7b"
  | closeBrace : Means table .closeBrace .closeBrace "\x7d"

theorem means_ofLexeme (table : Keyword.Table) (place : Place) (l : Lexeme) :
    l.Means table (Token.ofLexeme table place l).kind (Token.ofLexeme table place l).value := by
  cases l with
  | word letters =>
    rw [Token.ofLexeme, Token.Kind.ofLexeme]
    cases h : table.lookup (String.ofList letters) with
    | none => exact .identifier h
    | some k => exact .keyword h
  | number digits => exact .number
  | quoted quote content => exact .string
  | operator spelling => exact .operator
  | semicolon => exact .semicolon
  | openBrace => exact .openBrace
  | closeBrace => exact .closeBrace

/-! ## First characters -/

section Classes

variable {c : Char}

theorem isAlpha_bounds (h : c.isAlpha = true) :
    65 ≤ c.toNat ∧ c.toNat ≤ 90 ∨ 97 ≤ c.toNat ∧ c.toNat ≤ 122 := by
  rcases Bool.or_eq_true_iff.1 h with h | h
  · exact .inl (of_decide_eq_true h)
  · obtain ⟨hlow, hhigh⟩ := Bool.and_eq_true_iff.1 h
    exact .inr ⟨of_decide_eq_true hlow, of_decide_eq_true hhigh⟩

theorem isDigit_bounds (h : c.isDigit = true) : 48 ≤ c.toNat ∧ c.toNat ≤ 57 :=
  Char.isDigit_iff_toNat.1 h

theorem isAlpha_of_isDigit (h : c.isDigit = true) : c.isAlpha = false := by
  rw [Bool.eq_false_iff]
  intro ha
  have := isAlpha_bounds ha
  have := isDigit_bounds h
  omega

theorem isBlank_of_isAlphanum (h : c.isAlphanum = true) : Text.isBlank c = false := by
  have hc : 48 ≤ c.toNat ∧ c.toNat ≤ 122 := by
    rcases Bool.or_eq_true_iff.1 h with h | h
    · have := isAlpha_bounds h
      omega
    · have := isDigit_bounds h
      omega
  simp only [Text.isBlank, Bool.or_eq_false_iff, Bool.and_eq_false_iff, decide_eq_false_iff_not,
    beq_eq_false_iff_ne]
  omega

theorem classes_of_isQuote (h : isQuote c = true) :
    c.isAlpha = false ∧ c.isDigit = false ∧ Text.isBlank c = false := by
  rw [isQuote, Bool.or_eq_true, decide_eq_true_eq, decide_eq_true_eq] at h
  rcases h with rfl | rfl
  · decide
  · decide

theorem classes_of_isOperatorSign (h : isOperatorSign c = true) :
    c.isAlpha = false ∧ c.isDigit = false ∧ isQuote c = false ∧ Text.isBlank c = false := by
  rw [isOperatorSign, List.contains_iff_mem] at h
  have hc : c ∈ ['=', '+', '-', '*', '/', '<', '>'] := h
  simp only [List.mem_cons, List.not_mem_nil, or_false] at hc
  rcases hc with rfl | rfl | rfl | rfl | rfl | rfl | rfl <;> decide

end Classes

/-- A word that can spell a keyword is one that the language has. -/
theorem wellFormed_word {letters : List Char} (h : Keyword.isWordChars letters = true) :
    (word letters).WellFormed := by
  cases letters with
  | nil => cases h
  | cons c cs =>
    rw [Keyword.isWordChars, Bool.and_eq_true] at h
    exact ⟨c, cs, rfl, h.1, List.all_eq_true.1 h.2⟩

/-- The words of the language are just the spellings of lexemes that can spell a keyword. -/
theorem WellFormed.isWordChars_spelling_iff {l : Lexeme} (h : l.WellFormed) :
    Keyword.isWordChars l.spelling = true ↔ ∃ letters, l = .word letters := by
  have hnot : ∀ {c : Char} (cs : List Char), c.isAlpha = false →
      ¬Keyword.isWordChars (c :: cs) = true := by
    intro c cs hc hword
    rw [Keyword.isWordChars, hc, Bool.false_and] at hword
    cases hword
  constructor
  · intro hword
    cases l with
    | word letters => exact ⟨letters, rfl⟩
    | number digits =>
      obtain ⟨hne, hd⟩ := h
      obtain ⟨c, cs, rfl⟩ := List.exists_cons_of_ne_nil hne
      exact absurd hword (hnot cs (isAlpha_of_isDigit (hd c List.mem_cons_self)))
    | quoted quote content => exact absurd hword (hnot _ (classes_of_isQuote h.1).1)
    | operator spelling =>
      obtain ⟨c, hc, rfl | rfl⟩ := h
      · exact absurd hword (hnot _ (classes_of_isOperatorSign hc).1)
      · exact absurd hword (hnot _ (classes_of_isOperatorSign hc).1)
    | semicolon => exact absurd hword (hnot _ (by decide))
    | openBrace => exact absurd hword (hnot _ (by decide))
    | closeBrace => exact absurd hword (hnot _ (by decide))
  · rintro ⟨letters, rfl⟩
    obtain ⟨c, cs, rfl, hc, hcs⟩ := h
    rw [spelling, Keyword.isWordChars, hc, Bool.true_and]
    exact List.all_eq_true.2 hcs

/-- A well-formed lexeme begins with a character that is no blank. -/
theorem WellFormed.exists_spelling_eq_cons {l : Lexeme} (h : l.WellFormed) :
    ∃ c cs, l.spelling = c :: cs ∧ Text.isBlank c = false := by
  cases l with
  | word letters =>
    obtain ⟨c, cs, rfl, hc, -⟩ := h
    exact ⟨c, cs, rfl, isBlank_of_isAlphanum (by simp [Char.isAlphanum, hc])⟩
  | number digits =>
    obtain ⟨hne, hd⟩ := h
    obtain ⟨c, cs, rfl⟩ := List.exists_cons_of_ne_nil hne
    exact ⟨c, cs, rfl, isBlank_of_isAlphanum (by simp [Char.isAlphanum, hd c])⟩
  | quoted quote content =>
    obtain ⟨hq, -⟩ := h
    exact ⟨quote, content ++ [quote], rfl, (classes_of_isQuote hq).2.2⟩
  | operator spelling =>
    obtain ⟨c, hc, hs⟩ := h
    obtain ⟨-, -, -, hb⟩ := classes_of_isOperatorSign hc
    rcases hs with rfl | rfl
    · exact ⟨c, [], rfl, hb⟩
    · exact ⟨c, ['='], rfl, hb⟩
  | semicolon => exact ⟨_, _, rfl, by decide⟩
  | openBrace => exact ⟨_, _, rfl, by decide⟩
  | closeBrace => exact ⟨_, _, rfl, by decide⟩

end Lexeme

/-! ## What stands next -/

/-- What stands next is the same, or a letter stands in place of a letter. -/
def SameStart (rest rest' : List Char) : Prop :=
  ∀ c ∈ rest'.head?, c ∈ rest.head? ∨ c.isAlpha = true ∧ ∃ d ∈ rest.head?, d.isAlpha = true

theorem SameStart.cons (c : Char) (cs ds : List Char) : SameStart (c :: cs) (c :: ds) := by
  rintro _ ⟨⟩
  exact .inl rfl

theorem SameStart.of_isAlpha {c d : Char} {cs ds : List Char} (hc : c.isAlpha = true)
    (hd : d.isAlpha = true) : SameStart (d :: ds) (c :: cs) := by
  rintro _ ⟨⟩
  exact .inr ⟨hc, d, rfl, hd⟩

namespace Lexeme

/-- A word takes no letter, and no other lexeme that could take more would take one. -/
theorem Longest.of_sameStart {l : Lexeme} {rest rest' : List Char} (h : l.Longest rest)
    (hstart : SameStart rest rest') : l.Longest rest' := by
  revert h
  unfold Longest
  split
  · intro h c hc
    rcases hstart c hc with hsame | ⟨-, d, hd, hletter⟩
    · exact h c hsame
    · have hnot := h d hd
      rw [Char.isAlphanum, hletter] at hnot
      cases hnot
  · intro h c hc
    rcases hstart c hc with hsame | ⟨hletter, -⟩
    · exact h c hsame
    · refine Bool.eq_false_iff.2 fun hdigit => ?_
      rw [isAlpha_of_isDigit hdigit] at hletter
      cases hletter
  · rintro h c hc rfl
    rcases hstart '=' hc with hsame | ⟨hletter, -⟩
    · exact h '=' hsame rfl
    · cases hletter
  · exact id

/-- Only the first character behind a lexeme tells whether it is longest. -/
theorem Longest.of_head? {l : Lexeme} {rest rest' : List Char} (h : l.Longest rest)
    (hhead : ∀ c ∈ rest'.head?, c ∈ rest.head?) : l.Longest rest' :=
  h.of_sameStart fun c hc => .inl (hhead c hc)

/-- A blank or the end of the text leaves any lexeme longest. -/
theorem longest_of_isBlank (l : Lexeme) {rest : List Char}
    (h : ∀ c ∈ rest.head?, Text.isBlank c = true) : l.Longest rest := by
  have hnot : ∀ c ∈ rest.head?, ¬c.isAlphanum = true := by
    intro c hc halphanum
    have hblank := h c hc
    rw [isBlank_of_isAlphanum halphanum] at hblank
    cases hblank
  unfold Longest
  split
  · exact fun c hc => Bool.eq_false_iff.2 (hnot c hc)
  · refine fun c hc => Bool.eq_false_iff.2 fun hdigit => hnot c hc ?_
    rw [Char.isAlphanum, hdigit, Bool.or_true]
  · rintro c hc rfl
    cases h '=' hc
  · trivial

/-! ## Reading -/

theorem takeWhile_append {p : Char → Bool} {cs rest : List Char} (h : ∀ c ∈ cs, p c = true)
    (hr : ∀ c ∈ rest.head?, p c = false) : (cs ++ rest).takeWhile p = cs := by
  rw [List.takeWhile_append_of_pos h]
  cases rest with
  | nil => simp
  | cons c rest => simp [hr c rfl]

theorem dropWhile_append {p : Char → Bool} {cs rest : List Char} (h : ∀ c ∈ cs, p c = true)
    (hr : ∀ c ∈ rest.head?, p c = false) : (cs ++ rest).dropWhile p = rest := by
  rw [List.dropWhile_append_of_pos h]
  cases rest with
  | nil => rfl
  | cons c rest => simp [hr c rfl]

theorem head?_dropWhile {p : Char → Bool} {cs : List Char} :
    ∀ c ∈ (cs.dropWhile p).head?, p c = false := by
  intro c hc
  have := List.head?_dropWhile_not p cs
  rw [Option.mem_def] at hc
  simpa [hc] using this

theorem wellFormed_of_read {c : Char} {rest after : List Char} {l : Lexeme}
    (h : read c rest = .ok (l, after)) : l.WellFormed ∧ l.Longest after := by
  unfold read at h
  split at h
  case isTrue hc =>
    cases h
    exact ⟨⟨c, _, rfl, hc, fun d hd => List.mem_takeWhile_imp hd⟩, head?_dropWhile⟩
  split at h
  case isTrue hc =>
    cases h
    refine ⟨⟨by simp, fun d hd => ?_⟩, head?_dropWhile⟩
    rcases List.mem_cons.1 hd with rfl | hd
    · exact hc
    · exact List.mem_takeWhile_imp hd
  split at h
  case isTrue hc =>
    split at h
    case h_1 => cases h
    case h_2 =>
      cases h
      refine ⟨⟨hc, fun hm => ?_⟩, trivial⟩
      simpa using List.mem_takeWhile_imp hm
  split at h
  case isTrue hc =>
    split at h
    case h_1 =>
      cases h
      exact ⟨⟨c, hc, .inr rfl⟩, trivial⟩
    case h_2 hne =>
      cases h
      refine ⟨⟨c, hc, .inl rfl⟩, fun d hd he => ?_⟩
      subst he
      obtain ⟨after, rfl⟩ := List.head?_eq_some_iff.1 hd
      exact hne after rfl
  split at h
  case isTrue => cases h; exact ⟨trivial, trivial⟩
  split at h
  case isTrue => cases h; exact ⟨trivial, trivial⟩
  split at h
  case isTrue => cases h; exact ⟨trivial, trivial⟩
  case isFalse => cases h

theorem read_of_wellFormed {l : Lexeme} {c : Char} {rest after : List Char} (hw : l.WellFormed)
    (hl : l.Longest after) (he : l.spelling ++ after = c :: rest) :
    read c rest = .ok (l, after) := by
  unfold read
  cases l with
  | word letters =>
    obtain ⟨d, ds, rfl, hd, hds⟩ := hw
    change d :: (ds ++ after) = c :: rest at he
    obtain ⟨rfl, rfl⟩ := List.cons.inj he
    rw [if_pos hd, takeWhile_append hds hl, dropWhile_append hds hl]
  | number digits =>
    obtain ⟨hne, hds⟩ := hw
    obtain ⟨d, ds, rfl⟩ := List.exists_cons_of_ne_nil hne
    change d :: (ds ++ after) = c :: rest at he
    obtain ⟨rfl, rfl⟩ := List.cons.inj he
    have hd : d.isDigit = true := hds d (by simp)
    have hds : ∀ e ∈ ds, e.isDigit = true := fun e he => hds e (by simp [he])
    rw [if_neg (by simp [isAlpha_of_isDigit hd]), if_pos hd, takeWhile_append hds hl,
      dropWhile_append hds hl]
  | quoted quote content =>
    obtain ⟨hq, hm⟩ := hw
    change quote :: (content ++ [quote] ++ after) = c :: rest at he
    obtain ⟨rfl, rfl⟩ := List.cons.inj he
    have hc : ∀ d ∈ content, (d != quote) = true := fun d hd => by
      rw [bne_iff_ne]
      exact ne_of_mem_of_not_mem hd hm
    have hr : ∀ d ∈ (quote :: after).head?, (d != quote) = false := by simp
    obtain ⟨halpha, hdigit, -⟩ := classes_of_isQuote hq
    rw [if_neg (by simp [halpha]), if_neg (by simp [hdigit]), if_pos hq, List.append_assoc,
      List.singleton_append, takeWhile_append hc hr, dropWhile_append hc hr]
  | operator spelling =>
    obtain ⟨d, hd, hs⟩ := hw
    obtain ⟨halpha, hdigit, hquote, -⟩ := classes_of_isOperatorSign hd
    obtain rfl : d = c := by
      rcases hs with rfl | rfl
      · exact (List.cons.inj he).1
      · exact (List.cons.inj he).1
    rw [if_neg (by simp [halpha]), if_neg (by simp [hdigit]), if_neg (by simp [hquote]), if_pos hd]
    rcases hs with rfl | rfl
    · obtain rfl : after = rest := (List.cons.inj he).2
      split
      · exact absurd rfl (hl '=' rfl)
      · rfl
    · obtain rfl : '=' :: after = rest := (List.cons.inj he).2
      rfl
  | semicolon => obtain ⟨rfl, rfl⟩ := List.cons.inj he; rfl
  | openBrace => obtain ⟨rfl, rfl⟩ := List.cons.inj he; rfl
  | closeBrace => obtain ⟨rfl, rfl⟩ := List.cons.inj he; rfl

/-- No lexeme begins with the character. -/
def Stray (c : Char) : Prop :=
  c.isAlpha = false ∧ c.isDigit = false ∧ isQuote c = false ∧ isOperatorSign c = false ∧
    c ≠ ';' ∧ c ≠ '\x7b' ∧ c ≠ '\x7d'

theorem dropWhile_bne_eq_nil_iff {c : Char} {rest : List Char} :
    rest.dropWhile (· != c) = [] ↔ c ∉ rest := by
  rw [List.dropWhile_eq_nil_iff]
  constructor
  · intro h hm
    simpa using h c hm
  · intro h d hd
    rw [bne_iff_ne]
    exact ne_of_mem_of_not_mem hd h

/-- Nothing can be read where the first character begins no lexeme, whatever stands behind it, and
where it is a quote that does not come again. -/
theorem read_eq_error_iff {c : Char} {rest : List Char} {fault : Fault} :
    read c rest = .error fault ↔
      fault = .unexpected c ∧ Stray c ∨ fault = .unterminated c ∧ isQuote c = true ∧ c ∉ rest := by
  constructor
  · intro h
    unfold read at h
    split at h
    case isTrue => cases h
    case isFalse halpha =>
    split at h
    case isTrue => cases h
    case isFalse hdigit =>
    split at h
    case isTrue hquote =>
      split at h
      case h_1 hd => cases h; exact .inr ⟨rfl, hquote, dropWhile_bne_eq_nil_iff.1 hd⟩
      case h_2 => cases h
    case isFalse hquote =>
    split at h
    case isTrue =>
      split at h
      case h_1 => cases h
      case h_2 => cases h
    case isFalse hsign =>
    split at h
    case isTrue => cases h
    case isFalse hsemicolon =>
    split at h
    case isTrue => cases h
    case isFalse hopen =>
    split at h
    case isTrue => cases h
    case isFalse hclose =>
    cases h
    rw [Bool.not_eq_true] at halpha hdigit hquote hsign
    exact .inl ⟨rfl, halpha, hdigit, hquote, hsign, hsemicolon, hopen, hclose⟩
  · intro h
    unfold read
    rcases h with ⟨rfl, halpha, hdigit, hquote, hsign, hsemicolon, hopen, hclose⟩ |
      ⟨rfl, hquote, hnot⟩
    · simp only [halpha, hdigit, hquote, hsign, hsemicolon, hopen, hclose, Bool.false_eq_true,
        if_false]
    · obtain ⟨halpha, hdigit, -⟩ := classes_of_isQuote hquote
      rw [if_neg (by simp [halpha]), if_neg (by simp [hdigit]), if_pos hquote,
        dropWhile_bne_eq_nil_iff.2 hnot]

/-- Reading at the front of a text finds the one lexeme there that the text behind it leaves
longest. -/
theorem read_eq_ok_iff {c : Char} {rest after : List Char} {l : Lexeme} :
    read c rest = .ok (l, after) ↔
      l.WellFormed ∧ l.Longest after ∧ l.spelling ++ after = c :: rest := by
  constructor
  · intro h
    obtain ⟨hw, hl⟩ := wellFormed_of_read h
    exact ⟨hw, hl, spelling_append_of_read h⟩
  · intro h
    obtain ⟨hw, hl, he⟩ := h
    exact read_of_wellFormed hw hl he

/-- There is one lexeme at most at the front of a text that the text behind it leaves longest. -/
theorem WellFormed.unique {l l' : Lexeme} {after after' : List Char} (hw : l.WellFormed)
    (hl : l.Longest after) (hw' : l'.WellFormed) (hl' : l'.Longest after')
    (he : l.spelling ++ after = l'.spelling ++ after') : l = l' ∧ after = after' := by
  obtain ⟨c, cs, hs, -⟩ := hw.exists_spelling_eq_cons
  rw [hs, List.cons_append] at he
  have hr : read c (cs ++ after) = .ok (l, after) :=
    read_of_wellFormed hw hl (by rw [hs, List.cons_append])
  have hr' : read c (cs ++ after) = .ok (l', after') := read_of_wellFormed hw' hl' he.symm
  rw [hr] at hr'
  cases hr'
  exact ⟨rfl, rfl⟩

end Lexeme

end Boli
