import Boli.Proofs.Parsing.Built
import Boli.Proofs.Tiling

/-!
# Programs that have a source

Not every tree is the program of a source text. Names are words that spell no keyword, numbers are
natural and no longer than what can be read, a text lacks one of the two quotes, and operands are
literals or names (`Program.WellFormed`). Whatever is parsed from the tokens of a source, in either
mode and with any keyword table, is of this kind (`wellFormed_of_parse`).
-/

set_option autoImplicit false

namespace Boli

open Boli.Keyword (Table)
open Boli.Parser (arithmeticOperators comparisonOperators)

/-! ## Well-formed programs -/

section WellFormed

variable (table : Table)

/-- A word that spells no keyword. -/
def IsName (name : String) : Prop := Keyword.isWord name = true ∧ table.lookup name = none

/-- A text without double quotes, or one without single quotes. -/
def IsQuotable (s : String) : Prop := '\x22' ∉ s.toList ∨ '\x27' ∉ s.toList

/-- A literal or a name that a source can hold. -/
def Expression.IsPrimary : Expression → Prop
  | .number n => 0 ≤ n ∧ Text.Numeral.Writable n
  | .text s => IsQuotable s
  | .identifier name => IsName table name
  | .binary _ _ _ | .foreign _ _ => False

/-- A primary, or one operation on two. -/
def Expression.WellFormed : Expression → Prop
  | .binary operator left right =>
    operator ∈ arithmeticOperators ∧ left.IsPrimary table ∧ right.IsPrimary table
  | e => e.IsPrimary table

/-- A comparison of two primaries. -/
def Condition.WellFormed : Condition → Prop
  | .compare left operator right =>
    operator ∈ comparisonOperators ∧ left.IsPrimary table ∧ right.IsPrimary table
  | .foreign _ _ => False

/-- Trees that have a source. The only expression that stands as a statement is a name. -/
def Form.wellFormed : Form where
  name := IsName table
  value := Expression.WellFormed table
  lone e := ∃ name, e = .identifier name ∧ IsName table name
  condition := Condition.WellFormed table
  foreign := False

/-- A program all of whose parts can be written in a source. -/
def Program.WellFormed : Program → Prop
  | .statements ss => AllHave (.wellFormed table) ss
  | .foreign _ _ => False

instance (name : String) : Decidable (IsName table name) :=
  inferInstanceAs (Decidable (_ ∧ _))

instance (s : String) : Decidable (IsQuotable s) := inferInstanceAs (Decidable (_ ∨ _))

instance : (e : Expression) → Decidable (e.IsPrimary table)
  | .number n => inferInstanceAs (Decidable (0 ≤ n ∧ Text.Numeral.Writable n))
  | .text s => inferInstanceAs (Decidable (IsQuotable s))
  | .identifier name => inferInstanceAs (Decidable (IsName table name))
  | .binary _ _ _ | .foreign _ _ => inferInstanceAs (Decidable False)

instance : (e : Expression) → Decidable (e.WellFormed table)
  | .binary operator left right =>
    inferInstanceAs (Decidable (operator ∈ arithmeticOperators ∧ left.IsPrimary table ∧
      right.IsPrimary table))
  | .number n => inferInstanceAs (Decidable (Expression.IsPrimary table (.number n)))
  | .text s => inferInstanceAs (Decidable (Expression.IsPrimary table (.text s)))
  | .identifier name => inferInstanceAs (Decidable (Expression.IsPrimary table (.identifier name)))
  | .foreign _ _ => inferInstanceAs (Decidable False)

instance : (c : Condition) → Decidable (c.WellFormed table)
  | .compare left operator right =>
    inferInstanceAs (Decidable (operator ∈ comparisonOperators ∧ left.IsPrimary table ∧
      right.IsPrimary table))
  | .foreign _ _ => inferInstanceAs (Decidable False)

/-- Whether an expression is a name. -/
def decideLone : (e : Expression) → Decidable (∃ name, e = .identifier name ∧ IsName table name)
  | .identifier name =>
    decidable_of_iff (IsName table name) ⟨fun h => ⟨name, rfl, h⟩, fun ⟨_, hname, h⟩ => by
      cases hname
      exact h⟩
  | .number _ | .text _ | .binary _ _ _ | .foreign _ _ => isFalse fun ⟨_, hname, _⟩ => nomatch hname

instance : (p : Program) → Decidable (p.WellFormed table)
  | .statements ss =>
    have : DecidablePred (Form.wellFormed table).name :=
      inferInstanceAs (DecidablePred (IsName table))
    have : DecidablePred (Form.wellFormed table).value :=
      inferInstanceAs (DecidablePred (Expression.WellFormed table))
    have : DecidablePred (Form.wellFormed table).lone := decideLone table
    have : DecidablePred (Form.wellFormed table).condition :=
      inferInstanceAs (DecidablePred (Condition.WellFormed table))
    have : Decidable (Form.wellFormed table).foreign := inferInstanceAs (Decidable False)
    inferInstanceAs (Decidable (AllHave (.wellFormed table) ss))
  | .foreign _ _ => inferInstanceAs (Decidable False)

end WellFormed

variable {table : Table}

/-! ## What well-formed trees are -/

theorem isName_empty {name : String} (h : IsName table name) :
    IsName .empty name :=
  ⟨h.1, rfl⟩

theorem Expression.IsPrimary.empty {e : Expression} (h : e.IsPrimary table) :
    e.IsPrimary .empty := by
  cases e with
  | number n => exact h
  | text s => exact h
  | identifier name => exact isName_empty h
  | binary operator left right => exact h
  | foreign kind data => exact h

/-- A tree that has a source has one where there are no keywords. -/
theorem Form.wellFormed_implies_empty (table : Table) :
    (Form.wellFormed table).Implies (.wellFormed .empty) where
  name _ := isName_empty
  value e he := by
    cases e with
    | binary operator left right => exact ⟨he.1, he.2.1.empty, he.2.2.empty⟩
    | number n => exact he
    | text s => exact he
    | identifier name => exact isName_empty he
    | foreign kind data => exact he
  lone e he := by
    obtain ⟨name, rfl, hname⟩ := he
    exact ⟨name, rfl, isName_empty hname⟩
  condition c hc := by
    cases c with
    | compare left operator right => exact ⟨hc.1, hc.2.1.empty, hc.2.2.empty⟩
    | foreign kind data => exact hc
  foreign h := h

theorem Expression.IsPrimary.writable {e : Expression} (h : e.IsPrimary table) :
    e.Writable := by
  cases e with
  | number n => exact h.2
  | text s => trivial
  | identifier name => trivial
  | binary operator left right => exact h.elim
  | foreign kind data => exact h.elim

theorem Form.wellFormed_implies_writable (table : Table) :
    (Form.wellFormed table).Implies .writable where
  name _ _ := trivial
  value e he := by
    cases e with
    | binary operator left right => exact ⟨he.2.1.writable, he.2.2.writable⟩
    | number n => exact he.2
    | text s => trivial
    | identifier name => trivial
    | foreign kind data => exact he.elim
  lone e he := by
    obtain ⟨name, rfl, -⟩ := he
    trivial
  condition c hc := by
    cases c with
    | compare left operator right => exact ⟨hc.2.1.writable, hc.2.2.writable⟩
    | foreign kind data => exact hc.elim
  foreign _ := trivial

/-! ## What tokens tell -/

/-- The kind and the value of a lexeme's token are settled. -/
theorem Lexeme.Means.eq {l : Lexeme} {kind : Token.Kind} {value : String}
    (h : l.Means table kind value) :
    kind = Token.Kind.ofLexeme table l ∧ value = String.ofList l.value := by
  cases h with
  | keyword hlookup =>
    rw [Token.Kind.ofLexeme, hlookup]
    exact ⟨rfl, rfl⟩
  | identifier hlookup =>
    rw [Token.Kind.ofLexeme, hlookup]
    exact ⟨rfl, rfl⟩
  | number => exact ⟨rfl, rfl⟩
  | string => exact ⟨rfl, rfl⟩
  | operator => exact ⟨rfl, rfl⟩
  | semicolon => exact ⟨rfl, rfl⟩
  | openBrace => exact ⟨rfl, rfl⟩
  | closeBrace => exact ⟨rfl, rfl⟩

/-- Each of these tokens tells of a lexeme of the language. -/
def Lexical (table : Table) (tokens : List Token) : Prop :=
  ∀ t ∈ tokens, ∃ l : Lexeme, l.WellFormed ∧ t.Tells table l

theorem isWord_ofList {letters : List Char} (h : (Lexeme.word letters).WellFormed) :
    Keyword.isWord (String.ofList letters) = true := by
  obtain ⟨c, cs, rfl, hc, hcs⟩ := h
  rw [Keyword.isWord, String.toList_ofList, Keyword.isWordChars, hc, Bool.true_and]
  exact List.all_eq_true.2 hcs

theorem Lexical.isName {tokens : List Token} (h : Lexical table tokens) {name : String}
    (hname : IsNameOf tokens name) : IsName table name := by
  obtain ⟨t, ht, hkind, rfl⟩ := hname
  obtain ⟨l, hwf, hmeans, -⟩ := h t ht
  rw [hkind] at hmeans
  generalize t.value = value at hmeans
  cases hmeans with
  | identifier hlookup => exact ⟨isWord_ofList hwf, hlookup⟩

theorem isQuotable_of_wellFormed {quote : Char} {content : List Char}
    (h : (Lexeme.quoted quote content).WellFormed) : IsQuotable (String.ofList content) := by
  obtain ⟨hquote, hcontent⟩ := h
  rw [IsQuotable, String.toList_ofList]
  rw [Lexeme.isQuote, Bool.or_eq_true, decide_eq_true_eq, decide_eq_true_eq] at hquote
  rcases hquote with rfl | rfl
  · exact .inl hcontent
  · exact .inr hcontent

/-- A run of digits that is read has no sign. -/
theorem nonneg_of_read {digits : List Char} {n : Int} (hne : digits ≠ [])
    (hdigits : ∀ d ∈ digits, d.isDigit = true)
    (h : Text.Numeral.read (String.ofList digits) = .ok n) : 0 ≤ n := by
  obtain ⟨c, cs, rfl⟩ := List.exists_cons_of_ne_nil hne
  rw [Text.Numeral.read, String.toList_ofList,
    Text.Numeral.takeSign_of_isDigit cs (hdigits c List.mem_cons_self)] at h
  dsimp only at h
  split at h
  next => cases h
  next =>
    split at h
    next => cases h
    next =>
      split at h
      next =>
        cases h
        exact Int.natCast_nonneg _
      next => cases h

theorem Lexical.isPrimary {tokens : List Token} (h : Lexical table tokens) {e : Expression}
    (he : e.IsPrimaryOf tokens) : e.IsPrimary table := by
  cases e with
  | number n =>
    obtain ⟨t, ht, hkind, hread⟩ := he
    obtain ⟨l, hwf, hmeans, -⟩ := h t ht
    refine ⟨?_, Text.Numeral.writable_of_read hread⟩
    rw [hkind] at hmeans
    generalize t.value = value at hmeans hread
    cases hmeans with
    | number => exact nonneg_of_read hwf.1 hwf.2 hread
  | text s =>
    obtain ⟨t, ht, hkind, rfl⟩ := he
    obtain ⟨l, hwf, hmeans, -⟩ := h t ht
    rw [hkind] at hmeans
    generalize t.value = value at hmeans
    cases hmeans with
    | string => exact isQuotable_of_wellFormed hwf
  | identifier name => exact h.isName he
  | binary operator left right => exact he.elim
  | foreign kind data => exact he.elim

/-- What is made from tokens that tell of lexemes has a source, part by part. -/
theorem Lexical.implies {tokens : List Token} (h : Lexical table tokens) :
    (Form.builtOf tokens).Implies (.wellFormed table) where
  name _ hname := h.isName hname
  value e he := by
    cases e with
    | binary operator left right => exact ⟨he.1, h.isPrimary he.2.1, h.isPrimary he.2.2⟩
    | number n => exact h.isPrimary (e := .number n) he
    | text s => exact h.isPrimary (e := .text s) he
    | identifier name => exact h.isName he
    | foreign kind data => exact he.elim
  lone e he := by
    obtain ⟨name, rfl, hname⟩ := he
    exact ⟨name, rfl, h.isName hname⟩
  condition c hc := by
    cases c with
    | compare left operator right => exact ⟨hc.1, h.isPrimary hc.2.1, h.isPrimary hc.2.2⟩
    | foreign kind data => exact hc.elim
  foreign hforeign := hforeign

/-- A program that is parsed from the tokens of a source is well-formed. -/
theorem wellFormed_of_parse {source : String} {tokens : List Token} {mode : Strictness} {p : Program}
    (htokens : tokenize table source = .ok tokens) (hparse : parse mode tokens = .ok p) :
    p.WellFormed table := by
  obtain ⟨ss, rfl, hss⟩ := exists_built_of_parse hparse
  have hlexical : Lexical table tokens := exists_lexeme_of_tokenize htokens
  exact allHave_of_implies hlexical.implies ss hss

end Boli
