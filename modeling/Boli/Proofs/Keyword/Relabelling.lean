import Boli.Proofs.Keyword.Collisions
import Boli.Proofs.Tiling

/-!
# What a keyword table decides

A keyword table only tells the kinds of words. With two tables a source has the same failure, or tokens
that agree but for the kinds of words that the tables spell differently, and each entry of a table is the
whole of a source with one token (`tables_relabel_words`).

That an entry is a word is checked when the table is built, and what a word is in a source is told by the
tokenizer. The two agree (`Lexeme.WellFormed.isWordChars_spelling_iff`). A table holds nothing else than
what can be built (`Keyword.Table.built`), so that all of this holds of any table there is.
-/

set_option autoImplicit false

namespace Boli

open Boli.Keyword (Configuration Table)

namespace Keyword

open Dictionary

/-- Tables that can be built: the standard one, one of given entries, one with further spellings on top of
another, and one of a keyword file. -/
inductive Table.Built : Table → Prop
  | standard : Built .standard
  | ofEntries {entries : Configuration} {t : Table} : Table.ofEntries entries = .ok t → Built t
  | withAliases {configuration : Configuration} {t t' : Table} :
      Built t → t.withAliases configuration = .ok t' → Built t'
  | ofFile {tree : FileTree} {path : String} {t : Table} : Table.ofFile tree path = .ok t → Built t

/-- An entry as it is given to a new table. -/
def given (e : String × Keyword) : Alias × Json := (.word e.1, .text e.2.name)

theorem checkEntry_given {e : String × Keyword} (h : isWord e.1 = true) :
    Table.checkEntry (given e) = .ok e := by
  rw [Table.checkEntry, given, ofJson_name]
  show (if isWord e.1 = true then _ else _) = _
  rw [if_pos h]
  rfl

theorem mapM_checkEntry_given {es : List (String × Keyword)} (h : ∀ e ∈ es, isWord e.1 = true) :
    (es.map given).mapM Table.checkEntry = .ok es := by
  induction es with
  | nil => rfl
  | cons e es ih =>
    obtain ⟨he, hes⟩ := List.forall_mem_cons.mp h
    rw [List.map_cons, List.mapM_cons, checkEntry_given he, ih hes]
    rfl

/-- A table can be built from its own entries. -/
theorem Table.ofEntries_given (t : Table) : Table.ofEntries (t.entries.map given) = .ok t := by
  rw [Table.ofEntries, mapM_checkEntry_given t.isWord_of_mem]
  have hentries : putAll [] t.entries = t.entries := putAll_of_nodup (d := []) t.nodup
  exact ofWords_eq_ok_iff.mpr hentries.symm

/-- Every table can be built. -/
theorem Table.built (t : Table) : t.Built := .ofEntries t.ofEntries_given

/-- Only a word spells a keyword. -/
theorem Table.isWord_of_lookup {t : Table} {word : String} {k : Keyword}
    (h : t.lookup word = some k) : isWord word = true :=
  t.isWord_of_mem _ (mem_of_get? h)

end Keyword

/-! ## Two tables -/

/-- The token that another table has in place of a token. It differs in its kind alone, and only where
the text is a word for which the tables have not the same keyword. -/
structure Token.Relabels (table table' : Table) (t u : Token) : Prop where
  value_eq : u.value = t.value
  text_eq : u.text = t.text
  line_eq : u.line = t.line
  column_eq : u.column = t.column
  offset_eq : u.offset = t.offset
  kind_eq_iff : u.kind = t.kind ↔ table'.lookup t.text = table.lookup t.text
  isWord_of_kind_ne : u.kind ≠ t.kind → Keyword.isWord t.text = true

variable {table table' : Table}

/-- The kind of a word tells what the table has for it. -/
theorem Token.Kind.ofLexeme_word_eq_iff {letters : List Char} :
    Token.Kind.ofLexeme table' (.word letters) = Token.Kind.ofLexeme table (.word letters) ↔
      table'.lookup (String.ofList letters) = table.lookup (String.ofList letters) := by
  have hinjective : Function.Injective fun found : Option Keyword =>
      (found.map Token.Kind.keyword).getD .identifier := by
    intro found found' h
    cases found with
    | none =>
      cases found' with
      | none => rfl
      | some k' => cases h
    | some k =>
      cases found' with
      | none => cases h
      | some k' =>
        cases h
        rfl
  exact hinjective.eq_iff

/-- A spelling that is no word is no entry of a table. -/
theorem Lexeme.WellFormed.lookup_eq_none {l : Lexeme} (h : l.WellFormed)
    (hword : ¬∃ letters, l = .word letters) (t : Table) : t.lookup (String.ofList l.spelling) = none := by
  cases hlookup : t.lookup (String.ofList l.spelling) with
  | none => rfl
  | some k =>
    have hchars := Keyword.Table.isWord_of_lookup hlookup
    rw [Keyword.isWord, String.toList_ofList] at hchars
    exact absurd (h.isWordChars_spelling_iff.1 hchars) hword

theorem Lexeme.WellFormed.relabels {l : Lexeme} (h : l.WellFormed) (place : Place) :
    (Token.ofLexeme table place l).Relabels table table' (Token.ofLexeme table' place l) where
  value_eq := rfl
  text_eq := rfl
  line_eq := rfl
  column_eq := rfl
  offset_eq := rfl
  kind_eq_iff := by
    by_cases hword : ∃ letters, l = .word letters
    · obtain ⟨letters, rfl⟩ := hword
      exact Token.Kind.ofLexeme_word_eq_iff
    · refine iff_of_true ?_ ?_
      · cases l with
        | word letters => exact absurd ⟨letters, rfl⟩ hword
        | _ => rfl
      · exact (h.lookup_eq_none hword table').trans (h.lookup_eq_none hword table).symm
  isWord_of_kind_ne := by
    intro hne
    cases l with
    | word letters =>
      have hchars := h.isWordChars_spelling_iff.2 ⟨letters, rfl⟩
      rwa [Keyword.isWord, Token.ofLexeme, String.toList_ofList]
    | _ => exact absurd rfl hne

theorem Tiling.forall₂_relabels (place : Place) {T : Tiling} (h : ∀ l ∈ T.lexemes, l.WellFormed) :
    List.Forall₂ (Token.Relabels table table') (T.tokens table place) (T.tokens table' place) := by
  induction T generalizing place with
  | last gap => exact .nil
  | tile gap l rest ih =>
    obtain ⟨hl, hrest⟩ := List.forall_mem_cons.1 h
    exact .cons (hl.relabels _) (ih _ hrest)

/-- With two tables a source fails alike, or has the same tokens but for the kinds of some words. -/
theorem tokenize_relabels (table table' : Table) (source : String) :
    (∃ f, tokenize table source = .error f ∧ tokenize table' source = .error f) ∨
      ∃ ts us, tokenize table source = .ok ts ∧ tokenize table' source = .ok us ∧
        List.Forall₂ (Token.Relabels table table') ts us := by
  rcases Tiling.exists_valid_or_stops source.toList with
    ⟨T, hT, htext⟩ | ⟨T, c, after, fault, hT, htext⟩
  · have htiles : T.Tiles source := ⟨hT, htext⟩
    exact .inr ⟨_, _, htiles.tokenize_eq table, htiles.tokenize_eq table',
      T.forall₂_relabels {} hT.wellFormed⟩
  · rw [tokenize, tokenize, ← htext]
    exact .inl ⟨_, hT.tokens_eq table {}, hT.tokens_eq table' {}⟩

/-! ## Entries -/

/-- The only token of a source that is a word for a keyword. -/
def Token.ofEntry (e : String × Keyword) : Token where
  kind := .keyword e.2
  value := e.1
  text := e.1
  line := 1
  column := 1
  offset := 0

theorem tokenize_entry {e : String × Keyword} (h : e ∈ table.entries) :
    tokenize table e.1 = .ok [Token.ofEntry e] := by
  have hword := table.isWord_of_mem e h
  have hlookup : table.lookup e.1 = some e.2 := Dictionary.get?_of_mem table.nodup h
  have htiles : (Tiling.tile [] (.word e.1.toList) (.last [])).Tiles e.1 :=
    ⟨⟨nofun, Lexeme.wellFormed_word hword, nofun, nofun⟩, List.append_nil _⟩
  rw [htiles.tokenize_eq table]
  simp only [Tiling.tokens, Token.ofLexeme, Token.Kind.ofLexeme, Lexeme.value, Lexeme.spelling,
    String.ofList_toList, hlookup]
  rfl

/-- Every table can be built. With two tables a source fails alike, or has tokens that agree but for the
kinds of words for which the tables have not the same keyword. And a word of a table by itself is a
source with one token, which is of its keyword and stands at the front. -/
theorem tables_relabel_words :
    (∀ t : Table, t.Built) ∧
    (∀ (t t' : Table) (source : String),
      (∃ f, tokenize t source = .error f ∧ tokenize t' source = .error f) ∨
        ∃ ts us, tokenize t source = .ok ts ∧ tokenize t' source = .ok us ∧
          List.Forall₂ (Token.Relabels t t') ts us) ∧
    (∀ t : Table, ∀ e ∈ t.entries, tokenize t e.1 = .ok [Token.ofEntry e]) :=
  ⟨Keyword.Table.built, tokenize_relabels, fun _ _ => tokenize_entry⟩

end Boli
