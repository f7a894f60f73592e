import Boli.Proofs.Keyword.Layering
import Boli.Proofs.Source.Alike

/-!
# Keywords in other words

A keyword may be spelled by any word that the table has for it. A source in which some keywords are
spelled by other words of a richer table, and all else is as it was, is compiled with that table as
the source itself is with its own (`compile_respell`).

The other words may be longer or shorter, so that all behind them moves, and nothing need stand
between them and their neighbours. The lexemes still end where they did: a lexeme before a keyword
ends because a letter comes next, and a keyword ends because no letter and no digit does, and
neither depends on the word (`Tiling.valid_respelled`).
-/

set_option autoImplicit false

namespace Boli

open Boli.Keyword (Table Configuration)

/-! ## Other spellings -/

/-- A spelling that a token may be given: its own, or a word that a table has for its keyword. -/
def Token.MayBeSpelled (table : Table) (t : Token) (w : String) : Prop :=
  w = t.text ∨ ∃ k, t.kind = .keyword k ∧ table.lookup w = some k

instance (table : Table) (t : Token) (w : String) : Decidable (t.MayBeSpelled table w) :=
  decidable_of_iff (w = t.text ∨ ∃ k ∈ table.lookup w, t.kind = .keyword k) <| by
    simp only [Token.MayBeSpelled, Option.mem_def, and_comm]

/-- A text from a position on with these spellings for the tokens that stand there, and all between
them as it is. -/
def respellFrom (text : List Char) (spelling : Token → String) : Nat → List Token → List Char
  | start, [] => text.drop start
  | start, t :: ts =>
    text.extract start t.offset ++
      ((spelling t).toList ++ respellFrom text spelling (t.offset + t.text.length) ts)

/-- A source with these spellings for its tokens. No two tokens of a source have the same offset, so
that each may have a spelling of its own. -/
def respell (source : String) (ts : List Token) (spelling : Token → String) : String :=
  String.ofList (respellFrom source.toList spelling 0 ts)

variable {table table' : Table} {spelling : Token → String}

namespace Lexeme

/-- A lexeme in another spelling. Only a word may have more than one. -/
def respelled (w : String) : Lexeme → Lexeme
  | .word _ => .word w.toList
  | l => l

variable {l : Lexeme} {w : String} {place : Place}

theorem respelled_eq_self (h : w.toList = l.spelling) : l.respelled w = l := by
  cases l with
  | word letters => exact congrArg word h
  | _ => rfl

/-- The lexeme is the same, or it is one word for a keyword in place of another. -/
theorem respelled_cases (h : (Token.ofLexeme table place l).MayBeSpelled table' w) :
    (w.toList = l.spelling ∧ l.respelled w = l) ∨
      ∃ letters k, l = .word letters ∧ table.lookup (String.ofList letters) = some k ∧
        table'.lookup w = some k := by
  rcases h with rfl | ⟨k, hkind, hk⟩
  · have hw : (Token.ofLexeme table place l).text.toList = l.spelling := String.toList_ofList
    exact .inl ⟨hw, respelled_eq_self hw⟩
  · have hmeans := means_ofLexeme table place l
    rw [hkind] at hmeans
    generalize (Token.ofLexeme table place l).value = value at hmeans
    cases hmeans with
    | @keyword letters k hlookup => exact .inr ⟨letters, k, rfl, hlookup, hk⟩

theorem spelling_respelled (h : (Token.ofLexeme table place l).MayBeSpelled table' w) :
    (l.respelled w).spelling = w.toList := by
  rcases respelled_cases h with ⟨hw, hself⟩ | ⟨letters, k, rfl, -, -⟩
  · rw [hself, hw]
  · rfl

theorem wellFormed_respelled (hl : l.WellFormed)
    (h : (Token.ofLexeme table place l).MayBeSpelled table' w) : (l.respelled w).WellFormed := by
  rcases respelled_cases h with ⟨-, hself⟩ | ⟨letters, k, rfl, -, hk⟩
  · rwa [hself]
  · exact wellFormed_word (table'.isWord_of_mem _ (Dictionary.mem_of_get? hk))

/-- By a table that keeps the keywords of another, and in which no identifier is a word, the token of
the lexeme in the other spelling is alike. -/
theorem alike_respelled (place' : Place)
    (hkeep : ∀ w k, table.lookup w = some k → table'.lookup w = some k)
    (hfree : (Token.ofLexeme table place l).kind = .identifier →
      table'.lookup (Token.ofLexeme table place l).text = none)
    (h : (Token.ofLexeme table place l).MayBeSpelled table' w) :
    (Token.ofLexeme table place l).Alike (Token.ofLexeme table' place' (l.respelled w)) := by
  rcases respelled_cases h with ⟨-, hself⟩ | ⟨letters, k, rfl, hlookup, hk⟩
  · rw [hself]
    refine ⟨?_, fun _ => rfl⟩
    cases l with
    | word letters =>
      simp only [Token.ofLexeme, Token.Kind.ofLexeme, spelling] at hfree ⊢
      cases hlookup : table.lookup (String.ofList letters) with
      | none => rw [hfree (by rw [hlookup]; rfl)]
      | some k => rw [hkeep _ _ hlookup]
    | _ => rfl
  · have hkind : (Token.ofLexeme table place (.word letters)).kind = .keyword k := by
      rw [Token.ofLexeme, Token.Kind.ofLexeme, hlookup]
      rfl
    refine ⟨?_, fun hkeyword => absurd hkind (hkeyword k)⟩
    rw [hkind, respelled, Token.ofLexeme, Token.Kind.ofLexeme, String.ofList_toList, hk]
    rfl

end Lexeme

/-! ## The lexemes end where they did -/

theorem Lexeme.sameStart_respelled {l : Lexeme} {w : String} {place : Place} (hl : l.WellFormed)
    (h : (Token.ofLexeme table place l).MayBeSpelled table' w) (rest rest' : List Char) :
    SameStart (l.spelling ++ rest) ((l.respelled w).spelling ++ rest') := by
  rcases respelled_cases h with ⟨-, hself⟩ | ⟨letters, k, rfl, -, hk⟩
  · obtain ⟨c, cs, hcs, -⟩ := hl.exists_spelling_eq_cons
    rw [hself, hcs]
    exact .cons c _ _
  · obtain ⟨c, cs, rfl, hc, -⟩ := hl
    obtain ⟨d, ds, hw, hd, -⟩ := wellFormed_word (table'.isWord_of_mem _ (Dictionary.mem_of_get? hk))
    rw [respelled, hw]
    exact .of_isAlpha hd hc

namespace Tiling

/-- A tiling with other spellings for the tokens, which begin at a place. -/
def respelled (table : Table) (spelling : Token → String) : Place → Tiling → Tiling
  | _, last gap => last gap
  | place, tile gap l rest =>
    let start := place.advanceAll gap
    tile gap (l.respelled (spelling (Token.ofLexeme table start l)))
      (rest.respelled table spelling (start.advanceAll l.spelling))

theorem sameStart_respelled {place : Place} {T : Tiling} (hT : T.Valid)
    (h : ∀ t ∈ T.tokens table place, t.MayBeSpelled table' (spelling t)) :
    SameStart T.text (T.respelled table spelling place).text := by
  cases T with
  | last gap => exact fun c hc => .inl hc
  | tile gap l rest =>
    obtain ⟨-, hw, -, -⟩ := hT
    cases gap with
    | nil => exact Lexeme.sameStart_respelled hw (h _ List.mem_cons_self) _ _
    | cons c cs => exact .cons c _ _

theorem valid_respelled {place : Place} {T : Tiling} (hT : T.Valid)
    (h : ∀ t ∈ T.tokens table place, t.MayBeSpelled table' (spelling t)) :
    (T.respelled table spelling place).Valid := by
  induction T generalizing place with
  | last gap => exact hT
  | tile gap l rest ih =>
    obtain ⟨hg, hw, hl, hr⟩ := hT
    obtain ⟨ht, hrest⟩ := List.forall_mem_cons.1 h
    refine ⟨hg, Lexeme.wellFormed_respelled hw ht, ?_, ih hr hrest⟩
    have hlongest := hl.of_sameStart (sameStart_respelled hr hrest)
    rcases Lexeme.respelled_cases ht with ⟨-, hself⟩ | ⟨letters, k, rfl, -, -⟩
    · rwa [hself]
    · exact hlongest

theorem text_respelled (before : List Char) {place : Place} {T : Tiling}
    (hp : place.offset = before.length)
    (h : ∀ t ∈ T.tokens table place, t.MayBeSpelled table' (spelling t)) :
    (T.respelled table spelling place).text =
      respellFrom (before ++ T.text) spelling before.length (T.tokens table place) := by
  induction T generalizing before place with
  | last gap => exact (List.drop_left).symm
  | tile gap l rest ih =>
    obtain ⟨ht, hrest⟩ := List.forall_mem_cons.1 h
    obtain ⟨hstart, hend, hnext, htext⟩ := bounds_tile table before gap l rest hp
    rw [hstart] at hend
    have hgap : (before ++ gap ++ l.spelling ++ rest.text).extract before.length
        (before ++ gap).length = gap := by rw [List.append_assoc, extract_middle]
    simp only [tokens, respellFrom, hstart, hend, htext, hgap, ← ih _ hnext hrest]
    rw [respelled, text, Lexeme.spelling_respelled ht]

/-- With other spellings for the tokens a tiling is one of the source with these spellings. -/
theorem tiles_respelled {T : Tiling} {source : String} (hT : T.Tiles source)
    (h : ∀ t ∈ T.tokens table {}, t.MayBeSpelled table' (spelling t)) :
    (T.respelled table spelling {}).Tiles (respell source (T.tokens table {}) spelling) where
  valid := valid_respelled hT.valid h
  text_eq := by
    rw [respell, String.toList_ofList, ← hT.text_eq]
    exact text_respelled [] rfl h

/-- Each token of the tiling is alike with the one it stands for, and has the other spelling. -/
theorem forall₂_respelled {T : Tiling} (place place' : Place)
    (hkeep : ∀ w k, table.lookup w = some k → table'.lookup w = some k)
    (hfree : ∀ t ∈ T.tokens table place, t.kind = .identifier → table'.lookup t.text = none)
    (h : ∀ t ∈ T.tokens table place, t.MayBeSpelled table' (spelling t)) :
    List.Forall₂ (fun t u => t.Alike u ∧ u.text = spelling t) (T.tokens table place)
      ((T.respelled table spelling place).tokens table' place') := by
  induction T generalizing place place' with
  | last gap => exact .nil
  | tile gap l rest ih =>
    obtain ⟨ht, hrest⟩ := List.forall_mem_cons.1 h
    obtain ⟨hfirst, hmore⟩ := List.forall_mem_cons.1 hfree
    refine .cons ⟨Lexeme.alike_respelled _ hkeep hfirst ht, ?_⟩ (ih _ _ hmore hrest)
    rw [Token.ofLexeme, Lexeme.spelling_respelled ht, String.ofList_toList]

end Tiling

/-- A table with further words on top of another one, by which no identifier of a source is a word of
the table: whatever keywords of the source are spelled by other words for them, with all else in the
source as it was, the tokens are alike, and so the new source is compiled by that table to the same
text as the source by its own, or the errors are alike. -/
theorem compile_respell {configuration : Configuration} {source : String} {ts : List Token}
    (hlayer : table.withAliases configuration = .ok table')
    (h : tokenize table source = .ok ts)
    (hfree : ∀ t ∈ ts, t.kind = .identifier → table'.lookup t.text = none)
    (hspelling : ∀ t ∈ ts, t.MayBeSpelled table' (spelling t)) :
    ∃ us, tokenize table' (respell source ts spelling) = .ok us ∧
      List.Forall₂ (fun t u => t.Alike u ∧ u.text = spelling t) ts us ∧
      ∀ (identifier : String) (mode : Strictness) (policy : Policy),
        Results.SameOr (CompileError.Alike mode ts us) (compile source identifier table mode policy)
          (compile (respell source ts spelling) identifier table' mode policy) := by
  have hkeep : ∀ w k, table.lookup w = some k → table'.lookup w = some k := fun w k hw =>
    (Keyword.withAliases_eq_ok_iff.1 hlayer).lookup_eq_some_iff.2 (.inl hw)
  obtain ⟨T, hT, rfl⟩ := exists_tiles_of_tokenize h
  have hus := (Tiling.tiles_respelled hT hspelling).tokenize_eq table'
  have halike := Tiling.forall₂_respelled {} {} hkeep hfree hspelling
  exact ⟨_, hus, halike, compile_alike h hus (halike.imp fun _ _ => And.left)⟩

/-- Two further words for IF and one for PRINT. -/
def synonyms : Configuration :=
  [(.group [.word "when", .none, .word "i"], .text "IF"), (.word "show1", .text "PRINT")]

/-- Keywords behind a numeral, behind a quote and before one, a text that reads like a keyword, and
an end where a block is missing. -/
def unspaced : String := "bol 12agar'agar'<x bol\x22\x22varna agar 1<2"

/-- Every IF behind a numeral is spelled by one word and every other IF by another. -/
def respelling (t : Token) : String :=
  if t.text = "agar" then if t.offset = 6 then "when" else "i"
  else if t.offset = 0 then "show1" else t.text

theorem compile_respell_unspaced :
    ∃ table ts us, Table.standard.withAliases synonyms = .ok table ∧
      tokenize .standard unspaced = .ok ts ∧
      respell unspaced ts respelling = "show1 12when'agar'<x bol\x22\x22varna i 1<2" ∧
      tokenize table (respell unspaced ts respelling) = .ok us ∧
      List.Forall₂ (fun t u => t.Alike u ∧ u.text = respelling t) ts us ∧
      ∀ (identifier : String) (mode : Strictness) (policy : Policy),
        Results.SameOr (CompileError.Alike mode ts us)
          (compile unspaced identifier .standard mode policy)
          (compile (respell unspaced ts respelling) identifier table mode policy) := by
  obtain ⟨table, ts, hlayer, hts, hfree, hspelling, hnew⟩ : ∃ table ts,
      Table.standard.withAliases synonyms = .ok table ∧ tokenize .standard unspaced = .ok ts ∧
      (∀ t ∈ ts, t.kind = .identifier → table.lookup t.text = none) ∧
      (∀ t ∈ ts, t.MayBeSpelled table (respelling t)) ∧
      respell unspaced ts respelling = "show1 12when'agar'<x bol\x22\x22varna i 1<2" :=
    ⟨_, _, rfl, rfl, by decide +kernel, by decide +kernel, by decide +kernel⟩
  obtain ⟨us, hus, halike, hcompile⟩ := compile_respell hlayer hts hfree hspelling
  exact ⟨table, ts, us, hlayer, hts, hnew, hus, halike, hcompile⟩

end Boli
