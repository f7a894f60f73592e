import Boli.Proofs.Source.Alike

/-!
# Layouts of a source

A **layout** sets the spellings of tokens apart: there is a gap before the first and behind the last,
and between each and the next there is at least one blank. In every layout the spellings of the
tokens of a source have the same tokens but for their places, and the source in that layout is
compiled as it is itself (`compile_layout`).

The lexemes of a source, with the gaps of a layout in place of their own, are a tiling again
(`Layout.tiling`): next to a blank every lexeme is as long as it can be.
-/

set_option autoImplicit false

namespace Boli

open Boli.Keyword (Table)

/-- A text of blanks, or none at all. -/
def IsGap (s : String) : Prop := ∀ c ∈ s.toList, Text.isBlank c = true

instance (s : String) : Decidable (IsGap s) :=
  decidable_of_iff (s.toList.all Text.isBlank = true) List.all_eq_true

theorem isGap_empty : IsGap "" := by decide

/-- The gaps around the spellings of a source. -/
structure Layout where
  /-- What stands before the first spelling. -/
  before : String
  /-- What stands behind each spelling that another one follows, by index. -/
  between : Nat → String
  /-- What stands behind the last spelling. -/
  behind : String
  isGap_before : IsGap before
  isGap_between : ∀ n, IsGap (between n)
  between_ne : ∀ n, between n ≠ ""
  isGap_behind : IsGap behind

namespace Layout

/-- Spellings with the gaps between them, the first one having the index `n`. -/
def join (layout : Layout) : Nat → List String → String
  | _, [] => ""
  | _, [w] => w
  | n, w :: w' :: ws => w ++ (layout.between n ++ layout.join (n + 1) (w' :: ws))

/-- The source of spellings in a layout. -/
def source (layout : Layout) (spellings : List String) : String :=
  layout.before ++ (layout.join 0 spellings ++ layout.behind)

/-- Lexemes with the gaps of a layout between them and behind the last one. The first one has the
index `n`, and a gap before it. -/
def tiling (layout : Layout) : List Char → Nat → List Lexeme → Tiling
  | gap, _, [] => .last (gap ++ layout.behind.toList)
  | gap, _, [l] => .tile gap l (.last layout.behind.toList)
  | gap, n, l :: l' :: ls => .tile gap l (layout.tiling (layout.between n).toList (n + 1) (l' :: ls))

variable (layout : Layout)

theorem lexemes_tiling (gap : List Char) (n : Nat) (ls : List Lexeme) :
    (layout.tiling gap n ls).lexemes = ls := by
  induction ls generalizing gap n with
  | nil => rfl
  | cons l ls ih =>
    cases ls with
    | nil => rfl
    | cons l' ls => exact congrArg (l :: ·) (ih _ (n + 1))

theorem text_tiling (gap : List Char) (n : Nat) (ls : List Lexeme) :
    (layout.tiling gap n ls).text =
      gap ++ ((layout.join n (ls.map fun l => String.ofList l.spelling)).toList ++
        layout.behind.toList) := by
  induction ls generalizing gap n with
  | nil => rfl
  | cons l ls ih =>
    cases ls with
    | nil => simp only [tiling, Tiling.text, List.map_cons, List.map_nil, join, String.toList_ofList]
    | cons l' ls =>
      rw [tiling, Tiling.text, ih]
      simp only [List.map_cons, join, String.toList_append, String.toList_ofList, List.append_assoc]

/-- Between two lexemes there is a blank, so that the first one cannot take more. -/
theorem valid_tiling {gap : List Char} (n : Nat) {ls : List Lexeme}
    (hgap : ∀ c ∈ gap, Text.isBlank c = true) (hls : ∀ l ∈ ls, l.WellFormed) :
    (layout.tiling gap n ls).Valid := by
  induction ls generalizing gap n with
  | nil => exact List.forall_mem_append.2 ⟨hgap, layout.isGap_behind⟩
  | cons l ls ih =>
    obtain ⟨hl, hls⟩ := List.forall_mem_cons.1 hls
    cases ls with
    | nil =>
      refine ⟨hgap, hl, l.longest_of_isBlank fun c hc => ?_, layout.isGap_behind⟩
      exact layout.isGap_behind c (List.mem_of_mem_head? hc)
    | cons l' ls =>
      refine ⟨hgap, hl, l.longest_of_isBlank ?_, ih (n + 1) (layout.isGap_between n) hls⟩
      rw [text_tiling]
      obtain ⟨c, cs, hcs⟩ : ∃ c cs, (layout.between n).toList = c :: cs :=
        List.exists_cons_of_ne_nil fun h => layout.between_ne n (String.toList_eq_nil_iff.1 h)
      rw [hcs]
      rintro _ ⟨⟩
      exact layout.isGap_between n c (hcs ▸ List.mem_cons_self)

/-- The lexemes in a layout are a tiling of the source of their spellings. -/
theorem tiles_tiling {ls : List Lexeme} (hls : ∀ l ∈ ls, l.WellFormed) :
    (layout.tiling layout.before.toList 0 ls).Tiles
      (layout.source (ls.map fun l => String.ofList l.spelling)) where
  valid := layout.valid_tiling 0 layout.isGap_before hls
  text_eq := by simp only [text_tiling, source, String.toList_append]

end Layout

/-- In every layout the spellings of the tokens of a source have tokens of the same kinds, values and
spellings. The source in that layout is compiled to the same text as the source itself, for every
target, in both modes and by both policies, or the errors are alike. -/
theorem compile_layout {table : Table} {source : String} {ts : List Token} (layout : Layout)
    (h : tokenize table source = .ok ts) :
    ∃ us, tokenize table (layout.source (ts.map Token.text)) = .ok us ∧
      us.map Token.content = ts.map Token.content ∧
      ∀ (identifier : String) (mode : Strictness) (policy : Policy),
        Results.SameOr (CompileError.Alike mode ts us) (compile source identifier table mode policy)
          (compile (layout.source (ts.map Token.text)) identifier table mode policy) := by
  obtain ⟨T, hT, rfl⟩ := exists_tiles_of_tokenize h
  have hspellings : (T.tokens table {}).map Token.text =
      T.lexemes.map fun l => String.ofList l.spelling := by
    have hcontent := congrArg (List.map (·.2.2)) (T.map_content_tokens table {})
    rw [List.map_map, List.map_map] at hcontent
    exact hcontent
  have hus := (layout.tiles_tiling hT.valid.wellFormed).tokenize_eq table
  have hcontent : ((layout.tiling layout.before.toList 0 T.lexemes).tokens table {}).map
      Token.content = (T.tokens table {}).map Token.content := by
    rw [Tiling.map_content_tokens, Tiling.map_content_tokens, layout.lexemes_tiling]
  rw [← hspellings] at hus
  exact ⟨_, hus, hcontent, compile_alike h hus (Token.forall₂_alike_of_map_content hcontent.symm)⟩

/-- A line break before the first spelling, and by turns an em space with a line break and a file
separator between the others. -/
def scattered : Layout where
  before := "\n"
  between n := if n % 2 = 0 then "\u2003\n" else "\x1c"
  behind := ""
  isGap_before := by decide
  isGap_between n := by split <;> decide
  between_ne n := by split <;> decide
  isGap_behind := isGap_empty

/-- Signs and numerals stand close together, a text holds a line break and the other quote, and the
sign at the end begins no statement. -/
def crowded : String := "x=12bol'\n\x22'+x;;"

theorem compile_layout_crowded :
    ∃ ts us, tokenize .standard crowded = .ok ts ∧
      scattered.source (ts.map Token.text) =
        "\nx\u2003\n=\x1c12\u2003\nbol\x1c'\n\x22'\u2003\n+\x1cx\u2003\n;\x1c;" ∧
      tokenize .standard (scattered.source (ts.map Token.text)) = .ok us ∧
      us.map Token.content = ts.map Token.content ∧
      Parser.stop .strict ts = 8 ∧
      ∀ (identifier : String) (mode : Strictness) (policy : Policy),
        Results.SameOr (CompileError.Alike mode ts us)
          (compile crowded identifier .standard mode policy)
          (compile (scattered.source (ts.map Token.text)) identifier .standard mode policy) := by
  obtain ⟨ts, hts, htexts, hstop⟩ : ∃ ts, tokenize .standard crowded = .ok ts ∧
      ts.map Token.text = ["x", "=", "12", "bol", "'\n\x22'", "+", "x", ";", ";"] ∧
      Parser.stop .strict ts = 8 := ⟨_, rfl, by decide +kernel, by decide +kernel⟩
  obtain ⟨us, hus, hcontent, hcompile⟩ := compile_layout scattered hts
  exact ⟨ts, us, hts, by rw [htexts]; decide +kernel, hus, hcontent, hstop, hcompile⟩

end Boli
