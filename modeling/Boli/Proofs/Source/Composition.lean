import Boli.Proofs.Positions
import Boli.Proofs.Source.Layout

/-!
# Sources put together

Where a gap stands between two sources, the tokens are those of the one and those of the other, and a
failure of the latter is found as well (`tokenize_composes`). What stands behind another source is
moved: its offsets count on from there, its lines count on from the last line there, and only on its
first line the columns do.

Nothing of this depends on what the first source holds. A line feed between quotes and one in a gap
count alike, since a place only counts the characters before it (`start_advanceAll_append`).
-/

set_option autoImplicit false

namespace Boli

open Boli.Keyword (Table)

/-! ## Places behind a text -/

section Behind

variable (front : String)

/-- The line of a place of a text when another text stands in front. -/
def lineBehind (line : Nat) : Nat := line + front.toList.count '\n'

/-- The column of a place of a text when another text stands in front. Only the first line goes on
where that text ends. -/
def columnBehind (line column : Nat) : Nat :=
  if line = 1 then column + (front.toList.reverse.takeWhile (· != '\n')).length else column

/-- A place of a text when another text stands in front. -/
def Place.behind (p : Place) : Place where
  offset := p.offset + front.length
  byteOffset := p.byteOffset + (Text.Utf8.encode front).length
  line := lineBehind front p.line
  column := columnBehind front p.line p.column

/-- A token of a text when another text stands in front. -/
def Token.behind (t : Token) : Token :=
  { t with
    offset := t.offset + front.length
    line := lineBehind front t.line
    column := columnBehind front t.line t.column }

/-- A failure of a text when another text stands in front. -/
def Lexer.Failure.behind (f : Lexer.Failure) : Lexer.Failure :=
  { f with place := f.place.behind front }

/-- The characters behind the last line feed of two texts are all of the second one if it has no line
feed, and then some of the first one. -/
theorem length_lastLine_append (cs ds : List Char) :
    ((cs ++ ds).reverse.takeWhile (· != '\n')).length =
      if ds.count '\n' = 0 then
        (ds.reverse.takeWhile (· != '\n')).length + (cs.reverse.takeWhile (· != '\n')).length
      else (ds.reverse.takeWhile (· != '\n')).length := by
  rw [List.reverse_append]
  by_cases hline : '\n' ∈ ds
  · have hne : ds.count '\n' ≠ 0 := (List.count_pos_iff.2 hline).ne'
    have hstop : (ds.reverse.takeWhile (· != '\n')).length ≠ ds.reverse.length := by
      intro hall
      have hself := (List.takeWhile_prefix (· != '\n')).eq_of_length hall
      simpa using List.takeWhile_eq_self_iff.1 hself '\n' (List.mem_reverse.2 hline)
    rw [if_neg hne, List.takeWhile_append, if_neg hstop]
  · have hall : ∀ c ∈ ds.reverse, (c != '\n') = true := fun c hc =>
      bne_iff_ne.2 (ne_of_mem_of_not_mem (List.mem_reverse.1 hc) hline)
    rw [if_pos (List.count_eq_zero.2 hline), List.takeWhile_append_of_pos hall, List.length_append,
      List.takeWhile_eq_self_iff.2 hall]

/-- A place that has moved over two texts is the one behind the second text, moved behind the
first. -/
theorem start_advanceAll_append (cs : List Char) :
    ({} : Place).advanceAll (front.toList ++ cs) = (({} : Place).advanceAll cs).behind front := by
  have hbytes := byteLength_eq front.toList
  rw [String.ofList_toList] at hbytes
  have hlastLine := length_lastLine_append front.toList cs
  rw [start_advanceAll, start_advanceAll, Place.behind, Place.mk.injEq]
  refine ⟨?_, ?_, ?_, ?_⟩
  · rw [List.length_append, String.length_toList, Nat.add_comm]
  · rw [byteLength_append, hbytes, Nat.add_comm]
  · simp only [lineBehind, List.count_append]
    omega
  · simp only [columnBehind, hlastLine]
    by_cases hcount : cs.count '\n' = 0
    · rw [if_pos hcount, if_pos (by omega), Nat.add_assoc]
    · rw [if_neg hcount, if_neg (by omega)]

theorem ofLexeme_behind (table : Table) (place : Place) (l : Lexeme) :
    Token.ofLexeme table (place.behind front) l = (Token.ofLexeme table place l).behind front := rfl

end Behind

namespace Tiling

/-- The tokens of a tiling behind a text are those that it has by itself, moved behind the text. -/
theorem tokens_behind (table : Table) (front : String) (before : List Char) (T : Tiling) :
    T.tokens table (({} : Place).advanceAll (front.toList ++ before)) =
      (T.tokens table (({} : Place).advanceAll before)).map (Token.behind front) := by
  induction T generalizing before with
  | last gap => rfl
  | tile gap l rest ih =>
    have hrest := ih (before ++ gap ++ l.spelling)
    simp only [tokens, List.map_cons, ← ofLexeme_behind, ← start_advanceAll_append,
      ← Place.advanceAll_append, List.append_assoc] at hrest ⊢
    rw [hrest]

end Tiling

/-- What is found in a text behind another one is what is found in the text by itself, moved. -/
theorem tokens_start_advanceAll (table : Table) (front : String) (cs : List Char) :
    Lexer.tokens table (({} : Place).advanceAll front.toList) cs =
      ((Lexer.tokens table {} cs).map (List.map (Token.behind front))).mapError
        (Lexer.Failure.behind front) := by
  rcases Tiling.exists_valid_or_stops cs with ⟨T, hT, rfl⟩ | ⟨T, c, after, fault, hT, rfl⟩
  · have hmoved := T.tokens_behind table front []
    rw [List.append_nil] at hmoved
    rw [Tiling.tokens_text table _ hT, Tiling.tokens_text table _ hT, hmoved]
    rfl
  · rw [hT.tokens_eq table, hT.tokens_eq table, ← Place.advanceAll_append, start_advanceAll_append]
    rfl

/-! ## Two sources with a gap between them -/

variable (table : Table) (a b : String)

/-- What is found in two sources with a gap between them, if the first one has tokens. -/
theorem tokenize_append_gap {w : String} {ts : List Token} (hts : tokenize table a = .ok ts)
    (hgap : IsGap w) (hne : w ≠ "") :
    tokenize table (a ++ w ++ b) =
      (ts ++ ·) <$> ((tokenize table b).map (List.map (Token.behind (a ++ w)))).mapError
        (Lexer.Failure.behind (a ++ w)) := by
  obtain ⟨T, hT, rfl⟩ := exists_tiles_of_tokenize hts
  have hblank : ∀ c ∈ (w.toList ++ b.toList).head?, Text.isBlank c = true := by
    intro c hc
    cases hw : w.toList with
    | nil => exact absurd (String.toList_eq_nil_iff.1 hw) hne
    | cons d ds =>
      rw [hw] at hc
      cases hc
      exact hgap c (by rw [hw]; exact List.mem_cons_self)
  have hwhole : (a ++ w ++ b).toList = T.text ++ (w.toList ++ b.toList) := by
    rw [String.toList_append, String.toList_append, hT.text_eq, List.append_assoc]
  have hfront : (({} : Place).advanceAll T.text).advanceAll w.toList =
      ({} : Place).advanceAll (a ++ w).toList := by
    rw [← Place.advanceAll_append, hT.text_eq, String.toList_append]
  rw [tokenize, hwhole, Tiling.tokens_text_append table {} (hT.valid.before hblank),
    Tiling.tokens_gap_append table _ _ hgap, hfront, tokens_start_advanceAll, tokenize]

/-- A character that begins nothing is found whatever stands behind it. -/
theorem tokenize_append_of_unexpected {x : Char} {place : Place}
    (h : tokenize table a = .error ⟨.unexpected x, place⟩) :
    tokenize table (a ++ b) = .error ⟨.unexpected x, place⟩ := by
  obtain ⟨T, c, after, hT, htext, rfl⟩ := Tiling.exists_stops_of_tokens h
  have hwhole : (a ++ b).toList = T.text ++ c :: (after ++ b.toList) := by
    rw [String.toList_append, ← htext, List.append_assoc, List.cons_append]
  rw [tokenize, hwhole, (hT.of_unexpected _).tokens_eq table]

/-- Behind a source with tokens and a gap that is not empty, another source has tokens just when it has
some by itself, and they stand behind those of the first source, moved. If the other source fails, the
whole fails likewise. A character that begins nothing in the first source is all that is told of the
whole. -/
theorem tokenize_composes {w : String} (hgap : IsGap w) (hne : w ≠ "") :
    (∀ ts, tokenize table a = .ok ts →
      (∀ us, tokenize table b = .ok us →
        tokenize table (a ++ w ++ b) = .ok (ts ++ us.map (Token.behind (a ++ w)))) ∧
      (∀ f, tokenize table b = .error f →
        tokenize table (a ++ w ++ b) = .error (f.behind (a ++ w)))) ∧
    (∀ x place, tokenize table a = .error ⟨.unexpected x, place⟩ →
      tokenize table (a ++ w ++ b) = .error ⟨.unexpected x, place⟩) := by
  constructor
  · intro ts hts
    have hwhole := tokenize_append_gap table a b hts hgap hne
    constructor
    · intro us hus
      rw [hwhole, hus]
      rfl
    · intro f hf
      rw [hwhole, hf]
      rfl
  · intro x place hx
    rw [String.append_assoc]
    exact tokenize_append_of_unexpected table a (w ++ b) hx

/-- A text over two lines at the end of a source. -/
def lineInText : String := "ye s = 'é\n'"

theorem tokenize_composes_lineInText :
    (∃ ts us, tokenize .standard lineInText = .ok ts ∧ tokenize .standard "'\n' x" = .ok us ∧
      tokenize .standard (lineInText ++ "\n " ++ "'\n' x") =
        .ok (ts ++ us.map (Token.behind (lineInText ++ "\n "))) ∧
      (us.map (Token.behind (lineInText ++ "\n "))).map (fun t => (t.offset, t.line, t.column)) =
        [(13, 3, 2), (17, 4, 3)]) ∧
    (∃ f, tokenize .standard "x\n'" = .error f ∧
      tokenize .standard (lineInText ++ "\n " ++ "x\n'") =
        .error (f.behind (lineInText ++ "\n ")) ∧
      (f.behind (lineInText ++ "\n ")).place = ⟨15, 16, 4, 1⟩) ∧
    (∃ f, tokenize .standard "é" = .error f ∧ tokenize .standard ("é" ++ "\n " ++ "'") = .error f) := by
  have hgap : IsGap "\n " := by decide
  have hne : "\n " ≠ "" := by decide
  obtain ⟨ts, hts⟩ : ∃ ts, tokenize .standard lineInText = .ok ts := ⟨_, rfl⟩
  refine ⟨?_, ?_, ?_⟩
  · obtain ⟨us, hus, hmoved⟩ : ∃ us, tokenize .standard "'\n' x" = .ok us ∧
        (us.map (Token.behind (lineInText ++ "\n "))).map (fun t => (t.offset, t.line, t.column)) =
          [(13, 3, 2), (17, 4, 3)] := ⟨_, rfl, by decide +kernel⟩
    obtain ⟨hfirst, -⟩ := tokenize_composes .standard lineInText "'\n' x" hgap hne
    exact ⟨ts, us, hts, hus, (hfirst ts hts).1 us hus, hmoved⟩
  · obtain ⟨f, hf, hplace⟩ : ∃ f, tokenize .standard "x\n'" = .error f ∧
        (f.behind (lineInText ++ "\n ")).place = ⟨15, 16, 4, 1⟩ := ⟨_, rfl, by decide +kernel⟩
    obtain ⟨hfirst, -⟩ := tokenize_composes .standard lineInText "x\n'" hgap hne
    exact ⟨f, hf, (hfirst ts hts).2 f hf, hplace⟩
  · obtain ⟨place, hx⟩ : ∃ place, tokenize .standard "é" = .error ⟨.unexpected 'é', place⟩ := ⟨_, rfl⟩
    obtain ⟨-, hstray⟩ := tokenize_composes .standard "é" "'" hgap hne
    exact ⟨_, hx, hstray _ _ hx⟩

end Boli
