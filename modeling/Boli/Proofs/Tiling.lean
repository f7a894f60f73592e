import Boli.Proofs.Lexemes
import Mathlib.Data.List.Forall2

/-!
# Tilings of a source text

A **tiling** cuts a text into lexemes with a gap of blanks before each and behind the last. A text
has tokens just when it has a valid tiling, which is then the only one, and the tokens are the
lexemes of the tiling in order (`tokenize_decides_tilings`).

One step goes over a gap and takes the lexeme behind it, so that the tokens of a tiling come before
those of whatever stands behind it and leaves its last lexeme longest (`Tiling.tokens_text_append`).
A text without a valid tiling has one that stops in it, where the failure is
(`Tiling.exists_valid_or_stops`).
-/

set_option autoImplicit false

namespace Boli

open Boli.Keyword (Table)

/-- A text in pieces: lexemes with a gap before each, and a last gap. -/
inductive Tiling where
  | last (gap : List Char)
  | tile (gap : List Char) (lexeme : Lexeme) (rest : Tiling)

namespace Tiling

/-- The text that a tiling is of. -/
def text : Tiling → List Char
  | last gap => gap
  | tile gap l rest => gap ++ (l.spelling ++ rest.text)

/-- The lexemes, in order. -/
def lexemes : Tiling → List Lexeme
  | last _ => []
  | tile _ l rest => l :: rest.lexemes

/-- The gaps are blank, and each lexeme is one of the language that takes all it can. -/
def Valid : Tiling → Prop
  | last gap => ∀ c ∈ gap, Text.isBlank c = true
  | tile gap l rest =>
    (∀ c ∈ gap, Text.isBlank c = true) ∧ l.WellFormed ∧ l.Longest rest.text ∧ rest.Valid

/-- A tiling is one of a source when it is valid and puts the source together again. -/
structure Tiles (T : Tiling) (source : String) : Prop where
  valid : T.Valid
  text_eq : T.text = source.toList

/-- The tokens of the lexemes, when the text stands at a place. -/
def tokens (table : Table) : Place → Tiling → List Token
  | _, last _ => []
  | place, tile gap l rest =>
    let start := place.advanceAll gap
    Token.ofLexeme table start l :: rest.tokens table (start.advanceAll l.spelling)

end Tiling

/-- The place that a failing step leads to. It stays before a character that begins nothing, and goes
over all that is left behind a quote. -/
def Lexeme.Fault.leave (fault : Lexeme.Fault) (place : Place) (text : List Char) : Place :=
  match fault with
  | .unexpected _ => place
  | .unterminated _ => place.advanceAll text

namespace Token

/-- A token tells of a lexeme: its kind, its value and its spelling. -/
structure Tells (table : Table) (l : Lexeme) (t : Token) : Prop where
  means : l.Means table t.kind t.value
  text : t.text.toList = l.spelling

/-- From a position of a source on there is nothing but the texts of tokens, each at its offset, and
blanks between them. -/
def CoverFrom (source : List Char) : Nat → List Token → Prop
  | start, [] => ∀ c ∈ source.drop start, Text.isBlank c = true
  | start, t :: ts =>
    start ≤ t.offset ∧ (∀ c ∈ source.extract start t.offset, Text.isBlank c = true) ∧
      source.extract t.offset (t.offset + t.text.length) = t.text.toList ∧
      CoverFrom source (t.offset + t.text.length) ts

end Token

namespace Tiling

/-! ## One step -/

/-- A gap before a lexeme is all of the blanks there. -/
theorem span_gap (rest : List Char) {gap : List Char} {l : Lexeme} (hg : ∀ c ∈ gap, Text.isBlank c = true)
    (hl : l.WellFormed) :
    (gap ++ (l.spelling ++ rest)).takeWhile Text.isBlank = gap ∧
      (gap ++ (l.spelling ++ rest)).dropWhile Text.isBlank = l.spelling ++ rest := by
  obtain ⟨c, cs, hs, hc⟩ := hl.exists_spelling_eq_cons
  have hr : ∀ d ∈ (l.spelling ++ rest).head?, Text.isBlank d = false := by simp [hs, hc]
  exact ⟨Lexeme.takeWhile_append hg hr, Lexeme.dropWhile_append hg hr⟩

/-- A step goes over a gap and finds the lexeme that the text behind it leaves longest. -/
theorem step_lexeme (table : Table) (place : Place) {gap after : List Char} {l : Lexeme}
    (hg : ∀ c ∈ gap, Text.isBlank c = true) (hw : l.WellFormed) (hl : l.Longest after) :
    Lexer.step table place (gap ++ (l.spelling ++ after)) =
      .token (Token.ofLexeme table (place.advanceAll gap) l)
        ((place.advanceAll gap).advanceAll l.spelling) after := by
  obtain ⟨ht, hd⟩ := span_gap after hg hw
  obtain ⟨c, cs, hs, -⟩ := hw.exists_spelling_eq_cons
  have hr : Lexeme.read c (cs ++ after) = .ok (l, after) :=
    Lexeme.read_eq_ok_iff.2 ⟨hw, hl, by rw [hs, List.cons_append]⟩
  rw [Lexer.step, ht, hd, hs, List.cons_append]
  simp only [hr, ← hs]

/-- A step over a gap leads where a step from behind the gap does. -/
theorem step_gap (table : Table) (place : Place) {gap : List Char} (after : List Char)
    (hg : ∀ c ∈ gap, Text.isBlank c = true) :
    Lexer.step table place (gap ++ after) = Lexer.step table (place.advanceAll gap) after := by
  rw [Lexer.step, Lexer.step, List.takeWhile_append_of_pos hg, List.dropWhile_append_of_pos hg,
    Place.advanceAll_append]

/-- What a step finds at the front of a text begins a tiling of it. -/
theorem exists_tile_of_step {table : Table} {place place' : Place} {cs rest : List Char} {t : Token}
    (h : Lexer.step table place cs = .token t place' rest) :
    ∃ (gap : List Char) (l : Lexeme), (∀ c ∈ gap, Text.isBlank c = true) ∧ l.WellFormed ∧
      l.Longest rest ∧ gap ++ (l.spelling ++ rest) = cs ∧
      t = Token.ofLexeme table (place.advanceAll gap) l ∧
      place' = (place.advanceAll gap).advanceAll l.spelling := by
  unfold Lexer.step at h
  split at h
  case h_1 => cases h
  case h_2 c after hd =>
    split at h
    case h_2 => cases h
    case h_3 => cases h
    case h_1 l after' hr =>
      cases h
      obtain ⟨hw, hl, hs⟩ := Lexeme.read_eq_ok_iff.1 hr
      refine ⟨cs.takeWhile Text.isBlank, l, fun c hc => List.mem_takeWhile_imp hc, hw, hl, ?_, rfl,
        rfl⟩
      rw [hs, ← hd, List.takeWhile_append_dropWhile]

/-- A step to the end goes over blanks. -/
theorem valid_last_of_step {table : Table} {place place' : Place} {cs : List Char}
    (h : Lexer.step table place cs = .finish place') :
    (last cs).Valid ∧ place' = place.advanceAll cs := by
  unfold Lexer.step at h
  split at h
  case h_1 hd =>
    cases h
    have hblank := List.dropWhile_eq_nil_iff.1 hd
    rw [List.takeWhile_eq_self_iff.2 hblank]
    exact ⟨hblank, rfl⟩
  case h_2 =>
    split at h
    case h_1 => cases h
    case h_2 => cases h
    case h_3 => cases h

/-- A step that fails has gone over blanks to the character that the failure is about. It stays there,
or goes to the end of the text behind a quote. -/
theorem exists_gap_of_step {table : Table} {place place' : Place} {cs rest : List Char}
    {failure : Lexer.Failure} (h : Lexer.step table place cs = .failed failure place' rest) :
    ∃ (gap : List Char) (c : Char) (after : List Char), (∀ d ∈ gap, Text.isBlank d = true) ∧
      Text.isBlank c = false ∧ gap ++ c :: after = cs ∧ failure.place = place.advanceAll gap ∧
      (failure.fault = .unexpected c ∧ place' = failure.place ∨
        failure.fault = .unterminated c ∧ Lexeme.isQuote c = true ∧
          place' = failure.place.advanceAll (c :: after)) := by
  unfold Lexer.step at h
  split at h
  case h_1 => cases h
  case h_2 c after hd =>
    have hblank : Text.isBlank c = false := Lexeme.head?_dropWhile c (by rw [hd]; rfl)
    have hcs : cs.takeWhile Text.isBlank ++ c :: after = cs := by
      rw [← hd, List.takeWhile_append_dropWhile]
    split at h
    case h_1 => cases h
    case h_2 d hr =>
      cases h
      obtain ⟨heq, -⟩ | ⟨heq, -⟩ := Lexeme.read_eq_error_iff.1 hr
      · cases heq
        exact ⟨_, c, after, fun d hd => List.mem_takeWhile_imp hd, hblank, hcs, rfl, .inl ⟨rfl, rfl⟩⟩
      · cases heq
    case h_3 quote hr =>
      cases h
      obtain ⟨heq, -⟩ | ⟨heq, hquote, -⟩ := Lexeme.read_eq_error_iff.1 hr
      · cases heq
      · cases heq
        exact ⟨_, c, after, fun d hd => List.mem_takeWhile_imp hd, hblank, hcs, rfl,
          .inr ⟨rfl, hquote, rfl⟩⟩

/-! ## All steps -/

/-- A tiling whose lexemes are still longest with a text behind it. -/
def ValidBefore (behind : List Char) : Tiling → Prop
  | last gap => ∀ c ∈ gap, Text.isBlank c = true
  | tile gap l rest =>
    (∀ c ∈ gap, Text.isBlank c = true) ∧ l.WellFormed ∧ l.Longest (rest.text ++ behind) ∧
      rest.ValidBefore behind

/-- It makes no difference what the text behind a tiling goes on with. -/
theorem ValidBefore.of_head? {T : Tiling} {behind behind' : List Char} (h : T.ValidBefore behind)
    (hhead : ∀ c ∈ behind'.head?, c ∈ behind.head?) : T.ValidBefore behind' := by
  induction T with
  | last gap => exact h
  | tile gap l rest ih =>
    obtain ⟨hg, hw, hl, hr⟩ := h
    refine ⟨hg, hw, hl.of_head? ?_, ih hr⟩
    cases rest.text with
    | nil => exact hhead
    | cons c cs => exact fun _ hc => hc

theorem validBefore_nil_iff {T : Tiling} : T.ValidBefore [] ↔ T.Valid := by
  induction T with
  | last gap => exact Iff.rfl
  | tile gap l rest ih => rw [ValidBefore, Valid, List.append_nil, ih]

/-- A valid tiling stays one before a blank. -/
theorem Valid.before {T : Tiling} {behind : List Char} (h : T.Valid)
    (hblank : ∀ c ∈ behind.head?, Text.isBlank c = true) : T.ValidBefore behind := by
  induction T with
  | last gap => exact h
  | tile gap l rest ih =>
    obtain ⟨hg, hw, hl, hr⟩ := h
    refine ⟨hg, hw, ?_, ih hr⟩
    cases htext : rest.text with
    | nil => exact l.longest_of_isBlank hblank
    | cons c cs =>
      rw [htext] at hl
      exact hl.of_head? fun _ hc => hc

/-- The tokens of a text behind a gap are those that begin behind the gap. -/
theorem tokens_gap_append (table : Table) (place : Place) {gap : List Char} (behind : List Char)
    (hg : ∀ c ∈ gap, Text.isBlank c = true) :
    Lexer.tokens table place (gap ++ behind) = Lexer.tokens table (place.advanceAll gap) behind := by
  rw [Lexer.tokens_eq, step_gap table place behind hg, ← Lexer.tokens_eq]

/-- The tokens of a tiling come before those of the text behind it. -/
theorem tokens_text_append (table : Table) (place : Place) {T : Tiling} {behind : List Char}
    (h : T.ValidBefore behind) :
    Lexer.tokens table place (T.text ++ behind) =
      (T.tokens table place ++ ·) <$> Lexer.tokens table (place.advanceAll T.text) behind := by
  induction T generalizing place with
  | last gap =>
    rw [text, tokens_gap_append table place behind h]
    exact (id_map _).symm
  | tile gap l rest ih =>
    obtain ⟨hg, hw, hl, hr⟩ := h
    rw [Lexer.tokens_eq, text, List.append_assoc, List.append_assoc, step_lexeme table place hg hw hl]
    simp only [ih _ hr, tokens, Place.advanceAll_append]
    cases Lexer.tokens table (((place.advanceAll gap).advanceAll l.spelling).advanceAll rest.text)
      behind with
    | ok ts => rfl
    | error failure => rfl

/-- The tokens of a tiled text are those of its tiling. -/
theorem tokens_text (table : Table) (place : Place) {T : Tiling} (h : T.Valid) :
    Lexer.tokens table place T.text = .ok (T.tokens table place) := by
  have htokens := tokens_text_append table place (validBefore_nil_iff.2 h)
  rw [List.append_nil] at htokens
  rw [htokens, Lexer.tokens_eq]
  exact congrArg Except.ok (List.append_nil _)

/-- A tiling goes up to a character of a text at which nothing can be read. -/
structure Stops (T : Tiling) (c : Char) (after : List Char) (fault : Lexeme.Fault) : Prop where
  valid : T.ValidBefore (c :: after)
  not_isBlank : Text.isBlank c = false
  read_eq : Lexeme.read c after = .error fault

/-- Where a tiling stops a step fails. -/
theorem Stops.step_eq {T : Tiling} {c : Char} {after : List Char} {fault : Lexeme.Fault}
    (h : T.Stops c after fault) (table : Table) (place : Place) :
    ∃ rest, Lexer.step table place (c :: after) =
      .failed ⟨fault, place⟩ (fault.leave place (c :: after)) rest := by
  have hnot : ¬Text.isBlank c = true := Bool.eq_false_iff.1 h.not_isBlank
  rw [Lexer.step, List.takeWhile_cons_of_neg hnot, List.dropWhile_cons_of_neg hnot]
  simp only [h.read_eq]
  cases fault with
  | unexpected d => exact ⟨_, rfl⟩
  | unterminated quote => exact ⟨_, rfl⟩

/-- The fault is about the character at which the tiling stops. -/
theorem Stops.char_eq {T : Tiling} {c : Char} {after : List Char} {fault : Lexeme.Fault}
    (h : T.Stops c after fault) : fault.char = c := by
  rcases Lexeme.read_eq_error_iff.1 h.read_eq with ⟨rfl, -⟩ | ⟨rfl, -, -⟩
  · rfl
  · rfl

/-- Whatever else stands behind the character, the tiling stops there, as long as it does not close a
quote. -/
theorem Stops.of_after {T : Tiling} {c : Char} {after after' : List Char} {fault : Lexeme.Fault}
    (h : T.Stops c after fault) (hquote : fault = .unterminated c → c ∉ after') :
    T.Stops c after' fault where
  valid := h.valid.of_head? fun _ hc => hc
  not_isBlank := h.not_isBlank
  read_eq := by
    rw [Lexeme.read_eq_error_iff]
    rcases Lexeme.read_eq_error_iff.1 h.read_eq with hstray | ⟨hfault, hc, -⟩
    · exact .inl hstray
    · exact .inr ⟨hfault, hc, hquote hfault⟩

theorem Stops.of_unexpected {T : Tiling} {c d : Char} {after : List Char}
    (h : T.Stops c after (.unexpected d)) (after' : List Char) : T.Stops c after' (.unexpected d) := by
  apply h.of_after
  intro hfault
  cases hfault

/-- Where a tiling stops there is the failure of the text. -/
theorem Stops.tokens_eq {T : Tiling} {c : Char} {after : List Char} {fault : Lexeme.Fault}
    (h : T.Stops c after fault) (table : Table) (place : Place) :
    Lexer.tokens table place (T.text ++ c :: after) = .error ⟨fault, place.advanceAll T.text⟩ := by
  obtain ⟨rest, hstep⟩ := h.step_eq table (place.advanceAll T.text)
  rw [tokens_text_append table place h.valid, Lexer.tokens_eq, hstep]
  rfl

/-- A text has a valid tiling, or there is one that stops in it. -/
theorem exists_valid_or_stops (cs : List Char) :
    (∃ T : Tiling, T.Valid ∧ T.text = cs) ∨
      ∃ (T : Tiling) (c : Char) (after : List Char) (fault : Lexeme.Fault),
        T.Stops c after fault ∧ T.text ++ c :: after = cs := by
  -- every lexeme leaves a shorter text
  induction hn : cs.length using Nat.strong_induction_on generalizing cs with
  | _ n ih =>
    have hg : ∀ c ∈ cs.takeWhile Text.isBlank, Text.isBlank c = true := fun c hc =>
      List.mem_takeWhile_imp hc
    have hcs := List.takeWhile_append_dropWhile (p := Text.isBlank) (l := cs)
    cases hd : cs.dropWhile Text.isBlank with
    | nil =>
      rw [hd, List.append_nil] at hcs
      exact .inl ⟨last (cs.takeWhile Text.isBlank), hg, hcs⟩
    | cons c after =>
      rw [hd] at hcs
      have hblank : Text.isBlank c = false := Lexeme.head?_dropWhile c (by rw [hd]; rfl)
      cases hr : Lexeme.read c after with
      | error fault => exact .inr ⟨last _, c, after, fault, ⟨hg, hblank, hr⟩, hcs⟩
      | ok found =>
        obtain ⟨l, behind⟩ := found
        obtain ⟨hw, hl, hs⟩ := Lexeme.read_eq_ok_iff.1 hr
        have hlt : behind.length < n := by
          have := Lexeme.length_lt_of_read hr
          rw [← hn, ← hcs, List.length_append]
          omega
        rw [← hs] at hcs
        rcases ih _ hlt behind rfl with ⟨T, hT, rfl⟩ | ⟨T, d, ds, fault, hT, rfl⟩
        · exact .inl ⟨tile _ l T, ⟨hg, hw, hl, hT⟩, hcs⟩
        · refine .inr ⟨tile _ l T, d, ds, fault, ⟨⟨hg, hw, hl, hT.valid⟩, hT.not_isBlank, hT.read_eq⟩,
            ?_⟩
          rw [text, List.append_assoc, List.append_assoc, hcs]

/-- A text with tokens has a tiling. -/
theorem exists_of_tokens {table : Table} {place : Place} {cs : List Char} {ts : List Token}
    (h : Lexer.tokens table place cs = .ok ts) : ∃ T : Tiling, T.Valid ∧ T.text = cs := by
  rcases exists_valid_or_stops cs with hT | ⟨T, c, after, fault, hT, rfl⟩
  · exact hT
  · rw [hT.tokens_eq table place] at h
    cases h

/-- A text that fails has a tiling that stops at the failure. -/
theorem exists_stops_of_tokens {table : Table} {place : Place} {cs : List Char} {f : Lexer.Failure}
    (h : Lexer.tokens table place cs = .error f) :
    ∃ (T : Tiling) (c : Char) (after : List Char), T.Stops c after f.fault ∧
      T.text ++ c :: after = cs ∧ f.place = place.advanceAll T.text := by
  rcases exists_valid_or_stops cs with ⟨T, hT, rfl⟩ | ⟨T, c, after, fault, hT, rfl⟩
  · rw [tokens_text table place hT] at h
    cases h
  · rw [hT.tokens_eq table place] at h
    cases h
    exact ⟨T, c, after, hT, rfl, rfl⟩

/-- A text has one valid tiling at most. -/
theorem Valid.unique {T T' : Tiling} (h : T.Valid) (h' : T'.Valid) (he : T.text = T'.text) :
    T = T' := by
  induction T generalizing T' with
  | last gap =>
    cases T' with
    | last gap' => exact congrArg last he
    | tile gap' l' rest' =>
      obtain ⟨hg', hw', -, -⟩ := h'
      obtain ⟨c, cs, hs, hc⟩ := hw'.exists_spelling_eq_cons
      have hm : c ∈ gap := by rw [show gap = _ from he, text, hs]; simp
      rw [h c hm] at hc
      cases hc
  | tile gap l rest ih =>
    obtain ⟨hg, hw, hl, hr⟩ := h
    cases T' with
    | last gap' =>
      obtain ⟨c, cs, hs, hc⟩ := hw.exists_spelling_eq_cons
      have hm : c ∈ gap' := by rw [← show _ = gap' from he, text, hs]; simp
      rw [h' c hm] at hc
      cases hc
    | tile gap' l' rest' =>
      obtain ⟨hg', hw', hl', hr'⟩ := h'
      obtain ⟨ht, hd⟩ := span_gap rest.text hg hw
      obtain ⟨ht', hd'⟩ := span_gap rest'.text hg' hw'
      rw [text, text] at he
      obtain rfl : gap = gap' := by rw [← ht, he, ht']
      obtain ⟨rfl, hrest⟩ := hw.unique hl hw' hl' (List.append_cancel_left he)
      rw [ih hr hr' hrest]

/-! ## The tokens of a tiling -/

/-- Each lexeme of a tiling has its token. -/
theorem forall₂_tells (table : Table) (place : Place) (T : Tiling) :
    List.Forall₂ (Token.Tells table) T.lexemes (T.tokens table place) := by
  induction T generalizing place with
  | last gap => exact .nil
  | tile gap l rest ih =>
    exact .cons ⟨Lexeme.means_ofLexeme table _ l, String.toList_ofList⟩ (ih _)

/-- The lexemes of a tiling are of the language. -/
theorem Valid.wellFormed {T : Tiling} (h : T.Valid) : ∀ l ∈ T.lexemes, l.WellFormed := by
  induction T with
  | last gap => exact nofun
  | tile gap l rest ih =>
    obtain ⟨-, hl, -, hrest⟩ := h
    exact List.forall_mem_cons.2 ⟨hl, ih hrest⟩

/-- Each token of a tiling tells of a lexeme of the language. -/
theorem Valid.exists_lexeme {table : Table} {T : Tiling} (h : T.Valid) (place : Place) :
    ∀ t ∈ T.tokens table place, ∃ l : Lexeme, l.WellFormed ∧ t.Tells table l := by
  induction T generalizing place with
  | last gap => exact nofun
  | tile gap l rest ih =>
    obtain ⟨-, hw, -, hr⟩ := h
    intro t ht
    rcases List.mem_cons.1 ht with rfl | ht
    · exact ⟨l, hw, Lexeme.means_ofLexeme table _ l, String.toList_ofList⟩
    · exact ih hr _ t ht

theorem extract_middle (as bs cs : List Char) :
    (as ++ bs ++ cs).extract as.length (as ++ bs).length = bs := by
  rw [List.extract_eq_take_drop, List.append_assoc, List.drop_left, List.length_append,
    Nat.add_sub_cancel_left, List.take_left]

/-- Where the first token of a tiling begins and ends in a text, and the pieces of the text. -/
theorem bounds_tile (table : Table) (before gap : List Char) (l : Lexeme) (rest : Tiling)
    {place : Place} (hp : place.offset = before.length) :
    let start := place.advanceAll gap
    let t := Token.ofLexeme table start l
    t.offset = (before ++ gap).length ∧
      t.offset + t.text.length = (before ++ gap ++ l.spelling).length ∧
      (start.advanceAll l.spelling).offset = (before ++ gap ++ l.spelling).length ∧
      before ++ (tile gap l rest).text = before ++ gap ++ l.spelling ++ rest.text := by
  intro start t
  have hstart : t.offset = (before ++ gap).length := by
    rw [List.length_append, ← hp]
    exact Place.offset_advanceAll place gap
  have htext : t.text.length = l.spelling.length := String.length_ofList
  have hend : t.offset + l.spelling.length = (before ++ gap ++ l.spelling).length := by
    rw [hstart, ← List.length_append]
  refine ⟨hstart, htext ▸ hend, ?_, ?_⟩
  · rw [Place.offset_advanceAll]
    exact hend
  · simp only [text, List.append_assoc]

/-- The tokens of a tiling stand where its lexemes do. -/
theorem coverFrom_tokens {table : Table} (before : List Char) {place : Place} {T : Tiling}
    (h : T.Valid) (hp : place.offset = before.length) :
    Token.CoverFrom (before ++ T.text) before.length (T.tokens table place) := by
  induction T generalizing before place with
  | last gap =>
    intro c hc
    rw [text, List.drop_left] at hc
    exact h c hc
  | tile gap l rest ih =>
    obtain ⟨hg, hw, hl, hr⟩ := h
    obtain ⟨hstart, hend, hnext, hsource⟩ := bounds_tile table before gap l rest hp
    rw [hstart] at hend
    simp only [tokens, Token.CoverFrom, hstart, hend, hsource]
    refine ⟨?_, ?_, ?_, ih _ hr hnext⟩
    · rw [List.length_append]
      omega
    · rw [List.append_assoc, extract_middle]
      exact hg
    · rw [extract_middle]
      exact String.toList_ofList.symm

end Tiling

theorem Tiling.Tiles.tokenize_eq {T : Tiling} {source : String} (h : T.Tiles source)
    (table : Table) : tokenize table source = .ok (T.tokens table {}) := by
  rw [tokenize, ← h.text_eq, tokens_text table {} h.valid]

/-- The tokens of a source are those of a tiling of it. -/
theorem exists_tiles_of_tokenize {table : Table} {source : String} {ts : List Token}
    (h : tokenize table source = .ok ts) : ∃ T : Tiling, T.Tiles source ∧ T.tokens table {} = ts := by
  obtain ⟨T, hT, htext⟩ := Tiling.exists_of_tokens h
  have htiles : T.Tiles source := ⟨hT, htext⟩
  rw [htiles.tokenize_eq table] at h
  exact ⟨T, htiles, Except.ok.inj h⟩

/-- Each token of a source tells of a lexeme of the language. -/
theorem exists_lexeme_of_tokenize {table : Table} {source : String} {ts : List Token}
    (h : tokenize table source = .ok ts) :
    ∀ t ∈ ts, ∃ l : Lexeme, l.WellFormed ∧ t.Tells table l := by
  obtain ⟨T, hT, rfl⟩ := exists_tiles_of_tokenize h
  exact hT.valid.exists_lexeme {}

/-- A source has tokens just when it has a tiling. The tiling is then the only one, each of its
lexemes has its token in order, and between the texts of the tokens there are only blanks. -/
theorem tokenize_decides_tilings (table : Table) (source : String) :
    ((∃ ts, tokenize table source = .ok ts) ↔ ∃ T : Tiling, T.Tiles source) ∧
    (∀ T T' : Tiling, T.Tiles source → T'.Tiles source → T = T') ∧
    (∀ (ts : List Token) (T : Tiling), tokenize table source = .ok ts → T.Tiles source →
      List.Forall₂ (Token.Tells table) T.lexemes ts ∧ Token.CoverFrom source.toList 0 ts) := by
  refine ⟨⟨?_, ?_⟩, ?_, ?_⟩
  · intro h
    obtain ⟨ts, hts⟩ := h
    obtain ⟨T, hT, -⟩ := exists_tiles_of_tokenize hts
    exact ⟨T, hT⟩
  · intro h
    obtain ⟨T, hT⟩ := h
    exact ⟨T.tokens table {}, hT.tokenize_eq table⟩
  · intro T T' h h'
    exact h.valid.unique h'.valid (h.text_eq.trans h'.text_eq.symm)
  · intro ts T hts h
    rw [h.tokenize_eq table] at hts
    cases hts
    rw [← h.text_eq]
    exact ⟨T.forall₂_tells table {}, Tiling.coverFrom_tokens [] h.valid rfl⟩

/-- Lexemes without a gap between them split where the first cannot take more. -/
example : (tokenize .empty "12ab=== '\x22'").map (·.map (·.text)) =
    .ok ["12", "ab", "==", "=", "'\x22'"] := by
  rfl

end Boli
