import Boli.Proofs.Parsing.Sentences
import Boli.Proofs.Source
import Boli.Proofs.Source.Layout

/-!
# The canonical source of a program

A well-formed program is written as a source in one way: keywords in their standard spelling, every
body in braces, no separators and no markers, each text in a quote that it does not hold, and one
blank between lexemes (`Program.source`). That source has tokens, and the strict parser gives the
program back. So well-formed programs are exactly those that have a source
(`parse_tokenize_source`).

The lexemes are those of a tiling whose gaps are single blanks, and from the tokens that tell of them
a derivation of the program is put together, one phrase after the other.
-/

set_option autoImplicit false

namespace Boli

open Boli.Keyword (Table)
open Boli.Parser (arithmeticOperators comparisonOperators)
open Grammar (Terminal Sign Primary Expr Cond Stmt Block Tail Stmts)

/-! ## Lexemes of a program -/

/-- The standard spelling of a keyword. -/
def Keyword.spelling : Keyword → String
  | var => "ye"
  | print => "bol"
  | ifStart => "agar"
  | elseIf => "yafir"
  | elseStart => "varna"
  | whileStart => "jabtak"
  | loopStart => "tabtak"

/-- The word that spells a keyword. -/
def Keyword.lexeme (k : Keyword) : Lexeme := .word k.spelling.toList

/-- The double quote, unless a text holds it. -/
def quoteFor (s : String) : Char := if '\x22' ∈ s.toList then '\x27' else '\x22'

/-- The lexemes of an expression. -/
def Expression.lexemes : Expression → List Lexeme
  | .number n => [.number (Nat.toDigits 10 n.natAbs)]
  | .text s => [.quoted (quoteFor s) s.toList]
  | .identifier name => [.word name.toList]
  | .binary operator left right => left.lexemes ++ .operator operator.toList :: right.lexemes
  | .foreign _ _ => []

/-- The lexemes of a condition. -/
def Condition.lexemes : Condition → List Lexeme
  | .compare left operator right => left.lexemes ++ .operator operator.toList :: right.lexemes
  | .foreign _ _ => []

/-- Lexemes between braces. -/
def Lexeme.braced (ls : List Lexeme) : List Lexeme := .openBrace :: (ls ++ [.closeBrace])

mutual

/-- The lexemes of a statement. -/
def Statement.lexemes : Statement → List Lexeme
  | .declare name e => Keyword.var.lexeme :: .word name.toList :: .operator ['='] :: e.lexemes
  | .assign name e => .word name.toList :: .operator ['='] :: e.lexemes
  | .evaluate e => e.lexemes
  | .print e => Keyword.print.lexeme :: e.lexemes
  | .branch c body rest =>
    Keyword.ifStart.lexeme :: (c.lexemes ++ (Lexeme.braced (lexemesOfAll body) ++ rest.lexemes))
  | .loop c body =>
    Keyword.whileStart.lexeme :: (c.lexemes ++ Lexeme.braced (lexemesOfAll body))
  | .foreign _ _ => []

/-- The lexemes of what follows the body of a branch. -/
def Otherwise.lexemes : Otherwise → List Lexeme
  | .nothing => []
  | .last body => Keyword.elseStart.lexeme :: Lexeme.braced (lexemesOfAll body)
  | .elseIf c body rest =>
    Keyword.elseIf.lexeme :: (c.lexemes ++ (Lexeme.braced (lexemesOfAll body) ++ rest.lexemes))

/-- The lexemes of statements. -/
def lexemesOfAll : List Statement → List Lexeme
  | [] => []
  | s :: ss => s.lexemes ++ lexemesOfAll ss

end

/-- The lexemes of a program. -/
def Program.lexemes : Program → List Lexeme
  | .statements ss => lexemesOfAll ss
  | .foreign _ _ => []

/-- The canonical source of a program: its lexemes with one blank between them. -/
def Program.source (p : Program) : String :=
  String.ofList ([' '].intercalate (p.lexemes.map Lexeme.spelling))

/-! ## The lexemes are read back -/

/-- A lexeme of the language; a number is not longer than what can be read. -/
structure Lexeme.Readable (l : Lexeme) : Prop where
  wellFormed : l.WellFormed
  length_le : ∀ digits, l = .number digits → digits.length ≤ 4300

theorem readable_word {letters : List Char} (h : Keyword.isWordChars letters = true) :
    (Lexeme.word letters).Readable := ⟨Lexeme.wellFormed_word h, nofun⟩

theorem readable_keyword (k : Keyword) : k.lexeme.Readable :=
  readable_word (by cases k <;> decide)

theorem isQuote_quoteFor (s : String) : Lexeme.isQuote (quoteFor s) = true := by
  unfold quoteFor
  split
  · rfl
  · rfl

theorem quoteFor_notMem {s : String} (h : IsQuotable s) : quoteFor s ∉ s.toList := by
  unfold quoteFor
  split
  next hdouble => exact h.resolve_left fun hnone => hnone hdouble
  next hdouble => exact hdouble

theorem readable_operator {operator : String}
    (h : operator ∈ arithmeticOperators ++ comparisonOperators) :
    (Lexeme.operator operator.toList).Readable := by
  refine ⟨?_, nofun⟩
  simp only [arithmeticOperators, comparisonOperators, List.cons_append, List.nil_append,
    List.mem_cons, List.not_mem_nil, or_false] at h
  rcases h with rfl | rfl | rfl | rfl | rfl | rfl | rfl | rfl | rfl
  · exact ⟨'+', by decide, .inl rfl⟩
  · exact ⟨'-', by decide, .inl rfl⟩
  · exact ⟨'*', by decide, .inl rfl⟩
  · exact ⟨'/', by decide, .inl rfl⟩
  · exact ⟨'<', by decide, .inl rfl⟩
  · exact ⟨'<', by decide, .inr rfl⟩
  · exact ⟨'=', by decide, .inr rfl⟩
  · exact ⟨'>', by decide, .inl rfl⟩
  · exact ⟨'>', by decide, .inr rfl⟩

/-- All of these lexemes can be read. -/
def AllReadable (ls : List Lexeme) : Prop := ∀ l ∈ ls, l.Readable

theorem allReadable_append {ls ls' : List Lexeme} (h : AllReadable ls) (h' : AllReadable ls') :
    AllReadable (ls ++ ls') :=
  List.forall_mem_append.2 ⟨h, h'⟩

theorem allReadable_cons {l : Lexeme} {ls : List Lexeme} (h : l.Readable) (h' : AllReadable ls) :
    AllReadable (l :: ls) :=
  List.forall_mem_cons.2 ⟨h, h'⟩

theorem allReadable_braced {ls : List Lexeme} (h : AllReadable ls) :
    AllReadable (Lexeme.braced ls) := by
  refine allReadable_cons ⟨trivial, nofun⟩ (allReadable_append h ?_)
  exact allReadable_cons ⟨trivial, nofun⟩ (List.forall_mem_nil _)

theorem readable_assign : (Lexeme.operator ['=']).Readable :=
  ⟨⟨'=', by decide, .inl rfl⟩, nofun⟩

theorem IsName.readable {table : Table} {name : String} (h : IsName table name) :
    (Lexeme.word name.toList).Readable := readable_word h.1

theorem Expression.IsPrimary.allReadable {table : Table} {e : Expression} (h : e.IsPrimary table) :
    AllReadable e.lexemes := by
  cases e with
  | number n =>
    refine allReadable_cons ⟨⟨Nat.toDigits_ne_nil, fun d hd => ?_⟩, ?_⟩ (List.forall_mem_nil _)
    · exact Nat.isDigit_of_mem_toDigits (by decide) (by decide) hd
    · rintro _ ⟨rfl⟩
      exact h.2
  | text s =>
    exact allReadable_cons ⟨⟨isQuote_quoteFor s, quoteFor_notMem h⟩, nofun⟩ (List.forall_mem_nil _)
  | identifier name => exact allReadable_cons h.readable (List.forall_mem_nil _)
  | binary operator left right => exact h.elim
  | foreign kind data => exact h.elim

theorem Expression.WellFormed.allReadable {table : Table} {e : Expression} (h : e.WellFormed table) :
    AllReadable e.lexemes := by
  cases e with
  | binary operator left right =>
    obtain ⟨hoperator, hleft, hright⟩ := h
    have hsign := readable_operator (List.mem_append_left _ hoperator)
    exact allReadable_append hleft.allReadable (allReadable_cons hsign hright.allReadable)
  | number n => exact IsPrimary.allReadable (show IsPrimary table (.number n) from h)
  | text s => exact IsPrimary.allReadable (show IsPrimary table (.text s) from h)
  | identifier name => exact IsPrimary.allReadable (show IsPrimary table (.identifier name) from h)
  | foreign kind data => exact h.elim

theorem Condition.WellFormed.allReadable {table : Table} {c : Condition} (h : c.WellFormed table) :
    AllReadable c.lexemes := by
  cases c with
  | compare left operator right =>
    obtain ⟨hoperator, hleft, hright⟩ := h
    have hsign := readable_operator (List.mem_append_right _ hoperator)
    exact allReadable_append hleft.allReadable (allReadable_cons hsign hright.allReadable)
  | foreign kind data => exact h.elim

mutual

theorem Statement.Has.allReadable {table : Table} : ∀ {s : Statement}, s.Has (.wellFormed table) →
    AllReadable s.lexemes
  | .declare name e, ⟨hname, he⟩ =>
    allReadable_cons (readable_keyword .var) (allReadable_cons hname.readable
      (allReadable_cons readable_assign he.allReadable))
  | .assign name e, ⟨hname, he⟩ =>
    allReadable_cons hname.readable
      (allReadable_cons readable_assign he.allReadable)
  | .evaluate e, ⟨name, hname, h⟩ => by
    subst hname
    exact allReadable_cons h.readable (List.forall_mem_nil _)
  | .print _, he =>
    allReadable_cons (readable_keyword .print) (Expression.WellFormed.allReadable he)
  | .branch c body rest, ⟨hc, hbody, hrest⟩ =>
    allReadable_cons (readable_keyword .ifStart) (allReadable_append hc.allReadable
      (allReadable_append (allReadable_braced hbody.allReadable) hrest.allReadable))
  | .loop c body, ⟨hc, hbody⟩ =>
    allReadable_cons (readable_keyword .whileStart) (allReadable_append hc.allReadable
      (allReadable_braced hbody.allReadable))
  | .foreign _ _, h => h.elim

theorem Otherwise.Has.allReadable {table : Table} : ∀ {r : Otherwise}, r.Has (.wellFormed table) →
    AllReadable r.lexemes
  | .nothing, _ => List.forall_mem_nil _
  | .last _, hbody =>
    allReadable_cons (readable_keyword .elseStart)
      (allReadable_braced (AllHave.allReadable hbody))
  | .elseIf _ _ _, ⟨hc, hbody, hrest⟩ =>
    allReadable_cons (readable_keyword .elseIf) (allReadable_append hc.allReadable
      (allReadable_append (allReadable_braced hbody.allReadable) hrest.allReadable))

theorem AllHave.allReadable {table : Table} : ∀ {ss : List Statement}, AllHave (.wellFormed table) ss →
    AllReadable (lexemesOfAll ss)
  | [], _ => List.forall_mem_nil _
  | _ :: _, ⟨hs, hss⟩ => allReadable_append hs.allReadable hss.allReadable

end

/-! ## One blank between lexemes -/

/-- One blank between each spelling and the next. -/
def Layout.single : Layout where
  before := ""
  between _ := " "
  behind := ""
  isGap_before := isGap_empty
  isGap_between _ := by decide
  between_ne _ := by decide
  isGap_behind := isGap_empty

theorem Layout.toList_join_single (n : Nat) (ls : List Lexeme) :
    (single.join n (ls.map fun l => String.ofList l.spelling)).toList =
      [' '].intercalate (ls.map Lexeme.spelling) := by
  induction ls generalizing n with
  | nil => rfl
  | cons l ls ih =>
    cases ls with
    | nil => simp only [List.map_cons, List.map_nil, join, String.toList_ofList,
        List.intercalate_singleton]
    | cons l' ls =>
      have hblank : (single.between n).toList = [' '] := String.toList_ofList
      rw [List.map_cons] at ih
      simp only [List.map_cons, join, String.toList_append, String.toList_ofList, ih, hblank,
        List.intercalate_cons_cons, List.append_assoc]

/-- The canonical source has its lexemes in this layout. -/
theorem Program.source_eq (p : Program) :
    p.source = Layout.single.source (p.lexemes.map fun l => String.ofList l.spelling) := by
  show p.source = "" ++ (Layout.single.join 0 _ ++ "")
  rw [String.append_empty, String.empty_append, ← String.toList_inj, Layout.toList_join_single,
    Program.source, String.toList_ofList]

/-- The tokens of the canonical source of a program tell of its lexemes. -/
theorem exists_tokens_source {table : Table} {p : Program} (h : AllReadable p.lexemes) :
    ∃ tokens, tokenize table p.source = .ok tokens ∧
      List.Forall₂ (Token.Tells table) p.lexemes tokens := by
  have htells := Tiling.forall₂_tells table {} (Layout.single.tiling [] 0 p.lexemes)
  rw [Layout.lexemes_tiling] at htells
  refine ⟨_, ?_, htells⟩
  rw [p.source_eq]
  exact (Layout.single.tiles_tiling fun l hl => (h l hl).wellFormed).tokenize_eq table

/-- A number token that tells of a number that is not too long can be read. -/
theorem numerals_of_tells {table : Table} {ls : List Lexeme} {tokens : List Token}
    (h : AllReadable ls) (htells : List.Forall₂ (Token.Tells table) ls tokens) :
    Parser.Numerals tokens := by
  induction htells with
  | nil => exact List.forall_mem_nil _
  | @cons l t ls tokens ht _ ih =>
    obtain ⟨hl, hls⟩ := List.forall_mem_cons.1 h
    refine (Parser.numerals_cons t tokens).2 ⟨fun hkind => ?_, ih hls⟩
    have hmeans := ht.means
    rw [hkind] at hmeans
    generalize t.value = value at hmeans
    cases hmeans with
    | @number digits =>
      refine ⟨?_, ?_, ?_⟩
      · rw [String.length_ofList]
        exact List.length_pos_iff.2 hl.wellFormed.1
      · rw [String.length_ofList]
        exact hl.length_le digits rfl
      · rw [String.toList_ofList]
        exact hl.wellFormed.2

/-! ## Derivations -/

section Derivations

variable {t : Token} {tokens : List Token}

/-- These tokens tell of these lexemes, in order. -/
abbrev Telling (ls : List Lexeme) (tokens : List Token) : Prop :=
  List.Forall₂ (Token.Tells .standard) ls tokens

theorem Telling.exists_append {ls ls' : List Lexeme} (h : Telling (ls ++ ls') tokens) :
    ∃ ts ts', Telling ls ts ∧ Telling ls' ts' ∧ ts ++ ts' = tokens := by
  induction ls generalizing tokens with
  | nil => exact ⟨[], tokens, .nil, h, rfl⟩
  | cons l ls ih =>
    obtain ⟨t, rest, ht, hrest, rfl⟩ := List.forall₂_cons_left_iff.1 h
    obtain ⟨ts, ts', hts, hts', rfl⟩ := ih hrest
    exact ⟨t :: ts, ts', .cons ht hts, hts', rfl⟩

theorem Telling.exists_cons {l : Lexeme} {ls : List Lexeme} (h : Telling (l :: ls) tokens) :
    ∃ t ts, t.Tells .standard l ∧ Telling ls ts ∧ t :: ts = tokens := by
  obtain ⟨t, ts, ht, hts, rfl⟩ := List.forall₂_cons_left_iff.1 h
  exact ⟨t, ts, ht, hts, rfl⟩

theorem Telling.exists_singleton {l : Lexeme} (h : Telling [l] tokens) :
    ∃ t, t.Tells .standard l ∧ [t] = tokens := by
  obtain ⟨t, ts, ht, hts, rfl⟩ := h.exists_cons
  cases hts
  exact ⟨t, ht, rfl⟩

theorem Token.Tells.kind_keyword {k : Keyword} (h : t.Tells .standard k.lexeme) :
    t.kind = .keyword k := by
  rw [h.means.eq.1]
  cases k <;> rfl

theorem Token.Tells.name {name : String} (h : t.Tells .standard (.word name.toList))
    (hname : IsName .standard name) : t.kind = .identifier ∧ t.value = name := by
  obtain ⟨hkind, hvalue⟩ := h.means.eq
  rw [Token.Kind.ofLexeme, String.ofList_toList, hname.2] at hkind
  exact ⟨hkind, hvalue.trans String.ofList_toList⟩

theorem Token.Tells.operator {operator : String} (h : t.Tells .standard (.operator operator.toList)) :
    t.kind = .operator ∧ t.value = operator := by
  obtain ⟨hkind, hvalue⟩ := h.means.eq
  exact ⟨hkind, hvalue.trans String.ofList_toList⟩

theorem exists_primary {e : Expression} (he : e.IsPrimary .standard) (h : Telling e.lexemes tokens) :
    ∃ p : Primary, [p.token] = tokens ∧ p.tree = e := by
  cases e with
  | number n =>
    obtain ⟨t, ht, rfl⟩ := h.exists_singleton
    obtain ⟨hkind, hvalue⟩ := ht.means.eq
    refine ⟨.number ⟨t, hkind⟩, rfl, congrArg Expression.number ?_⟩
    have hdigits : t.value = String.ofList (Nat.toDigits 10 n.natAbs) := hvalue
    show Text.Numeral.decimal t.value = n
    rw [hdigits, Text.Numeral.decimal, String.toList_ofList, Nat.ofDigitChars_ten_toDigits]
    exact Int.natAbs_of_nonneg he.1
  | text s =>
    obtain ⟨t, ht, rfl⟩ := h.exists_singleton
    obtain ⟨hkind, hvalue⟩ := ht.means.eq
    exact ⟨.text ⟨t, hkind⟩, rfl, congrArg Expression.text (hvalue.trans String.ofList_toList)⟩
  | identifier name =>
    obtain ⟨t, ht, rfl⟩ := h.exists_singleton
    obtain ⟨hkind, hvalue⟩ := ht.name he
    exact ⟨.identifier ⟨t, hkind⟩, rfl, congrArg Expression.identifier hvalue⟩
  | binary operator left right => exact he.elim
  | foreign kind data => exact he.elim

/-- Two primaries and the sign between them. -/
theorem exists_operation {operator : String} {left right : Expression} {operators : List String}
    (hoperator : operator ∈ operators) (hleft : left.IsPrimary .standard)
    (hright : right.IsPrimary .standard)
    (h : Telling (left.lexemes ++ .operator operator.toList :: right.lexemes) tokens) :
    ∃ (l : Primary) (sign : Sign operators) (r : Primary), [l.token, sign.val, r.token] = tokens ∧
      l.tree = left ∧ sign.val.value = operator ∧ r.tree = right := by
  obtain ⟨ts, _, hl, hmore, rfl⟩ := h.exists_append
  obtain ⟨t, ts', ht, hr, rfl⟩ := hmore.exists_cons
  obtain ⟨l, rfl, rfl⟩ := exists_primary hleft hl
  obtain ⟨r, rfl, rfl⟩ := exists_primary hright hr
  obtain ⟨hkind, rfl⟩ := ht.operator
  exact ⟨l, ⟨t, hkind, hoperator⟩, r, rfl, rfl, rfl, rfl⟩

theorem exists_expr {e : Expression} (he : e.WellFormed .standard) (h : Telling e.lexemes tokens) :
    ∃ d : Expr, d.text = tokens ∧ d.tree = e := by
  cases e with
  | binary operator left right =>
    obtain ⟨l, sign, r, rfl, rfl, rfl, rfl⟩ := exists_operation he.1 he.2.1 he.2.2 h
    exact ⟨.operation l sign r, rfl, rfl⟩
  | number n =>
    obtain ⟨p, rfl, hp⟩ := exists_primary (e := .number n) he h
    exact ⟨.primary p, rfl, hp⟩
  | text s =>
    obtain ⟨p, rfl, hp⟩ := exists_primary (e := .text s) he h
    exact ⟨.primary p, rfl, hp⟩
  | identifier name =>
    obtain ⟨p, rfl, hp⟩ := exists_primary (e := .identifier name) he h
    exact ⟨.primary p, rfl, hp⟩
  | foreign kind data => exact he.elim

theorem exists_cond {c : Condition} (hc : c.WellFormed .standard) (h : Telling c.lexemes tokens) :
    ∃ d : Cond, d.text = tokens ∧ d.tree = c := by
  cases c with
  | compare left operator right =>
    obtain ⟨l, sign, r, rfl, rfl, rfl, rfl⟩ := exists_operation hc.1 hc.2.1 hc.2.2 h
    exact ⟨⟨l, sign, r⟩, rfl, rfl⟩
  | foreign kind data => exact hc.elim

/-- The sign between a name and its value. -/
theorem exists_assignment {name : String} {e : Expression} (hname : IsName .standard name)
    (he : e.WellFormed .standard)
    (h : Telling (.word name.toList :: .operator ['='] :: e.lexemes) tokens) :
    ∃ (n : Terminal .identifier) (sign : Sign [Parser.assignOperator]) (d : Expr),
      n.val :: sign.val :: d.text = tokens ∧ n.val.value = name ∧ d.tree = e := by
  obtain ⟨t, _, ht, hmore, rfl⟩ := h.exists_cons
  obtain ⟨u, _, hu, hvalue, rfl⟩ := hmore.exists_cons
  obtain ⟨hkind, rfl⟩ := ht.name hname
  have hu' : u.Tells .standard (.operator Parser.assignOperator.toList) := hu
  obtain ⟨hsign, hequals⟩ := hu'.operator
  obtain ⟨d, rfl, rfl⟩ := exists_expr he hvalue
  exact ⟨⟨t, hkind⟩, ⟨u, hsign, List.mem_singleton.2 hequals⟩, d, rfl, rfl, rfl⟩

mutual

theorem exists_stmt : ∀ {s : Statement} {tokens : List Token}, s.Has (.wellFormed .standard) →
    Telling s.lexemes tokens → ∃ d : Stmt, d.text = tokens ∧ d.tree = s ∧ d.Innermost
  | .declare name e, tokens, ⟨hname, he⟩, h => by
    obtain ⟨t, _, ht, hmore, rfl⟩ := h.exists_cons
    obtain ⟨n, sign, d, rfl, rfl, rfl⟩ := exists_assignment hname he hmore
    refine ⟨.declare ⟨t, ht.kind_keyword⟩ n sign d none, ?_, rfl, trivial⟩
    simp only [Stmt.text, Terminal.tokens, Option.map_none, Option.toList_none, List.append_nil]
  | .assign name e, tokens, ⟨hname, he⟩, h => by
    obtain ⟨n, sign, d, rfl, rfl, rfl⟩ := exists_assignment hname he h
    refine ⟨.assign n sign d none, ?_, rfl, trivial⟩
    simp only [Stmt.text, Terminal.tokens, Option.map_none, Option.toList_none, List.append_nil]
  | .evaluate e, tokens, ⟨name, hname, hword⟩, h => by
    subst hname
    obtain ⟨t, ht, rfl⟩ := h.exists_singleton
    obtain ⟨hkind, rfl⟩ := ht.name hword
    exact ⟨.evaluate ⟨t, hkind⟩ none, rfl, rfl, trivial⟩
  | .print e, tokens, he, h => by
    obtain ⟨t, _, ht, hvalue, rfl⟩ := h.exists_cons
    obtain ⟨d, rfl, rfl⟩ := exists_expr he hvalue
    refine ⟨.print ⟨t, ht.kind_keyword⟩ d none, ?_, rfl, trivial⟩
    simp only [Stmt.text, Terminal.tokens, Option.map_none, Option.toList_none, List.append_nil]
  | .branch c body rest, tokens, ⟨hc, hbody, hrest⟩, h => by
    obtain ⟨t, _, ht, hmore, rfl⟩ := h.exists_cons
    obtain ⟨_, _, hcond, hfollow, rfl⟩ := hmore.exists_append
    obtain ⟨_, _, hblock, htail, rfl⟩ := hfollow.exists_append
    obtain ⟨dc, rfl, rfl⟩ := exists_cond hc hcond
    obtain ⟨db, rfl, rfl, hinner, hendings⟩ := exists_block hbody hblock
    obtain ⟨dt, rfl, rfl, hinner'⟩ := exists_tail hrest htail
    exact ⟨.branch ⟨t, ht.kind_keyword⟩ dc db dt, rfl, rfl, hinner, hendings ▸ hinner'⟩
  | .loop c body, tokens, ⟨hc, hbody⟩, h => by
    obtain ⟨t, _, ht, hmore, rfl⟩ := h.exists_cons
    obtain ⟨_, _, hcond, hblock, rfl⟩ := hmore.exists_append
    obtain ⟨dc, rfl, rfl⟩ := exists_cond hc hcond
    obtain ⟨db, rfl, rfl, hinner, -⟩ := exists_block hbody hblock
    exact ⟨.loop ⟨t, ht.kind_keyword⟩ dc none db, rfl, rfl, hinner⟩
  | .foreign _ _, _, hforeign, _ => hforeign.elim

theorem exists_block : ∀ {ss : List Statement} {tokens : List Token},
    AllHave (.wellFormed .standard) ss → Telling (Lexeme.braced (lexemesOfAll ss)) tokens →
    ∃ d : Block, d.text = tokens ∧ d.tree = ss ∧ d.Innermost ∧ d.endings = [] := by
  intro ss tokens hss h
  obtain ⟨t, _, ht, hmore, rfl⟩ := h.exists_cons
  obtain ⟨_, _, hbody, hclosing, rfl⟩ := hmore.exists_append
  obtain ⟨u, hu, rfl⟩ := hclosing.exists_singleton
  obtain ⟨d, rfl, rfl, hinner⟩ := exists_stmts hss hbody
  exact ⟨.braced ⟨t, ht.means.eq.1⟩ d ⟨u, hu.means.eq.1⟩, rfl, rfl, hinner, rfl⟩

/-- Nothing in front of a tail ends in an open branch, since the body there has its brace. -/
theorem exists_tail : ∀ {r : Otherwise} {tokens : List Token}, r.Has (.wellFormed .standard) →
    Telling r.lexemes tokens → ∃ d : Tail, d.text = tokens ∧ d.tree = r ∧ d.Innermost []
  | .nothing, tokens, _, h => by
    cases h
    exact ⟨.nothing, rfl, rfl, trivial⟩
  | .last body, tokens, hbody, h => by
    obtain ⟨t, _, ht, hblock, rfl⟩ := h.exists_cons
    obtain ⟨db, rfl, rfl, hinner, -⟩ := exists_block hbody hblock
    exact ⟨.last ⟨t, ht.kind_keyword⟩ db, rfl, rfl, Grammar.closed_nil, hinner⟩
  | .elseIf c body rest, tokens, ⟨hc, hbody, hrest⟩, h => by
    obtain ⟨t, _, ht, hmore, rfl⟩ := h.exists_cons
    obtain ⟨_, _, hcond, hfollow, rfl⟩ := hmore.exists_append
    obtain ⟨_, _, hblock, htail, rfl⟩ := hfollow.exists_append
    obtain ⟨dc, rfl, rfl⟩ := exists_cond hc hcond
    obtain ⟨db, rfl, rfl, hinner, hendings⟩ := exists_block hbody hblock
    obtain ⟨dt, rfl, rfl, hinner'⟩ := exists_tail hrest htail
    exact ⟨.elseIf ⟨t, ht.kind_keyword⟩ dc db dt, rfl, rfl, Grammar.closed_nil, hinner,
      hendings ▸ hinner'⟩

theorem exists_stmts : ∀ {ss : List Statement} {tokens : List Token},
    AllHave (.wellFormed .standard) ss → Telling (lexemesOfAll ss) tokens →
    ∃ d : Stmts, d.text = tokens ∧ d.tree = ss ∧ d.Innermost
  | [], tokens, _, h => by
    cases h
    exact ⟨.nil, rfl, rfl, trivial⟩
  | s :: ss, tokens, ⟨hs, hss⟩, h => by
    obtain ⟨_, _, hfirst, hmore, rfl⟩ := h.exists_append
    obtain ⟨d, rfl, rfl, hinner⟩ := exists_stmt hs hfirst
    obtain ⟨ds, rfl, rfl, hinner'⟩ := exists_stmts hss hmore
    exact ⟨.cons d ds, rfl, rfl, hinner, hinner'⟩

end

end Derivations

/-- The programs of sources are exactly the well-formed ones, and the canonical source of each of
them has tokens that the strict parser takes for that program. -/
theorem parse_tokenize_source (p : Program) :
    ((∃ source tokens, tokenize .standard source = .ok tokens ∧ parse .strict tokens = .ok p) ↔
      p.WellFormed .standard) ∧
    (p.WellFormed .standard →
      ∃ tokens, tokenize .standard p.source = .ok tokens ∧ parse .strict tokens = .ok p) := by
  have hcanonical : p.WellFormed .standard →
      ∃ tokens, tokenize .standard p.source = .ok tokens ∧ parse .strict tokens = .ok p := by
    intro h
    cases p with
    | statements ss =>
      have hreadable : AllReadable (lexemesOfAll ss) := AllHave.allReadable h
      obtain ⟨tokens, htokens, htells⟩ := exists_tokens_source (p := .statements ss) hreadable
      obtain ⟨d, rfl, rfl, hinner⟩ := exists_stmts h htells
      have hn := numerals_of_tells hreadable htells
      exact ⟨d.text, htokens, Parser.parse_of_derives hn ⟨rfl, hinner⟩⟩
    | foreign kind data => exact h.elim
  refine ⟨⟨?_, fun h => ⟨p.source, hcanonical h⟩⟩, hcanonical⟩
  rintro ⟨source, tokens, htokens, hparse⟩
  exact wellFormed_of_parse htokens hparse

/-- A loop around a branch with an empty body, an empty last branch and texts with quotes. -/
def quotedBranches : Program :=
  .statements [.declare "x1" (.binary "*" (.number 12) (.identifier "agarx")),
    .loop (.compare (.text "a\x22b") "<=" (.number 0)) [
      .branch (.compare (.identifier "x1") "==" (.text "it\x27s")) []
        (.elseIf (.compare (.number 1) ">" (.number 2)) [.evaluate (.identifier "x1")] (.last [])),
      .assign "x1" (.text "")],
    .print (.binary "/" (.text "\n") (.identifier "x1"))]

theorem parse_tokenize_source_quotedBranches :
    quotedBranches.WellFormed .standard ∧
    quotedBranches.source =
      "ye x1 = 12 * agarx jabtak \x27a\x22b\x27 <= 0 \x7b agar x1 == \x22it\x27s\x22 \x7b \x7d " ++
        "yafir 1 > 2 \x7b x1 \x7d varna \x7b \x7d x1 = \x22\x22 \x7d bol \x22\n\x22 / x1" ∧
    ∃ tokens, tokenize .standard quotedBranches.source = .ok tokens ∧
      parse .strict tokens = .ok quotedBranches := by
  have h : quotedBranches.WellFormed .standard := by decide
  exact ⟨h, by decide +kernel, (parse_tokenize_source quotedBranches).2 h⟩

end Boli
