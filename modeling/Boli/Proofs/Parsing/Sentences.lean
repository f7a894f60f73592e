import Boli.Proofs.Grammar.Attachment
import Boli.Proofs.Grammar.Unambiguity
import Boli.Proofs.Parsing.Completeness
import Boli.Proofs.Results

/-!
# The strict parser decides the grammar

The main statement (`parse_strict_decides_sentences`): given tokens without an end of input and with
number tokens that can be read, the strict parser gives a program exactly if they are a sentence,
by whatever derivation, and otherwise fails at a token that does not fit. The program is the tree of
the one derivation in which every ELSE_IF and ELSE belongs to the innermost branch.

That no sentence is refused follows without looking at other derivations: any of them can be rebuilt
into an innermost one (`Stmts.exists_innermost`), and of that one the parser takes the whole text.
-/

set_option autoImplicit false

namespace Boli

open Grammar (Stmts Sentence)

namespace Parser

/-- The strict parser accepts what is in front of the end of the input exactly if it is the text of
an innermost derivation, of which all numbers can be read, for what the derivation means. -/
theorem parse_strict_eq_ok_iff {tokens : List Token} {p : Program} :
    parse .strict tokens = .ok p ↔
      ∃ (d : Stmts) (rest : List Token) (ss : List Statement), d.Covers tokens rest ∧ d.Means ss ∧
        p = .statements ss := by
  constructor
  · intro h
    unfold parse at h
    split at h
    next q s hrun =>
      cases h
      obtain ⟨_, hread, d, ss, rfl, hss, rfl, hd, hrest⟩ := (reads_program (.start tokens)).ok _ s hrun
      exact ⟨d, s.rest, ss, ⟨hread.rest_eq.symm, hrest, hd⟩, hss, rfl⟩
    next => cases h
  · rintro ⟨d, rest, ss, ⟨rfl, hrest, hd⟩, hss, rfl⟩
    rw [parse, State.start, accepts_program hrest d hd hss]

/-- Without an end of input among them, all the tokens of an accepted program are its text. -/
theorem exists_means_of_parse {tokens : List Token} {p : Program}
    (heof : ∀ t ∈ tokens, t.kind ≠ .eof) (h : parse .strict tokens = .ok p) :
    ∃ (d : Stmts) (ss : List Statement), d.Derives tokens ∧ d.Means ss ∧ p = .statements ss := by
  obtain ⟨d, rest, ss, ⟨rfl, hrest, hd⟩, hss, rfl⟩ := parse_strict_eq_ok_iff.1 h
  cases rest with
  | nil => exact ⟨d, ss, ⟨(List.append_nil _).symm, hd⟩, hss, rfl⟩
  | cons t ts => exact absurd hrest (heof t (List.mem_append_right _ List.mem_cons_self))

/-- A program that the strict parser gives is the tree of an innermost derivation. -/
theorem exists_derives_of_parse {tokens : List Token} {p : Program}
    (heof : ∀ t ∈ tokens, t.kind ≠ .eof) (hn : Numerals tokens) (h : parse .strict tokens = .ok p) :
    ∃ d : Stmts, d.Derives tokens ∧ p = .statements d.tree := by
  obtain ⟨d, ss, hd, hss, rfl⟩ := exists_means_of_parse heof h
  obtain rfl := (d.means_iff (hd.text_eq ▸ hn) ss).1 hss
  exact ⟨d, hd, rfl⟩

/-- The text of an innermost derivation is parsed as its tree. -/
theorem parse_of_derives {tokens : List Token} {d : Stmts} (hn : Numerals tokens)
    (h : d.Derives tokens) : parse .strict tokens = .ok (.statements d.tree) := by
  have hmeans : d.Means d.tree := (d.means_iff (h.text_eq ▸ hn) _).2 rfl
  have hcovers : d.Covers tokens [] := ⟨by rw [List.append_nil, h.text_eq], rfl, h.innermost⟩
  exact parse_strict_eq_ok_iff.2 ⟨d, [], d.tree, hcovers, hmeans, rfl⟩

/-- The strict parser fails at a token, if number tokens can be read. -/
theorem exists_unexpected_of_parse {tokens : List Token} {e : Failure} (hn : Numerals tokens)
    (h : parse .strict tokens = .error e) : ∃ expected found, e = .unexpected expected found := by
  unfold parse at h
  split at h
  next => cases h
  next failure s hrun =>
    cases h
    obtain ⟨text, expected, -, rfl⟩ := (reads_program (.start tokens)).error hn _ s hrun
    exact ⟨expected, _, rfl⟩

end Parser

/-- Every sentence has an innermost derivation. -/
theorem Grammar.Sentence.exists_derives {tokens : List Token} (h : Sentence tokens) :
    ∃ d : Stmts, d.Derives tokens := by
  obtain ⟨d, rfl⟩ := h
  obtain ⟨d', hinner, htext⟩ := d.exists_innermost
  exact ⟨d', htext, hinner⟩

/-- The strict parser gives a program exactly for the sentences of the grammar, and otherwise says
which token does not fit. The program is the tree of the derivation in which every ELSE_IF and ELSE
belongs to the innermost branch, and there is one such derivation only. -/
theorem parse_strict_decides_sentences {tokens : List Token} (heof : ∀ t ∈ tokens, t.kind ≠ .eof)
    (hn : Parser.Numerals tokens) :
    ((∃ p, parse .strict tokens = .ok p) ↔ Sentence tokens) ∧
    (¬Sentence tokens →
      ∃ expected found, parse .strict tokens = .error (.unexpected expected found)) ∧
    (∀ p, parse .strict tokens = .ok p →
      ∃ d : Stmts, d.Derives tokens ∧ (∀ d' : Stmts, d'.Derives tokens → d' = d) ∧
        p = .statements d.tree) := by
  have hiff : (∃ p, parse .strict tokens = .ok p) ↔ Sentence tokens := by
    constructor
    · rintro ⟨p, hp⟩
      obtain ⟨d, hd, -⟩ := Parser.exists_derives_of_parse heof hn hp
      exact ⟨d, hd.text_eq⟩
    · intro h
      obtain ⟨d, hd⟩ := h.exists_derives
      exact ⟨_, Parser.parse_of_derives hn hd⟩
  refine ⟨hiff, fun hno => ?_, fun p hp => ?_⟩
  · cases hp : parse .strict tokens with
    | ok p => exact absurd (hiff.1 ⟨p, hp⟩) hno
    | error e =>
      obtain ⟨expected, found, rfl⟩ := Parser.exists_unexpected_of_parse hn hp
      exact ⟨expected, found, rfl⟩
  · obtain ⟨d, hd, rfl⟩ := Parser.exists_derives_of_parse heof hn hp
    exact ⟨d, hd, fun d' hd' => hd'.unique hd, rfl⟩

/-- Two branches without braces and one ELSE, which either of them could have. -/
def danglingElse : List Token :=
  [{ kind := .keyword .ifStart, value := "agar" }, { kind := .number, value := "1" },
    { kind := .operator, value := "<" }, { kind := .number, value := "02" },
    { kind := .keyword .ifStart, value := "agar" }, { kind := .identifier, value := "x" },
    { kind := .operator, value := "==" }, { kind := .string, value := "a" },
    { kind := .keyword .print, value := "bol" }, { kind := .number, value := "3" },
    { kind := .keyword .elseStart, value := "varna" },
    { kind := .keyword .print, value := "bol" }, { kind := .identifier, value := "x" }]

/-- The ELSE is the one of the inner branch, and no other innermost derivation is there. -/
theorem parse_strict_danglingElse :
    (∀ t ∈ danglingElse, t.kind ≠ .eof) ∧ Parser.Numerals danglingElse ∧
    ∃ d : Stmts, d.Derives danglingElse ∧ (∀ d' : Stmts, d'.Derives danglingElse → d' = d) ∧
      Program.statements
        [.branch (.compare (.number 1) "<" (.number 2))
          [.branch (.compare (.identifier "x") "==" (.text "a")) [.print (.number 3)]
            (.last [.print (.identifier "x")])] .nothing] = .statements d.tree := by
  have heof : ∀ t ∈ danglingElse, t.kind ≠ .eof := by decide
  have hn : Parser.Numerals danglingElse := by decide
  exact ⟨heof, hn, (parse_strict_decides_sentences heof hn).2.2 _
    (Results.eq_ok_of_toOption (by decide +kernel))⟩

end Boli
