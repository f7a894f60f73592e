import Boli.Proofs.Grammar.Separators
import Boli.Proofs.Parsing.Sentences

/-!
# Separators and the strict parser

The strict parser gives the same program whatever separators stand where the grammar has a place for
one (`parse_strict_separators`). All that an accepted text has of them can be deleted, in any
selection, and a semicolon can be put behind any simple statement that has none, in a braced body or
in one without braces.
-/

set_option autoImplicit false

namespace Boli

open Grammar (Stmts Thinned)

namespace Parser

/-- Tokens covered by a derivation of the bare form of one that covers accepted tokens are accepted
as the same program. -/
theorem parse_of_bare_eq {tokens tokens' rest rest' : List Token} {d d' : Stmts}
    {ss : List Statement} (h : d.Covers tokens rest) (hss : d.Means ss) (hbare : d'.bare = d.bare)
    (htext : d'.text ++ rest' = tokens') (hrest : (Grammar.next rest').kind = .eof) :
    parse .strict tokens' = .ok (.statements ss) := by
  have hinner : d'.Innermost := by
    rw [← d'.innermost_bare, hbare, d.innermost_bare]
    exact h.innermost
  have hmeans : d'.Means ss := by
    rw [← d'.means_bare, hbare, d.means_bare]
    exact hss
  exact parse_strict_eq_ok_iff.2 ⟨d', rest', ss, ⟨htext, hrest, hinner⟩, hmeans, rfl⟩

end Parser

/-- The strict parser takes no account of separators. If it accepts some tokens, it accepts what is
left of them when any of their separators are deleted. The tokens have a derivation up to the end of
the input, and whichever it is, a semicolon can be put directly behind every simple statement in it
that has none. The program is always the same. -/
theorem parse_strict_separators {tokens : List Token} {p : Program}
    (h : parse .strict tokens = .ok p) :
    (∀ fewer : List Token, Thinned tokens fewer → parse .strict fewer = .ok p) ∧
    (∃ (d : Stmts) (rest : List Token), d.Covers tokens rest) ∧
    ∀ (d : Stmts) (rest : List Token), d.Covers tokens rest → ∀ gap ∈ d.unstopped,
      ∀ t : Token, t.kind = .semicolon →
        parse .strict (gap.before ++ t :: (gap.behind ++ rest)) = .ok p := by
  obtain ⟨d, rest, ss, hd, hss, rfl⟩ := Parser.parse_strict_eq_ok_iff.1 h
  refine ⟨fun fewer hfewer => ?_, ⟨d, rest, hd⟩, fun d' rest' hd' gap hgap t ht => ?_⟩
  · rw [← hd.text_append] at hfewer
    obtain ⟨_, rest', rfl, htext, hrest⟩ := hfewer.split
    obtain ⟨d', rfl, hbare⟩ := d.exists_thinned htext
    exact Parser.parse_of_bare_eq hd hss hbare rfl (hrest.next_eof hd.atEnd)
  · obtain ⟨rfl, rfl⟩ := hd.unique hd'
    obtain ⟨d', htext, hbare⟩ := d.exists_stopped ⟨t, ht⟩ hgap
    refine Parser.parse_of_bare_eq hd hss hbare ?_ hd.atEnd
    rw [htext, Grammar.Gap.insert, List.append_assoc, List.cons_append]

/-- A loop with its marker around a branch, both without braces. One semicolon is there, in front of
an ELSE, and two more behind the end of the input. -/
def separated : List Token :=
  [{ kind := .keyword .whileStart, value := "jabtak" }, { kind := .identifier, value := "x" },
    { kind := .operator, value := "<" }, { kind := .number, value := " -3 " },
    { kind := .keyword .loopStart, value := "tabtak" },
    { kind := .keyword .ifStart, value := "agar" }, { kind := .identifier, value := "x" },
    { kind := .operator, value := "==" }, { kind := .string, value := "a" },
    { kind := .identifier, value := "x" }, { kind := .semicolon, value := ";" },
    { kind := .keyword .elseStart, value := "varna" },
    { kind := .keyword .print, value := "bol" }, { kind := .identifier, value := "x" },
    { kind := .eof, value := "" }, { kind := .semicolon, value := ";" },
    { kind := .semicolon, value := ";" }]

/-- Any of the separators can be deleted, and a semicolon can be put behind the print. -/
theorem parse_strict_separated :
    let p : Program := .statements
      [.loop (.compare (.identifier "x") "<" (.number (-3)))
        [.branch (.compare (.identifier "x") "==" (.text "a")) [.evaluate (.identifier "x")]
          (.last [.print (.identifier "x")])]]
    parse .strict separated = .ok p ∧
    (∀ fewer : List Token, Thinned separated fewer → parse .strict fewer = .ok p) ∧
    (∃ (d : Stmts) (rest : List Token), d.Covers separated rest) ∧
    ∀ (d : Stmts) (rest : List Token), d.Covers separated rest → ∀ gap ∈ d.unstopped,
      ∀ t : Token, t.kind = .semicolon →
        parse .strict (gap.before ++ t :: (gap.behind ++ rest)) = .ok p := by
  intro p
  have h : parse .strict separated = .ok p := by rfl
  exact ⟨h, parse_strict_separators h⟩

end Boli
