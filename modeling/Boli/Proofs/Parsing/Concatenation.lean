import Boli.Proofs.Parsing.Sentences

/-!
# One program behind another

Two accepted sequences of tokens, one behind the other, are accepted, and their program is the one
program with the statements of the other behind its own (`parse_strict_append`). At the end of a
statement that could take more tokens, an expression or a branch without braces, no statement goes
on: what the next one begins with continues nothing. In derivations this is that a sequence of
statements has no other condition on it than those on each of them.
-/

set_option autoImplicit false

namespace Boli

namespace Grammar.Stmts

/-- The statements of a sequence with those of another behind them. -/
def append : Stmts → Stmts → Stmts
  | .nil, ds' => ds'
  | .cons d ds, ds' => .cons d (ds.append ds')

theorem text_append : ∀ d d' : Stmts, (d.append d').text = d.text ++ d'.text
  | .nil, _ => rfl
  | .cons d ds, d' => by rw [append, text, text, text_append ds d', List.append_assoc]

theorem Innermost.append : ∀ {d d' : Stmts}, d.Innermost → d'.Innermost → (d.append d').Innermost
  | .nil, _, _, hd' => hd'
  | .cons _ _, _, hd, hd' => ⟨hd.1, Innermost.append hd.2 hd'⟩

theorem Means.append : ∀ {d d' : Stmts} {ss ss' : List Statement}, d.Means ss → d'.Means ss' →
    (d.append d').Means (ss ++ ss')
  | .nil, _, _, _, rfl, hd' => hd'
  | .cons _ _, _, _, ss', ⟨s, ss, hs, hss, rfl⟩, hd' =>
    ⟨s, ss ++ ss', hs, Means.append hss hd', rfl⟩

end Grammar.Stmts

/-- Behind tokens that the strict parser accepts, among which no end of input is, it reads other
tokens as if they stood alone. The program of both has the statements of the first and then those of
the second. -/
theorem parse_strict_append {tokens tokens' : List Token} {p p' : Program}
    (heof : ∀ t ∈ tokens, t.kind ≠ .eof) (h : parse .strict tokens = .ok p)
    (h' : parse .strict tokens' = .ok p') :
    ∃ ss ss' : List Statement, p = .statements ss ∧ p' = .statements ss' ∧
      parse .strict (tokens ++ tokens') = .ok (.statements (ss ++ ss')) := by
  obtain ⟨d, ss, hd, hss, rfl⟩ := Parser.exists_means_of_parse heof h
  obtain ⟨d', rest, ss', hd', hss', rfl⟩ := Parser.parse_strict_eq_ok_iff.1 h'
  have hcovers : (d.append d').Covers (tokens ++ tokens') rest := by
    refine ⟨?_, hd'.atEnd, hd.innermost.append hd'.innermost⟩
    rw [Grammar.Stmts.text_append, hd.text_eq, List.append_assoc, hd'.text_append]
  exact ⟨ss, ss', rfl, rfl,
    Parser.parse_strict_eq_ok_iff.2 ⟨_, rest, _, hcovers, hss.append hss', rfl⟩⟩

/-- A branch without braces that ends in a name by itself. -/
def openBranch : List Token :=
  [{ kind := .keyword .ifStart, value := "agar" }, { kind := .identifier, value := "x" },
    { kind := .operator, value := "<" }, { kind := .number, value := "5" },
    { kind := .identifier, value := "x" }]

/-- Neither the branch nor the name takes a token of the second program. -/
theorem parse_strict_openBranch_append :
    let branch : Statement :=
      .branch (.compare (.identifier "x") "<" (.number 5)) [.evaluate (.identifier "x")] .nothing
    (∀ t ∈ openBranch, t.kind ≠ .eof) ∧ parse .strict openBranch = .ok (.statements [branch]) ∧
    ∃ ss ss' : List Statement, Program.statements [branch] = .statements ss ∧
      Program.statements [branch] = .statements ss' ∧
      parse .strict (openBranch ++ openBranch) = .ok (.statements (ss ++ ss')) := by
  intro branch
  have heof : ∀ t ∈ openBranch, t.kind ≠ .eof := by decide
  have h : parse .strict openBranch = .ok (.statements [branch]) := by rfl
  exact ⟨heof, h, parse_strict_append heof h h⟩

end Boli
