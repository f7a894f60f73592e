import Boli.Proofs.Grammar

/-!
# Every sentence has an innermost derivation

A derivation in which an ELSE_IF or ELSE continues an outer branch is rebuilt from the inside out:
what continues a branch is taken off it and put behind the innermost branch that ends there
(`Stmt.exists_continued`), which changes no token of the text. Rebuilding every body this way gives a
derivation of the same tokens in which every ELSE_IF and ELSE belongs to the innermost branch
(`Stmts.exists_innermost`).
-/

set_option autoImplicit false

namespace Boli.Grammar

/-- A tail that is innermost by itself is so behind any body whose last branches are closed. -/
theorem Tail.Innermost.behind {τ : Tail} (h : τ.Innermost []) {before : List Stmt}
    (closed : Closed before) : τ.Innermost before := by
  cases τ with
  | nothing => trivial
  | last start body => exact ⟨closed, h.2⟩
  | elseIf start c body rest => exact ⟨closed, h.2⟩

/-- The text of a branch with another body and tail, when these two have the same text together. -/
theorem Stmt.text_branch_congr {start : Terminal (.keyword .ifStart)} {c : Cond}
    {body body' : Block} {rest rest' : Tail} {more : List Token}
    (h : body'.text ++ rest'.text = body.text ++ (rest.text ++ more)) :
    (Stmt.branch start c body' rest').text = (Stmt.branch start c body rest).text ++ more := by
  simp only [Stmt.text, h, List.cons_append, List.append_assoc]

/-! ## Continuing the innermost branch

The induction follows the end of the text inwards. At a branch it goes on into the last body if a
branch that ends there is still open; otherwise the branch itself is the innermost one, and what
continues it becomes the end of its tail. -/

mutual

/-- A statement at whose end a branch is open can be continued by any tail. -/
theorem Stmt.exists_continued (τ : Tail) (hτ : τ.Innermost []) :
    ∀ d : Stmt, d.Innermost → ¬Closed d.endings →
      ∃ d' : Stmt, d'.Innermost ∧ d'.text = d.text ++ τ.text
  | .branch start c body rest, hd, hopen => by
    have hrest : rest.hasElse = false ∨ ¬Closed (rest.endings body.endings) := by
      rw [Stmt.endings, closed_cons, Classical.not_and_iff_not_or_not, Bool.not_eq_true] at hopen
      exact hopen
    obtain ⟨body', rest', hbody, hinner, htext⟩ := Tail.exists_continued τ hτ rest body hd.1 hd.2
      (Block.exists_continued τ hτ body hd.1) hrest
    exact ⟨.branch start c body' rest', ⟨hbody, hinner⟩, Stmt.text_branch_congr htext⟩
  | .loop start c marker body, hd, hopen => by
    obtain ⟨body', hbody, htext⟩ := Block.exists_continued τ hτ body hd hopen
    refine ⟨.loop start c marker body', hbody, ?_⟩
    simp only [Stmt.text, htext, List.cons_append, List.append_assoc]
  | .declare _ _ _ _ _, _, hopen => absurd closed_nil hopen
  | .print _ _ _, _, hopen => absurd closed_nil hopen
  | .assign _ _ _ _, _, hopen => absurd closed_nil hopen
  | .evaluate _ _, _, hopen => absurd closed_nil hopen

/-- A block at whose end a branch is open can be continued by any tail. -/
theorem Block.exists_continued (τ : Tail) (hτ : τ.Innermost []) :
    ∀ d : Block, d.Innermost → ¬Closed d.endings →
      ∃ d' : Block, d'.Innermost ∧ d'.text = d.text ++ τ.text
  | .braced _ _ _, _, hopen => absurd closed_nil hopen
  | .single s, hd, hopen => by
    obtain ⟨s', hs, htext⟩ := Stmt.exists_continued τ hτ s hd hopen
    exact ⟨.single s', hs, htext⟩

/-- A body and the tail behind it, at whose end a branch is open, can be continued by any tail, if
the body by itself can. -/
theorem Tail.exists_continued (τ : Tail) (hτ : τ.Innermost []) :
    ∀ (rest : Tail) (body : Block), body.Innermost → rest.Innermost body.endings →
      (¬Closed body.endings → ∃ body' : Block, body'.Innermost ∧ body'.text = body.text ++ τ.text) →
      rest.hasElse = false ∨ ¬Closed (rest.endings body.endings) →
      ∃ (body' : Block) (rest' : Tail), body'.Innermost ∧ rest'.Innermost body'.endings ∧
        body'.text ++ rest'.text = body.text ++ (rest.text ++ τ.text)
  | .nothing, body, hbody, _, hcontinue, _ => by
    by_cases closed : Closed body.endings
    · exact ⟨body, τ, hbody, hτ.behind closed, by simp only [Tail.text, List.nil_append]⟩
    · obtain ⟨body', hbody', htext⟩ := hcontinue closed
      refine ⟨body', .nothing, hbody', trivial, ?_⟩
      simp only [Tail.text, htext, List.nil_append, List.append_nil]
  | .last start last, body, hbody, hrest, _, hopen => by
    have hlast : ¬Closed last.endings := by
      simpa only [Tail.hasElse, Tail.endings, Bool.true_eq_false, false_or] using hopen
    obtain ⟨last', hlast', htext⟩ := Block.exists_continued τ hτ last hrest.2 hlast
    refine ⟨body, .last start last', hbody, ⟨hrest.1, hlast'⟩, ?_⟩
    simp only [Tail.text, htext, List.cons_append]
  | .elseIf start c further rest, body, hbody, hrest, _, hopen => by
    obtain ⟨further', rest', hfurther, hinner, htext⟩ := Tail.exists_continued τ hτ rest further
      hrest.2.1 hrest.2.2 (Block.exists_continued τ hτ further hrest.2.1) hopen
    refine ⟨body, .elseIf start c further' rest', hbody, ⟨hrest.1, hfurther, hinner⟩, ?_⟩
    simp only [Tail.text, htext, List.cons_append, List.append_assoc]

end

/-- A body and a tail, each innermost by itself, have the text of a body and a tail that are
innermost together: the tail stays where it is, or continues a branch at the end of the body. -/
theorem exists_joined {body : Block} {rest : Tail} (hbody : body.Innermost)
    (hrest : rest.Innermost []) :
    ∃ (body' : Block) (rest' : Tail), body'.Innermost ∧ rest'.Innermost body'.endings ∧
      body'.text ++ rest'.text = body.text ++ rest.text := by
  by_cases closed : Closed body.endings
  · exact ⟨body, rest, hbody, hrest.behind closed, rfl⟩
  · obtain ⟨body', hbody', htext⟩ := Block.exists_continued rest hrest body hbody closed
    exact ⟨body', .nothing, hbody', trivial, by simp only [Tail.text, htext, List.append_nil]⟩

/-! ## Rebuilding a derivation -/

mutual

/-- The text of a statement has an innermost derivation. -/
theorem Stmt.exists_innermost : ∀ d : Stmt, ∃ d' : Stmt, d'.Innermost ∧ d'.text = d.text
  | .branch start c body rest => by
    obtain ⟨body₁, hbody₁, htext₁⟩ := Block.exists_innermost body
    obtain ⟨rest₁, hrest₁, hrest⟩ := Tail.exists_innermost rest
    obtain ⟨body', rest', hbody, hinner, htext⟩ := exists_joined hbody₁ hrest₁
    refine ⟨.branch start c body' rest', ⟨hbody, hinner⟩, ?_⟩
    simp only [Stmt.text, htext, htext₁, hrest]
  | .loop start c marker body => by
    obtain ⟨body', hbody, htext⟩ := Block.exists_innermost body
    exact ⟨.loop start c marker body', hbody, by simp only [Stmt.text, htext]⟩
  | .declare start name sign value stop => ⟨.declare start name sign value stop, trivial, rfl⟩
  | .print start value stop => ⟨.print start value stop, trivial, rfl⟩
  | .assign name sign value stop => ⟨.assign name sign value stop, trivial, rfl⟩
  | .evaluate name stop => ⟨.evaluate name stop, trivial, rfl⟩

/-- The text of a block has an innermost derivation. -/
theorem Block.exists_innermost : ∀ d : Block, ∃ d' : Block, d'.Innermost ∧ d'.text = d.text
  | .braced opening body closing => by
    obtain ⟨body', hbody, htext⟩ := Stmts.exists_innermost body
    exact ⟨.braced opening body' closing, hbody, by simp only [Block.text, htext]⟩
  | .single s => by
    obtain ⟨s', hs, htext⟩ := Stmt.exists_innermost s
    exact ⟨.single s', hs, htext⟩

/-- The text of a tail has a derivation that is innermost by itself. -/
theorem Tail.exists_innermost : ∀ d : Tail, ∃ d' : Tail, d'.Innermost [] ∧ d'.text = d.text
  | .nothing => ⟨.nothing, trivial, rfl⟩
  | .last start body => by
    obtain ⟨body', hbody, htext⟩ := Block.exists_innermost body
    exact ⟨.last start body', ⟨closed_nil, hbody⟩, by simp only [Tail.text, htext]⟩
  | .elseIf start c body rest => by
    obtain ⟨body₁, hbody₁, htext₁⟩ := Block.exists_innermost body
    obtain ⟨rest₁, hrest₁, hrest⟩ := Tail.exists_innermost rest
    obtain ⟨body', rest', hbody, hinner, htext⟩ := exists_joined hbody₁ hrest₁
    refine ⟨.elseIf start c body' rest', ⟨closed_nil, hbody, hinner⟩, ?_⟩
    simp only [Tail.text, htext, htext₁, hrest]

/-- The text of a sequence of statements has an innermost derivation. -/
theorem Stmts.exists_innermost : ∀ d : Stmts, ∃ d' : Stmts, d'.Innermost ∧ d'.text = d.text
  | .nil => ⟨.nil, trivial, rfl⟩
  | .cons s ss => by
    obtain ⟨s', hs, htext⟩ := Stmt.exists_innermost s
    obtain ⟨ss', hss, htexts⟩ := Stmts.exists_innermost ss
    exact ⟨.cons s' ss', ⟨hs, hss⟩, by simp only [Stmts.text, htext, htexts]⟩

end

end Boli.Grammar
