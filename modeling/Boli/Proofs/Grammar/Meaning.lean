import Boli.Proofs.Parsing

/-!
# What derivations mean

The tree of a derivation takes its number tokens for runs of ASCII digits. `Means` says which tree a
derivation stands for when its numbers are read as the parser reads them, with signs, blanks and
digits of any script; a derivation means nothing if one of them cannot be read. Where all numbers are
runs of digits it means its tree and nothing else (`Stmts.means_iff`).
-/

set_option autoImplicit false

namespace Boli.Grammar

open Boli.Parser (Numerals numerals_append numerals_cons)
open Text.Numeral (read_eq_decimal)

/-! ## Expressions and conditions -/

/-- A primary stands for an expression. -/
def Primary.Means : Primary → Expression → Prop
  | number t, e => ∃ n, Text.Numeral.read t.val.value = .ok n ∧ e = .number n
  | text t, e => e = .text t.val.value
  | identifier t, e => e = .identifier t.val.value

/-- A derivation stands for an expression. -/
def Expr.Means : Expr → Expression → Prop
  | primary p, e => p.Means e
  | operation left sign right, e =>
    ∃ l r, left.Means l ∧ right.Means r ∧ e = .binary sign.val.value l r

/-- A derivation stands for a condition. -/
def Cond.Means (d : Cond) (c : Condition) : Prop :=
  ∃ l r, d.left.Means l ∧ d.right.Means r ∧ c = .compare l d.sign.val.value r

theorem Primary.means_iff {p : Primary} (hn : Numerals [p.token]) {e : Expression} :
    p.Means e ↔ e = p.tree := by
  cases p with
  | number t =>
    have hdigits := hn t.val (List.mem_singleton_self _) t.2
    simp only [Means, tree, read_eq_decimal hdigits, Except.ok.injEq, exists_eq_left']
  | text t => exact Iff.rfl
  | identifier t => exact Iff.rfl

theorem Expr.means_iff {d : Expr} (hn : Numerals d.text) {e : Expression} :
    d.Means e ↔ e = d.tree := by
  cases d with
  | primary p => exact Primary.means_iff hn
  | operation left sign right =>
    rw [text, numerals_cons, numerals_cons] at hn
    have hl : Numerals [left.token] := (numerals_cons _ _).2 ⟨hn.1, nofun⟩
    simp only [Means, tree, Primary.means_iff hl, Primary.means_iff hn.2.2, exists_and_left,
      exists_eq_left]

theorem Cond.means_iff {d : Cond} (hn : Numerals d.text) {c : Condition} :
    d.Means c ↔ c = d.tree := by
  rw [text, numerals_cons, numerals_cons] at hn
  have hl : Numerals [d.left.token] := (numerals_cons _ _).2 ⟨hn.1, nofun⟩
  simp only [Means, tree, Primary.means_iff hl, Primary.means_iff hn.2.2, exists_and_left,
    exists_eq_left]

/-! ## Statements -/

mutual

/-- A derivation stands for a statement. -/
def Stmt.Means : Stmt → Statement → Prop
  | .declare _ name _ value _, s => ∃ e, value.Means e ∧ s = .declare name.val.value e
  | .print _ value _, s => ∃ e, value.Means e ∧ s = .print e
  | .assign name _ value _, s => ∃ e, value.Means e ∧ s = .assign name.val.value e
  | .evaluate name _, s => s = .evaluate (.identifier name.val.value)
  | .branch _ c body rest, s =>
    ∃ c' ss r, c.Means c' ∧ body.Means ss ∧ rest.Means r ∧ s = .branch c' ss r
  | .loop _ c _ body, s => ∃ c' ss, c.Means c' ∧ body.Means ss ∧ s = .loop c' ss

/-- The derivation of a block stands for statements. -/
def Block.Means : Block → List Statement → Prop
  | .braced _ body _, ss => body.Means ss
  | .single d, ss => ∃ s, d.Means s ∧ ss = [s]

/-- A derivation stands for what continues a branch. -/
def Tail.Means : Tail → Otherwise → Prop
  | .nothing, o => o = .nothing
  | .last _ body, o => ∃ ss, body.Means ss ∧ o = .last ss
  | .elseIf _ c body rest, o =>
    ∃ c' ss r, c.Means c' ∧ body.Means ss ∧ rest.Means r ∧ o = .elseIf c' ss r

/-- A derivation stands for a sequence of statements. -/
def Stmts.Means : Stmts → List Statement → Prop
  | .nil, ss => ss = []
  | .cons d ds, ss => ∃ s ss', d.Means s ∧ ds.Means ss' ∧ ss = s :: ss'

end

mutual

theorem Stmt.means_iff : ∀ (d : Stmt), Numerals d.text → ∀ s, d.Means s ↔ s = d.tree
  | .declare _ _ _ value _, hn, s => by
    simp only [Stmt.text, numerals_cons, numerals_append] at hn
    simp only [Stmt.Means, Stmt.tree, Expr.means_iff hn.2.2.2.1, exists_eq_left]
  | .print _ value _, hn, s => by
    simp only [Stmt.text, numerals_cons, numerals_append] at hn
    simp only [Stmt.Means, Stmt.tree, Expr.means_iff hn.2.1, exists_eq_left]
  | .assign _ _ value _, hn, s => by
    simp only [Stmt.text, numerals_cons, numerals_append] at hn
    simp only [Stmt.Means, Stmt.tree, Expr.means_iff hn.2.2.1, exists_eq_left]
  | .evaluate _ _, _, _ => Iff.rfl
  | .branch _ c body rest, hn, s => by
    simp only [Stmt.text, numerals_cons, numerals_append] at hn
    simp only [Stmt.Means, Stmt.tree, Cond.means_iff hn.2.1, body.means_iff hn.2.2.1,
      rest.means_iff hn.2.2.2, exists_and_left, exists_eq_left]
  | .loop _ c _ body, hn, s => by
    simp only [Stmt.text, numerals_cons, numerals_append] at hn
    simp only [Stmt.Means, Stmt.tree, Cond.means_iff hn.2.1, body.means_iff hn.2.2.2,
      exists_and_left, exists_eq_left]

theorem Block.means_iff : ∀ (d : Block), Numerals d.text → ∀ ss, d.Means ss ↔ ss = d.tree
  | .braced _ body _, hn, ss => by
    simp only [Block.text, numerals_cons, numerals_append] at hn
    exact body.means_iff hn.2.1 ss
  | .single d, hn, ss => by
    simp only [Block.Means, Block.tree, d.means_iff hn, exists_eq_left]

theorem Tail.means_iff : ∀ (d : Tail), Numerals d.text → ∀ o, d.Means o ↔ o = d.tree
  | .nothing, _, _ => Iff.rfl
  | .last _ body, hn, o => by
    simp only [Tail.text, numerals_cons] at hn
    simp only [Tail.Means, Tail.tree, body.means_iff hn.2, exists_eq_left]
  | .elseIf _ c body rest, hn, o => by
    simp only [Tail.text, numerals_cons, numerals_append] at hn
    simp only [Tail.Means, Tail.tree, Cond.means_iff hn.2.1, body.means_iff hn.2.2.1,
      rest.means_iff hn.2.2.2, exists_and_left, exists_eq_left]

theorem Stmts.means_iff : ∀ (d : Stmts), Numerals d.text → ∀ ss, d.Means ss ↔ ss = d.tree
  | .nil, _, _ => Iff.rfl
  | .cons d ds, hn, ss => by
    simp only [Stmts.text, numerals_append] at hn
    simp only [Stmts.Means, Stmts.tree, d.means_iff hn.1, ds.means_iff hn.2, exists_and_left,
      exists_eq_left]

end

end Boli.Grammar
