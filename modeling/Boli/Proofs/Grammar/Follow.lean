import Boli.Proofs.Grammar

/-!
# What stands behind a text

A text of the grammar ends where the next token cannot be a part of it. For a simple statement that
is any token but an operator or a separator; for a statement that ends in an open branch also any
but ELSE_IF and ELSE. `Follows` says so of the tokens behind a text, and the laws of this module
give it for every body in terms of what stands behind the whole statement.
-/

set_option autoImplicit false

namespace Boli.Grammar

/-- The token that stands next; behind the last one it is the end of the input. -/
def next (tokens : List Token) : Token := tokens.headD Token.endOfInput

/-- A derivation of the tokens in front of the end of the input, with the tokens from there on, in
which every ELSE_IF and ELSE belongs to the innermost branch that it can continue. -/
structure Stmts.Covers (d : Stmts) (tokens rest : List Token) : Prop where
  text_append : d.text ++ rest = tokens
  atEnd : (next rest).kind = .eof
  innermost : d.Innermost

/-- Tokens that continue no branch. -/
def NoElse (tokens : List Token) : Prop :=
  (next tokens).kind ≠ .keyword .elseIf ∧ (next tokens).kind ≠ .keyword .elseStart

/-- Tokens that begin with none that continues the text before them, at the end of which all
branches are closed or not. -/
structure Follows (closed : Prop) (tokens : List Token) : Prop where
  operator : (next tokens).kind ≠ .operator
  semicolon : (next tokens).kind ≠ .semicolon
  continuation : closed ∨ NoElse tokens

/-- Tokens that begin with the end of a sequence of statements. -/
def Ends (tokens : List Token) : Prop :=
  (next tokens).kind = .closeBrace ∨ (next tokens).kind = .eof

theorem ends_nil : Ends [] := .inr rfl

theorem ends_closeBrace (t : Terminal .closeBrace) (ts : List Token) : Ends (t.val :: ts) := .inl t.2

/-- What follows depends on the branches only if some of them is open. -/
theorem Follows.imp {p q : Prop} {tokens : List Token} (h : Follows p tokens) (hpq : p → q) :
    Follows q tokens := ⟨h.operator, h.semicolon, h.continuation.imp_left hpq⟩

theorem Ends.kind_ne {tokens : List Token} (h : Ends tokens) {kind : Token.Kind}
    (hbrace : .closeBrace ≠ kind) (heof : .eof ≠ kind) : (next tokens).kind ≠ kind := by
  rcases h with h | h
  · rwa [h]
  · rwa [h]

/-- The end of a sequence of statements continues nothing. -/
theorem Ends.follows {tokens : List Token} (h : Ends tokens) (p : Prop) : Follows p tokens where
  operator := h.kind_ne (by decide) (by decide)
  semicolon := h.kind_ne (by decide) (by decide)
  continuation := .inr ⟨h.kind_ne (by decide) (by decide), h.kind_ne (by decide) (by decide)⟩

/-! ## First tokens -/

/-- The kind of the token that begins a statement. -/
def Stmt.startKind : Stmt → Token.Kind
  | .declare _ _ _ _ _ => .keyword .var
  | .print _ _ _ => .keyword .print
  | .assign _ _ _ _ => .identifier
  | .evaluate _ _ => .identifier
  | .branch _ _ _ _ => .keyword .ifStart
  | .loop _ _ _ _ => .keyword .whileStart

/-- The kinds of the tokens that begin statements. -/
def Stmt.startKinds : List Token.Kind :=
  [.keyword .var, .keyword .print, .identifier, .keyword .ifStart, .keyword .whileStart]

/-- The kind of the token that begins a block. -/
def Block.startKind : Block → Token.Kind
  | .braced _ _ _ => .openBrace
  | .single s => s.startKind

theorem Stmt.kind_next_text (d : Stmt) (r : List Token) :
    (next (d.text ++ r)).kind = d.startKind := by
  cases d with
  | declare start name sign value stop => exact start.2
  | print start value stop => exact start.2
  | assign name sign value stop => exact name.2
  | evaluate name stop => exact name.2
  | branch start c body rest => exact start.2
  | loop start c marker body => exact start.2

theorem Block.kind_next_text (d : Block) (r : List Token) :
    (next (d.text ++ r)).kind = d.startKind := by
  cases d with
  | braced opening body closing => exact opening.2
  | single s => exact s.kind_next_text r

/-- A statement has a token. -/
theorem Stmt.length_text_pos (d : Stmt) : 0 < d.text.length := by
  cases d <;> exact Nat.succ_pos _

theorem Stmt.startKind_mem (d : Stmt) : d.startKind ∈ startKinds := by
  cases d <;> simp [startKind, startKinds]

theorem Stmt.startKind_ne (d : Stmt) {kind : Token.Kind} (h : kind ∉ startKinds) :
    d.startKind ≠ kind := by
  intro he
  exact h (he ▸ d.startKind_mem)

theorem Stmt.kind_next_ne (d : Stmt) (r : List Token) {kind : Token.Kind}
    (h : kind ∉ startKinds) : (next (d.text ++ r)).kind ≠ kind := by
  rw [d.kind_next_text r]
  exact d.startKind_ne h

/-- A statement follows any other and never ends a sequence. -/
theorem Stmt.follows_text (d : Stmt) (r : List Token) (p : Prop) : Follows p (d.text ++ r) where
  operator := d.kind_next_ne r (by decide)
  semicolon := d.kind_next_ne r (by decide)
  continuation := .inr ⟨d.kind_next_ne r (by decide), d.kind_next_ne r (by decide)⟩

theorem Stmt.not_ends_text (d : Stmt) (r : List Token) : ¬Ends (d.text ++ r) := by
  rw [Ends, not_or]
  exact ⟨d.kind_next_ne r (by decide), d.kind_next_ne r (by decide)⟩

/-- No block begins with the marker that may stand before the body of a loop. -/
theorem Block.kind_next_ne_loopStart (d : Block) (r : List Token) :
    (next (d.text ++ r)).kind ≠ .keyword .loopStart := by
  rw [d.kind_next_text r]
  cases d with
  | braced opening body closing => nofun
  | single s => exact s.startKind_ne (by decide)

/-! ## Behind the parts of a statement -/

/-- Behind an expression stands a separator or what follows the statement, and neither is an
operator. -/
theorem Terminal.operator_ne_next_stop {o : Option (Terminal .semicolon)} {r : List Token}
    {p : Prop} (hr : Follows p r) : (next (tokens o ++ r)).kind ≠ .operator := by
  cases o with
  | none => exact hr.operator
  | some t =>
    have ht : (next (tokens (some t) ++ r)).kind = .semicolon := t.2
    rw [ht]
    nofun

/-- Behind a statement of a sequence stands the next one or the end. -/
theorem Stmts.follows_text (d : Stmts) {r : List Token} (h : Ends r) (p : Prop) :
    Follows p (d.text ++ r) := by
  cases d with
  | nil => exact h.follows p
  | cons s ss =>
    rw [Stmts.text, List.append_assoc]
    exact s.follows_text (ss.text ++ r) p

/-- Whether all branches are closed that end where a branch with this tail ends, itself included. -/
def Tail.AllClosed (τ : Tail) (before : List Stmt) : Prop :=
  τ.hasElse = true ∧ Closed (τ.endings before)

theorem Stmt.closed_branch {start : Terminal (.keyword .ifStart)} {c : Cond} {body : Block}
    {rest : Tail} :
    Closed (Stmt.branch start c body rest).endings ↔ rest.AllClosed body.endings := by
  simp only [Stmt.endings, Closed, List.forall_mem_cons, Stmt.hasElse, Tail.AllClosed]

/-- Behind a body stands the tail of its branch or, if that is empty, what stands behind the branch.
A tail that is innermost begins only behind a body whose branches are closed. -/
theorem Tail.follows_text {τ : Tail} {before : List Stmt} {r : List Token}
    (hτ : τ.Innermost before) (h : Follows (τ.AllClosed before) r) :
    Follows (Closed before) (τ.text ++ r) := by
  cases τ with
  | nothing => exact h.imp And.right
  | last start body =>
    have hk : (next ((Tail.last start body).text ++ r)).kind = .keyword .elseStart := start.2
    exact ⟨by rw [hk]; nofun, by rw [hk]; nofun, .inl hτ.1⟩
  | elseIf start c body rest =>
    have hk : (next ((Tail.elseIf start c body rest).text ++ r)).kind = .keyword .elseIf := start.2
    exact ⟨by rw [hk]; nofun, by rw [hk]; nofun, .inl hτ.1⟩

/-- What stands behind a branch that ends with its ELSE stands behind the body of the ELSE. -/
theorem Tail.follows_last {start : Terminal (.keyword .elseStart)} {body : Block}
    {before : List Stmt} {r : List Token}
    (h : Follows ((Tail.last start body).AllClosed before) r) : Follows (Closed body.endings) r :=
  h.imp And.right

end Boli.Grammar
