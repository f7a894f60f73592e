import Boli.Proofs.Grammar.Follow

/-!
# A sequence of tokens has one innermost derivation

Two derivations of the same kind are compared at the front of one sequence of tokens, with nothing
behind either text that would continue it. They are then the same, and leave the same tokens
(`Stmt.text_cancel` and its companions). Without the innermost rule that fails at the tail of a
branch, where one derivation could end and the other go on with an ELSE.
-/

set_option autoImplicit false

namespace Boli.Grammar

/-! ## Terminals -/

/-- An optional token is there or not, if what follows it is of another kind. -/
theorem Terminal.tokens_cancel {kind : Token.Kind} {o o' : Option (Terminal kind)}
    {r r' : List Token} (hr : (next r).kind ≠ kind) (hr' : (next r').kind ≠ kind)
    (h : tokens o ++ r = tokens o' ++ r') : o = o' ∧ r = r' := by
  cases o with
  | none =>
    cases o' with
    | none => exact ⟨rfl, h⟩
    | some t' =>
      have hnext : next r = t'.val := congrArg next h
      exact absurd t'.2 (hnext ▸ hr)
  | some t =>
    cases o' with
    | none =>
      have hnext : t.val = next r' := congrArg next h
      exact absurd t.2 (hnext ▸ hr')
    | some t' =>
      obtain ⟨ht, hrest⟩ := List.cons.inj h
      exact ⟨congrArg some (Subtype.ext ht), hrest⟩

/-- An optional separator stops where a statement does. -/
theorem Terminal.stop_cancel {o o' : Option (Terminal .semicolon)} {r r' : List Token} {p p' : Prop}
    (hr : Follows p r) (hr' : Follows p' r') (h : tokens o ++ r = tokens o' ++ r') :
    o = o' ∧ r = r' :=
  tokens_cancel hr.semicolon hr'.semicolon h

/-! ## Expressions and conditions -/

theorem Primary.token_injective {p q : Primary} (h : p.token = q.token) : p = q := by
  have hkind : p.token.kind = q.token.kind := congrArg Token.kind h
  cases p with
  | number t => cases q with
    | number t' => exact congrArg number (Subtype.ext h)
    | text t' => exact nomatch t.2.symm.trans (hkind.trans t'.2)
    | identifier t' => exact nomatch t.2.symm.trans (hkind.trans t'.2)
  | text t => cases q with
    | number t' => exact nomatch t.2.symm.trans (hkind.trans t'.2)
    | text t' => exact congrArg text (Subtype.ext h)
    | identifier t' => exact nomatch t.2.symm.trans (hkind.trans t'.2)
  | identifier t => cases q with
    | number t' => exact nomatch t.2.symm.trans (hkind.trans t'.2)
    | text t' => exact nomatch t.2.symm.trans (hkind.trans t'.2)
    | identifier t' => exact congrArg identifier (Subtype.ext h)

theorem Expr.text_cancel {e e' : Expr} {r r' : List Token} (hr : (next r).kind ≠ .operator)
    (hr' : (next r').kind ≠ .operator) (h : e.text ++ r = e'.text ++ r') : e = e' ∧ r = r' := by
  obtain _ | ⟨left, sign, right⟩ := e
  · obtain _ | ⟨left', sign', right'⟩ := e'
    · obtain ⟨hp, hrest⟩ := List.cons.inj h
      exact ⟨congrArg primary (Primary.token_injective hp), hrest⟩
    · have hnext : next r = sign'.val := congrArg next (List.cons.inj h).2
      exact absurd sign'.2.1 (hnext ▸ hr)
  · obtain _ | ⟨left', sign', right'⟩ := e'
    · have hnext : sign.val = next r' := congrArg next (List.cons.inj h).2
      exact absurd sign.2.1 (hnext ▸ hr')
    · obtain ⟨hleft, h⟩ := List.cons.inj h
      obtain ⟨hsign, h⟩ := List.cons.inj h
      obtain ⟨hright, hrest⟩ := List.cons.inj h
      rw [Primary.token_injective hleft, Subtype.ext hsign, Primary.token_injective hright]
      exact ⟨rfl, hrest⟩

theorem Cond.text_cancel {c c' : Cond} {r r' : List Token} (h : c.text ++ r = c'.text ++ r') :
    c = c' ∧ r = r' := by
  obtain ⟨left, sign, right⟩ := c
  obtain ⟨left', sign', right'⟩ := c'
  obtain ⟨hleft, h⟩ := List.cons.inj h
  obtain ⟨hsign, h⟩ := List.cons.inj h
  obtain ⟨hright, hrest⟩ := List.cons.inj h
  obtain rfl : left = left' := Primary.token_injective hleft
  obtain rfl : sign = sign' := Subtype.ext hsign
  obtain rfl : right = right' := Primary.token_injective hright
  exact ⟨rfl, hrest⟩

/-- An expression and its separator, at the end of a statement. -/
theorem Expr.stop_cancel {e e' : Expr} {o o' : Option (Terminal .semicolon)} {r r' : List Token}
    {p p' : Prop} (hr : Follows p r) (hr' : Follows p' r')
    (h : e.text ++ Terminal.tokens o ++ r = e'.text ++ Terminal.tokens o' ++ r') :
    e = e' ∧ o = o' ∧ r = r' := by
  rw [List.append_assoc, List.append_assoc] at h
  obtain ⟨he, h⟩ := Expr.text_cancel (Terminal.operator_ne_next_stop hr)
    (Terminal.operator_ne_next_stop hr') h
  exact ⟨he, Terminal.stop_cancel hr hr' h⟩

/-! ## Statements

The induction is on the first derivation. Which case the second one is in is decided by the first
token alone, except that a name can begin an assignment or stand by itself, and that an empty tail
has no token. -/

mutual

theorem Stmt.text_cancel : ∀ (d d' : Stmt) (r r' : List Token), d.Innermost → d'.Innermost →
    Follows (Closed d.endings) r → Follows (Closed d'.endings) r' →
    d.text ++ r = d'.text ++ r' → d = d' ∧ r = r'
  | .declare start name sign value stop, d', r, r', _, _, hr, hr', h => by
    have hstart := d'.kind_next_text r' ▸ congrArg (fun ts => (next ts).kind) h
    cases d' with
    | declare start' name' sign' value' stop' =>
      obtain ⟨h₁, h⟩ := List.cons.inj h
      obtain ⟨h₂, h⟩ := List.cons.inj h
      obtain ⟨h₃, h⟩ := List.cons.inj h
      obtain ⟨rfl, rfl, hrest⟩ := Expr.stop_cancel hr hr' h
      rw [Subtype.ext h₁, Subtype.ext h₂, Subtype.ext h₃]
      exact ⟨rfl, hrest⟩
    | _ => exact nomatch start.2.symm.trans hstart
  | .print start value stop, d', r, r', _, _, hr, hr', h => by
    have hstart := d'.kind_next_text r' ▸ congrArg (fun ts => (next ts).kind) h
    cases d' with
    | print start' value' stop' =>
      obtain ⟨h₁, h⟩ := List.cons.inj h
      obtain ⟨rfl, rfl, hrest⟩ := Expr.stop_cancel hr hr' h
      rw [Subtype.ext h₁]
      exact ⟨rfl, hrest⟩
    | _ => exact nomatch start.2.symm.trans hstart
  | .assign name sign value stop, d', r, r', _, _, hr, hr', h => by
    have hstart := d'.kind_next_text r' ▸ congrArg (fun ts => (next ts).kind) h
    cases d' with
    | assign name' sign' value' stop' =>
      obtain ⟨h₁, h⟩ := List.cons.inj h
      obtain ⟨h₂, h⟩ := List.cons.inj h
      obtain ⟨rfl, rfl, hrest⟩ := Expr.stop_cancel hr hr' h
      rw [Subtype.ext h₁, Subtype.ext h₂]
      exact ⟨rfl, hrest⟩
    | evaluate name' stop' =>
      have hnext : sign.val = next (Terminal.tokens stop' ++ r') := congrArg next (List.cons.inj h).2
      exact absurd sign.2.1 (hnext ▸ Terminal.operator_ne_next_stop hr')
    | _ => exact nomatch name.2.symm.trans hstart
  | .evaluate name stop, d', r, r', _, _, hr, hr', h => by
    have hstart := d'.kind_next_text r' ▸ congrArg (fun ts => (next ts).kind) h
    cases d' with
    | assign name' sign' value' stop' =>
      have hnext : next (Terminal.tokens stop ++ r) = sign'.val := congrArg next (List.cons.inj h).2
      exact absurd sign'.2.1 (hnext ▸ Terminal.operator_ne_next_stop hr)
    | evaluate name' stop' =>
      obtain ⟨h₁, h⟩ := List.cons.inj h
      obtain ⟨rfl, hrest⟩ := Terminal.stop_cancel hr hr' h
      rw [Subtype.ext h₁]
      exact ⟨rfl, hrest⟩
    | _ => exact nomatch name.2.symm.trans hstart
  | .branch start c body rest, d', r, r', hd, hd', hr, hr', h => by
    have hstart := d'.kind_next_text r' ▸ congrArg (fun ts => (next ts).kind) h
    cases d' with
    | branch start' c' body' rest' =>
      rw [Stmt.closed_branch] at hr hr'
      simp only [Stmt.text, List.cons_append, List.append_assoc] at h
      obtain ⟨h₁, h₂⟩ := List.cons.inj h
      obtain ⟨rfl, h₃⟩ := Cond.text_cancel h₂
      obtain ⟨rfl, h₄⟩ := Block.text_cancel body body' _ _ hd.1 hd'.1
        (Tail.follows_text hd.2 hr) (Tail.follows_text hd'.2 hr') h₃
      obtain ⟨rfl, hrest⟩ := Tail.text_cancel rest rest' body.endings r r' hd.2 hd'.2 hr hr' h₄
      rw [Subtype.ext h₁]
      exact ⟨rfl, hrest⟩
    | _ => exact nomatch start.2.symm.trans hstart
  | .loop start c marker body, d', r, r', hd, hd', hr, hr', h => by
    have hstart := d'.kind_next_text r' ▸ congrArg (fun ts => (next ts).kind) h
    cases d' with
    | loop start' c' marker' body' =>
      simp only [Stmt.text, List.cons_append, List.append_assoc] at h
      obtain ⟨h₁, h₂⟩ := List.cons.inj h
      obtain ⟨rfl, h₃⟩ := Cond.text_cancel h₂
      obtain ⟨rfl, h₄⟩ := Terminal.tokens_cancel (body.kind_next_ne_loopStart r)
        (body'.kind_next_ne_loopStart r') h₃
      obtain ⟨rfl, hrest⟩ := Block.text_cancel body body' r r' hd hd' hr hr' h₄
      rw [Subtype.ext h₁]
      exact ⟨rfl, hrest⟩
    | _ => exact nomatch start.2.symm.trans hstart

theorem Block.text_cancel : ∀ (d d' : Block) (r r' : List Token), d.Innermost → d'.Innermost →
    Follows (Closed d.endings) r → Follows (Closed d'.endings) r' →
    d.text ++ r = d'.text ++ r' → d = d' ∧ r = r'
  | .braced opening body closing, d', r, r', hd, hd', _, _, h => by
    have hstart := d'.kind_next_text r' ▸ congrArg (fun ts => (next ts).kind) h
    cases d' with
    | braced opening' body' closing' =>
      simp only [Block.text, List.cons_append, List.append_assoc, List.nil_append] at h
      obtain ⟨h₁, h₂⟩ := List.cons.inj h
      obtain ⟨rfl, h₃⟩ := Stmts.text_cancel body body' _ _ hd hd'
        (ends_closeBrace closing r) (ends_closeBrace closing' r') h₂
      obtain ⟨h₄, hrest⟩ := List.cons.inj h₃
      rw [Subtype.ext h₁, Subtype.ext h₄]
      exact ⟨rfl, hrest⟩
    | single s' => exact absurd (hstart.symm.trans opening.2) (s'.startKind_ne (by decide))
  | .single s, d', r, r', hd, hd', hr, hr', h => by
    have hstart := s.kind_next_text r ▸ congrArg (fun ts => (next ts).kind) h
    cases d' with
    | braced opening' body' closing' =>
      exact absurd (hstart.trans opening'.2) (s.startKind_ne (by decide))
    | single s' =>
      obtain ⟨rfl, hrest⟩ := Stmt.text_cancel s s' r r' hd hd' hr hr' h
      exact ⟨rfl, hrest⟩

theorem Tail.text_cancel : ∀ (τ τ' : Tail) (before : List Stmt) (r r' : List Token),
    τ.Innermost before → τ'.Innermost before →
    Follows (τ.AllClosed before) r → Follows (τ'.AllClosed before) r' →
    τ.text ++ r = τ'.text ++ r' → τ = τ' ∧ r = r'
  | .nothing, τ', before, r, r', _, _, hr, _, h => by
    have hopen := hr.continuation.resolve_left (fun closed => nomatch closed.1)
    cases τ' with
    | nothing => exact ⟨rfl, h⟩
    | last start' body' =>
      have hnext : next r = start'.val := congrArg next h
      exact absurd start'.2 (hnext ▸ hopen.2)
    | elseIf start' c' body' rest' =>
      have hnext : next r = start'.val := congrArg next h
      exact absurd start'.2 (hnext ▸ hopen.1)
  | .last start body, τ', before, r, r', hτ, hτ', hr, hr', h => by
    cases τ' with
    | nothing =>
      have hopen := hr'.continuation.resolve_left (fun closed => nomatch closed.1)
      have hnext : start.val = next r' := congrArg next h
      exact absurd start.2 (hnext ▸ hopen.2)
    | last start' body' =>
      obtain ⟨h₁, h⟩ := List.cons.inj h
      obtain ⟨rfl, hrest⟩ := Block.text_cancel body body' r r' hτ.2 hτ'.2
        (Tail.follows_last hr) (Tail.follows_last hr') h
      rw [Subtype.ext h₁]
      exact ⟨rfl, hrest⟩
    | elseIf start' c' body' rest' =>
      exact nomatch start.2.symm.trans ((congrArg Token.kind (List.cons.inj h).1).trans start'.2)
  | .elseIf start c body rest, τ', before, r, r', hτ, hτ', hr, hr', h => by
    cases τ' with
    | nothing =>
      have hopen := hr'.continuation.resolve_left (fun closed => nomatch closed.1)
      have hnext : start.val = next r' := congrArg next h
      exact absurd start.2 (hnext ▸ hopen.1)
    | last start' body' =>
      exact nomatch start.2.symm.trans ((congrArg Token.kind (List.cons.inj h).1).trans start'.2)
    | elseIf start' c' body' rest' =>
      simp only [Tail.text, List.cons_append, List.append_assoc] at h
      obtain ⟨h₁, h₂⟩ := List.cons.inj h
      obtain ⟨rfl, h₃⟩ := Cond.text_cancel h₂
      obtain ⟨rfl, h₄⟩ := Block.text_cancel body body' _ _ hτ.2.1 hτ'.2.1
        (Tail.follows_text hτ.2.2 hr) (Tail.follows_text hτ'.2.2 hr') h₃
      obtain ⟨rfl, hrest⟩ := Tail.text_cancel rest rest' body.endings r r' hτ.2.2 hτ'.2.2 hr hr' h₄
      rw [Subtype.ext h₁]
      exact ⟨rfl, hrest⟩

theorem Stmts.text_cancel : ∀ (d d' : Stmts) (r r' : List Token), d.Innermost → d'.Innermost →
    Ends r → Ends r' → d.text ++ r = d'.text ++ r' → d = d' ∧ r = r'
  | .nil, d', r, r', _, _, hr, _, h => by
    cases d' with
    | nil => exact ⟨rfl, h⟩
    | cons s' ss' =>
      rw [Stmts.text, List.nil_append, Stmts.text, List.append_assoc] at h
      exact absurd (h ▸ hr) (s'.not_ends_text _)
  | .cons s ss, d', r, r', hd, hd', hr, hr', h => by
    cases d' with
    | nil =>
      rw [Stmts.text, Stmts.text, List.nil_append, List.append_assoc] at h
      exact absurd (h ▸ hr') (s.not_ends_text _)
    | cons s' ss' =>
      simp only [Stmts.text, List.append_assoc] at h
      obtain ⟨rfl, hss⟩ := Stmt.text_cancel s s' _ _ hd.1 hd'.1
        (ss.follows_text hr _) (ss'.follows_text hr' _) h
      obtain ⟨rfl, hrest⟩ := Stmts.text_cancel ss ss' r r' hd.2 hd'.2 hr hr' hss
      exact ⟨rfl, hrest⟩

end

/-- Two innermost derivations of the same tokens are the same. -/
theorem Stmts.Derives.unique {d d' : Stmts} {tokens : List Token} (h : d.Derives tokens)
    (h' : d'.Derives tokens) : d = d' := by
  have htext : d.text ++ [] = d'.text ++ [] := by rw [h.text_eq, h'.text_eq]
  exact (Stmts.text_cancel d d' [] [] h.innermost h'.innermost ends_nil ends_nil htext).1

/-- Two innermost derivations of the tokens up to the end of the input are the same. -/
theorem Stmts.Covers.unique {d d' : Stmts} {tokens rest rest' : List Token}
    (h : d.Covers tokens rest) (h' : d'.Covers tokens rest') : d = d' ∧ rest = rest' :=
  Stmts.text_cancel d d' rest rest' h.innermost h'.innermost (.inr h.atEnd) (.inr h'.atEnd)
    (h.text_append.trans h'.text_append.symm)

end Boli.Grammar
