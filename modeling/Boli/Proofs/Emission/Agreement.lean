import Boli.Proofs.Emission.Scopes

/-!
# When two rules of scope agree

Under the rule without scopes a name has the kind of its last declaration above in the text, and
under block scope the kind of the visible one. The two rules agree on a program when they give each
printed and each declared value the same kind (`AllAgree`), which is just when they give the same
text in C (`text_eq_iff`).
-/

set_option autoImplicit false

namespace Boli.Scoping

open Emission

/-! ## Agreement of the two rules -/

mutual

/-- Each printed and each declared value of a statement is a text under the kinds `b` of the last
declarations above just when it is one under the kinds `v` of the visible declarations. -/
def Agree (b v : Bindings) : Statement → Prop
  | .declare _ e | .print e => valueKind b e = .string ↔ valueKind v e = .string
  | .branch _ body rest => AllAgree b v body ∧ RestAgree (allAfter noScope b body) v rest
  | .loop _ body => AllAgree b v body
  | .assign _ _ | .evaluate _ | .foreign _ _ => True

/-- The same of what follows the body of a branch. -/
def RestAgree (b v : Bindings) : Otherwise → Prop
  | .nothing => True
  | .last body => AllAgree b v body
  | .elseIf _ body rest => AllAgree b v body ∧ RestAgree (allAfter noScope b body) v rest

/-- The same of statements. -/
def AllAgree (b v : Bindings) : List Statement → Prop
  | [] => True
  | s :: ss => Agree b v s ∧ AllAgree (after noScope b s) (after blockScope v s) ss

end

/-- Two texts have different characters at some position, and are the same before it. -/
def Diverge (x y : String) : Prop :=
  ∃ (p q r : List Char) (a b : Char), a ≠ b ∧ x.toList = p ++ a :: q ∧ y.toList = p ++ b :: r

theorem Diverge.symm {x y : String} (h : Diverge x y) : Diverge y x := by
  obtain ⟨p, q, r, a, b, hne, hx, hy⟩ := h
  exact ⟨p, r, q, b, a, hne.symm, hy, hx⟩

theorem Diverge.append_left {x y : String} (h : Diverge x y) (z : String) :
    Diverge (z ++ x) (z ++ y) := by
  obtain ⟨p, q, r, a, b, hne, hx, hy⟩ := h
  refine ⟨z.toList ++ p, q, r, a, b, hne, ?_, ?_⟩
  · rw [String.toList_append, hx, List.append_assoc]
  · rw [String.toList_append, hy, List.append_assoc]

theorem Diverge.append_right {x y : String} (h : Diverge x y) (u w : String) :
    Diverge (x ++ u) (y ++ w) := by
  obtain ⟨p, q, r, a, b, hne, hx, hy⟩ := h
  refine ⟨p, q ++ u.toList, r ++ w.toList, a, b, hne, ?_, ?_⟩
  · rw [String.toList_append, hx, List.append_assoc, List.cons_append]
  · rw [String.toList_append, hy, List.append_assoc, List.cons_append]

theorem Diverge.ne {x y : String} (h : Diverge x y) : x ≠ y := by
  obtain ⟨p, q, r, a, b, hne, hx, hy⟩ := h
  intro he
  rw [he, hy] at hx
  exact hne (List.cons.inj (List.append_cancel_left hx)).1.symm

/-- Two texts of lines are the same up to a line in which they diverge. -/
def Apart (ls ls' : List Line) : Prop :=
  ∃ (before rest rest' : List Line) (depth : Int) (x y : String), Diverge x y ∧
    ls = before ++ ⟨depth, x⟩ :: rest ∧ ls' = before ++ ⟨depth, y⟩ :: rest'

/-- The lines are the same where `p` holds, and come apart where it does not. -/
def SameIff (p : Prop) (ls ls' : List Line) : Prop := p ∧ ls = ls' ∨ ¬p ∧ Apart ls ls'

theorem SameIff.refl (ls : List Line) : SameIff True ls ls := .inl ⟨trivial, rfl⟩

theorem SameIff.append {p q : Prop} {ls ls' ms ms' : List Line} (h : SameIff p ls ls')
    (h' : SameIff q ms ms') : SameIff (p ∧ q) (ls ++ ms) (ls' ++ ms') := by
  -- once the lines have come apart, what is added behind them does not matter
  rcases h with ⟨hp, rfl⟩ | ⟨hp, before, rest, rest', depth, x, y, hd, rfl, rfl⟩
  · rcases h' with ⟨hq, rfl⟩ | ⟨hq, before, rest, rest', depth, x, y, hd, rfl, rfl⟩
    · exact .inl ⟨⟨hp, hq⟩, rfl⟩
    · refine .inr ⟨fun h => hq h.2, ls ++ before, rest, rest', depth, x, y, hd, ?_, ?_⟩
      · rw [List.append_assoc]
      · rw [List.append_assoc]
  · refine .inr ⟨fun h => hp h.1, before, rest ++ ms, rest' ++ ms', depth, x, y, hd, ?_, ?_⟩
    · rw [List.append_assoc, List.cons_append]
    · rw [List.append_assoc, List.cons_append]

theorem SameIff.cons {p : Prop} {ls ls' : List Line} (l : Line) (h : SameIff p ls ls') :
    SameIff p (l :: ls) (l :: ls') := by
  simpa only [true_and, List.singleton_append] using (SameIff.refl [l]).append h

theorem SameIff.append_right {p : Prop} {ls ls' : List Line} (h : SameIff p ls ls')
    (ms : List Line) : SameIff p (ls ++ ms) (ls' ++ ms) := by
  simpa only [and_true] using h.append (.refl ms)

/-- A line that is written in one way for texts and in another for all other values. -/
theorem sameIff_line {f : ValueKind → String} {x y : String}
    (hf : ∀ kind, f kind = if kind = .string then x else y) (hd : Diverge x y) (depth : Int)
    (k k' : ValueKind) :
    SameIff (k = .string ↔ k' = .string) [⟨depth, f k⟩] [⟨depth, f k'⟩] := by
  rw [hf, hf]
  by_cases hk : k = .string
  · by_cases hk' : k' = .string
    · exact .inl ⟨iff_of_true hk hk', by rw [if_pos hk, if_pos hk']⟩
    · refine .inr ⟨fun h => hk' (h.1 hk), [], [], [], depth, x, y, hd, ?_, ?_⟩
      · rw [if_pos hk, List.nil_append]
      · rw [if_neg hk', List.nil_append]
  · by_cases hk' : k' = .string
    · refine .inr ⟨fun h => hk (h.2 hk'), [], [], [], depth, y, x, hd.symm, ?_, ?_⟩
      · rw [if_neg hk, List.nil_append]
      · rw [if_pos hk', List.nil_append]
    · exact .inl ⟨iff_of_false hk hk', by rw [if_neg hk, if_neg hk']⟩

theorem sameIff_declare (name : String) (text : String) (depth : Int) (k k' : ValueKind) :
    SameIff (k = .string ↔ k' = .string)
      [⟨depth, typeOf k ++ " " ++ name ++ " = " ++ text ++ ";"⟩]
      [⟨depth, typeOf k' ++ " " ++ name ++ " = " ++ text ++ ";"⟩] := by
  have hd : Diverge "char*" "int" :=
    ⟨[], "har*".toList, "nt".toList, 'c', 'i', by decide, rfl, rfl⟩
  refine sameIff_line (f := fun k => typeOf k ++ " " ++ name ++ " = " ++ text ++ ";")
    (fun kind => ?_) (((((hd.append_right " " " ").append_right name name).append_right " = "
      " = ").append_right text text).append_right ";" ";") depth k k'
  simp only [typeOf]
  split
  · rfl
  · rfl

theorem sameIff_print (text : String) (depth : Int) (k k' : ValueKind) :
    SameIff (k = .string ↔ k' = .string) [⟨depth, printCall k text⟩]
      [⟨depth, printCall k' text⟩] := by
  have hd : Diverge "%s" "%d" := ⟨['%'], [], [], 's', 'd', by decide, rfl, rfl⟩
  refine sameIff_line (f := fun k => printCall k text) (fun kind => ?_)
    ((((hd.append_left "printf(\"").append_right "\\n\", " "\\n\", ").append_right text
      text).append_right ");" ");") depth k k'
  simp only [printCall]
  split
  · rfl
  · rfl

mutual

theorem sameIff_lines : ∀ (s : Statement) (b v : Bindings) (depth : Int),
    SameIff (Agree b v s) (lines noScope b depth s) (lines blockScope v depth s)
  | .declare name e, _, _, depth => sameIff_declare name (value e) depth _ _
  | .print e, _, _, depth => sameIff_print (value e) depth _ _
  | .assign _ _, _, _, _ => .refl _
  | .evaluate _, _, _, _ => .refl _
  | .foreign _ _, _, _, _ => .refl _
  | .branch _ body rest, b, v, depth =>
    (((sameIff_allLines body b v (depth + 1)).cons _).append
      (sameIff_restLines rest _ v depth)).append_right _
  | .loop _ body, b, v, depth => ((sameIff_allLines body b v (depth + 1)).cons _).append_right _

theorem sameIff_restLines : ∀ (r : Otherwise) (b v : Bindings) (depth : Int),
    SameIff (RestAgree b v r) (restLines noScope b depth r) (restLines blockScope v depth r)
  | .nothing, _, _, _ => .refl _
  | .last body, b, v, depth => (sameIff_allLines body b v (depth + 1)).cons _
  | .elseIf _ body rest, b, v, depth =>
    ((sameIff_allLines body b v (depth + 1)).cons _).append (sameIff_restLines rest _ v depth)

/-- The lines under the two rules of scope are the same just when the rules agree. -/
theorem sameIff_allLines : ∀ (ss : List Statement) (b v : Bindings) (depth : Int),
    SameIff (AllAgree b v ss) (allLines noScope b depth ss) (allLines blockScope v depth ss)
  | [], _, _, _ => .refl _
  | s :: ss, b, v, depth => (sameIff_lines s b v depth).append (sameIff_allLines ss _ _ depth)

end

/-! ## Agreement and the text -/

theorem Apart.finish_ne {t : Target} {σ τ : State} (h : Apart σ.lines τ.lines) :
    finish t σ ≠ finish t τ := by
  obtain ⟨before, rest, rest', depth, x, y, hd, hσ, hτ⟩ := h
  obtain ⟨p, hp⟩ := exists_finish_eq t before
  obtain ⟨u, hu⟩ := hp rest
  obtain ⟨w, hw⟩ := hp rest'
  rw [hu σ _ hσ, hw τ _ hτ]
  have hrender : Diverge (Line.render t ⟨depth, x⟩) (Line.render t ⟨depth, y⟩) :=
    hd.append_left (indentation t depth)
  exact ((hrender.append_left p).append_right u w).ne

/-- The texts under the two rules of scope are the same just when the rules agree. -/
theorem text_eq_iff (ss : List Statement) :
    text noScope ss = text blockScope ss ↔ AllAgree [] [] ss := by
  rcases (SameIff.refl (start .c).lines).append (sameIff_allLines ss [] [] 1) with h | h
  · obtain ⟨⟨-, hp⟩, he⟩ := h
    exact iff_of_true (by rw [text, text, he]) hp
  · obtain ⟨hp, ha⟩ := h
    exact iff_of_false (Apart.finish_ne ha) fun h => hp ⟨trivial, h⟩

end Boli.Scoping
