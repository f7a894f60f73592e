import Boli.Proofs.Program
import Boli.Target

/-!
# Outlines

The outline of a program says for each line of its body at which depth it stands and for which part
of the tree, before any target is known: only the style of blocks matters, and where foreign values
stand. A statement that directly holds a foreign value is one comment line. What can be said of every
entry is put together in `Fits`.
-/

set_option autoImplicit false

namespace Boli

/-! ## Native nodes -/

/-- Whether no foreign value stands in an expression. -/
def Expression.isNative : Expression → Bool
  | .foreign _ _ => false
  | .binary _ left right => left.isNative && right.isNative
  | .number _ | .text _ | .identifier _ => true

/-- Whether no foreign value stands in a condition. -/
def Condition.isNative : Condition → Bool
  | .compare left _ right => left.isNative && right.isNative
  | .foreign _ _ => false

/-- Whether no foreign value stands in the further conditions of a branch. -/
def Otherwise.isNative : Otherwise → Bool
  | .nothing | .last _ => true
  | .elseIf c _ rest => c.isNative && rest.isNative

/-- Whether no foreign value stands in what a statement directly holds. Its bodies may hold some. -/
def Statement.isNative : Statement → Bool
  | .declare _ e | .assign _ e | .evaluate e | .print e => e.isNative
  | .branch c _ rest => c.isNative && rest.isNative
  | .loop c _ => c.isNative
  | .foreign _ _ => false

/-- Trees without foreign values. -/
def Form.native : Form where
  name _ := True
  value e := e.isNative = true
  lone e := e.isNative = true
  condition c := c.isNative = true
  foreign := False

theorem Otherwise.isNative_of_has : ∀ {r : Otherwise}, r.Has .native → r.isNative = true
  | .nothing, _ => rfl
  | .last _, _ => rfl
  | .elseIf _ _ _, ⟨hc, _, hrest⟩ => Bool.and_eq_true_iff.mpr ⟨hc, isNative_of_has hrest⟩

theorem Statement.isNative_of_has {s : Statement} (h : s.Has .native) : s.isNative = true := by
  cases s with
  | declare name e => exact h.2
  | assign name e => exact h.2
  | evaluate e => exact h
  | print e => exact h
  | branch c body rest =>
    obtain ⟨hc, -, hrest⟩ := h
    exact Bool.and_eq_true_iff.mpr ⟨hc, Otherwise.isNative_of_has hrest⟩
  | loop c body => exact h.1
  | foreign kind data => exact h.elim

namespace Outline

/-! ## Entries -/

/-- What the text of a line shows of the structure of a program. -/
inductive Shape where
  | simple
  /-- The header of a branch or loop. -/
  | opening
  /-- The header of a further branch. -/
  | continuation
  | closing
  | comment
  deriving DecidableEq

/-- Whether a line opens a block. -/
def Shape.isHeader : Shape → Bool
  | .opening | .continuation => true
  | .simple | .closing | .comment => false

/-- Whether an entry ends the body in front of it. -/
def Shape.endsBody : Shape → Bool
  | .continuation | .closing => true
  | .simple | .opening | .comment => false

/-- What a line of a program stands for. -/
inductive Part where
  | simple (statement : Statement)
  /-- The statement that fills a body without statements. -/
  | filler
  | branch (condition : Condition)
  | loop (condition : Condition)
  | elseIf (condition : Condition)
  /-- The header of the last branch. -/
  | last
  /-- The end of the last block of a statement. -/
  | closing
  /-- The comment line in place of a statement. -/
  | dropped (statement : Statement)
  deriving DecidableEq

/-- The shape of a part. -/
def Part.shape : Part → Shape
  | .simple _ | .filler => .simple
  | .branch _ | .loop _ => .opening
  | .elseIf _ | .last => .continuation
  | .closing => .closing
  | .dropped _ => .comment

/-- What a part holds of the tree has a form. Only what directly holds a foreign value is dropped. -/
def Part.Has (F : Form) : Part → Prop
  | .simple s => s.Has F
  | .branch c | .loop c | .elseIf c => F.condition c
  | .dropped s => s.Has F ∧ s.isNative = false
  | .filler | .last | .closing => True

/-- A part at a depth, which counts from the top level of the program. -/
structure Entry where
  depth : Nat
  part : Part
  deriving DecidableEq

/-- The entries that fill a body without statements. -/
def filling : BlockStyle → Nat → List Statement → List Entry
  | .colon, d, [] => [⟨d, .filler⟩]
  | .colon, _, _ :: _ | .braces, _, _ => []

/-- The entries that close the last block of a statement. -/
def closing : BlockStyle → Nat → List Entry
  | .braces, d => [⟨d, .closing⟩]
  | .colon, _ => []

mutual

/-- The entries of a statement that is not dropped. -/
def outline (style : BlockStyle) (d : Nat) : Statement → List Entry
  | .declare name e => [⟨d, .simple (.declare name e)⟩]
  | .assign name e => [⟨d, .simple (.assign name e)⟩]
  | .evaluate e => [⟨d, .simple (.evaluate e)⟩]
  | .print e => [⟨d, .simple (.print e)⟩]
  | .branch c body rest =>
    ⟨d, .branch c⟩ :: (filling style (d + 1) body ++ allOutline style (d + 1) body) ++
      (restOutline style d rest ++ closing style d)
  | .loop c body =>
    ⟨d, .loop c⟩ :: (filling style (d + 1) body ++ allOutline style (d + 1) body) ++
      closing style d
  | .foreign _ _ => []

/-- The entries of what follows the body of a branch. -/
def restOutline (style : BlockStyle) (d : Nat) : Otherwise → List Entry
  | .nothing => []
  | .last body => ⟨d, .last⟩ :: (filling style (d + 1) body ++ allOutline style (d + 1) body)
  | .elseIf c body rest =>
    ⟨d, .elseIf c⟩ :: (filling style (d + 1) body ++ allOutline style (d + 1) body) ++
      restOutline style d rest

/-- The entries of statements. One that directly holds a foreign value is a comment line. -/
def allOutline (style : BlockStyle) (d : Nat) : List Statement → List Entry
  | [] => []
  | s :: ss =>
    (if s.isNative then outline style d s else [⟨d, .dropped s⟩]) ++ allOutline style d ss

end

/-- The entries of a body. -/
def bodyOutline (style : BlockStyle) (d : Nat) (body : List Statement) : List Entry :=
  filling style d body ++ allOutline style d body

/-! ## What holds of every entry -/

/-- An entry of an outline at a depth: it stands there or deeper, what it holds has the form of the
tree, and it closes a block in brace style alone. -/
structure Fits (F : Form) (style : BlockStyle) (d : Nat) (e : Entry) : Prop where
  depth : d ≤ e.depth
  form : e.part.Has F
  closing : e.part.shape = .closing → style = .braces

/-- All entries fit in at a depth. -/
def AllFit (F : Form) (style : BlockStyle) (d : Nat) (es : List Entry) : Prop :=
  ∀ e ∈ es, Fits F style d e

section Fits

variable {F : Form} {style : BlockStyle} {d : Nat} {es es' : List Entry}

theorem AllFit.nil : AllFit F style d [] := by
  intro e he
  cases he

theorem AllFit.cons {part : Part} (hpart : part.Has F)
    (hclosing : part.shape = .closing → style = .braces) (h : AllFit F style d es) :
    AllFit F style d (⟨d, part⟩ :: es) := by
  intro e he
  rcases List.mem_cons.mp he with rfl | he
  · exact ⟨Nat.le_refl d, hpart, hclosing⟩
  · exact h e he

theorem AllFit.append (h : AllFit F style d es) (h' : AllFit F style d es') :
    AllFit F style d (es ++ es') := by
  intro e he
  rcases List.mem_append.mp he with he | he
  · exact h e he
  · exact h' e he

theorem AllFit.of_succ (h : AllFit F style (d + 1) es) : AllFit F style d es := by
  intro e he
  obtain ⟨hdepth, hform, hclosing⟩ := h e he
  exact ⟨Nat.le_of_succ_le hdepth, hform, hclosing⟩

theorem allFit_filling (body : List Statement) : AllFit F style d (filling style d body) := by
  cases style with
  | braces => exact .nil
  | colon =>
    cases body with
    | nil => exact .cons trivial nofun .nil
    | cons s ss => exact .nil

theorem allFit_closing : AllFit F style d (closing style d) := by
  cases style with
  | braces => exact .cons trivial (fun _ => rfl) .nil
  | colon => exact .nil

end Fits

mutual

theorem allFit_outline {F : Form} {style : BlockStyle} :
    ∀ (d : Nat) (s : Statement), s.Has F → AllFit F style d (outline style d s)
  | _, .declare _ _, h | _, .assign _ _, h | _, .evaluate _, h | _, .print _, h =>
    .cons h nofun .nil
  | d, .branch c body rest, ⟨hc, hbody, hrest⟩ =>
    .append (.cons hc nofun (allFit_block d body hbody))
      (.append (allFit_restOutline d rest hrest) allFit_closing)
  | d, .loop c body, ⟨hc, hbody⟩ =>
    .append (.cons hc nofun (allFit_block d body hbody)) allFit_closing
  | _, .foreign _ _, _ => .nil

theorem allFit_restOutline {F : Form} {style : BlockStyle} :
    ∀ (d : Nat) (r : Otherwise), r.Has F → AllFit F style d (restOutline style d r)
  | _, .nothing, _ => .nil
  | d, .last body, hbody => .cons trivial nofun (allFit_block d body hbody)
  | d, .elseIf c body rest, ⟨hc, hbody, hrest⟩ =>
    .append (.cons hc nofun (allFit_block d body hbody)) (allFit_restOutline d rest hrest)

theorem allFit_block {F : Form} {style : BlockStyle} :
    ∀ (d : Nat) (body : List Statement), AllHave F body →
      AllFit F style d (filling style (d + 1) body ++ allOutline style (d + 1) body)
  | d, body, hbody =>
    (AllFit.append (allFit_filling body) (allFit_allOutline (d + 1) body hbody)).of_succ

theorem allFit_allOutline {F : Form} {style : BlockStyle} :
    ∀ (d : Nat) (ss : List Statement), AllHave F ss → AllFit F style d (allOutline style d ss)
  | _, [], _ => .nil
  | d, s :: ss, ⟨hs, hss⟩ => by
    rw [allOutline]
    apply AllFit.append _ (allFit_allOutline d ss hss)
    by_cases hnative : s.isNative = true
    · rw [if_pos hnative]
      exact allFit_outline d s hs
    · rw [if_neg hnative]
      exact .cons ⟨hs, Bool.eq_false_iff.mpr hnative⟩ nofun .nil

end

theorem allFit_bodyOutline {F : Form} {style : BlockStyle} (d : Nat) {body : List Statement}
    (h : AllHave F body) : AllFit F style d (bodyOutline style d body) :=
  (allFit_filling body).append (allFit_allOutline d body h)

/-- A statement that is not dropped starts with a line of its own. -/
theorem exists_outline_eq (style : BlockStyle) (d : Nat) {s : Statement} (h : s.isNative = true) :
    ∃ part es, outline style d s = ⟨d, part⟩ :: es ∧
      (part.shape = .simple ∨ part.shape = .opening) := by
  cases s with
  | declare name e => exact ⟨_, _, rfl, .inl rfl⟩
  | assign name e => exact ⟨_, _, rfl, .inl rfl⟩
  | evaluate e => exact ⟨_, _, rfl, .inl rfl⟩
  | print e => exact ⟨_, _, rfl, .inl rfl⟩
  | branch c body rest => exact ⟨_, _, rfl, .inr rfl⟩
  | loop c body => exact ⟨_, _, rfl, .inr rfl⟩
  | foreign kind data => cases h

/-- Statements start at their depth, with an entry that does not end the body in front of it. -/
theorem exists_allOutline_eq (style : BlockStyle) (d : Nat) (s : Statement) (ss : List Statement) :
    ∃ part es, allOutline style d (s :: ss) = ⟨d, part⟩ :: es ∧ part.shape.endsBody = false := by
  rw [allOutline]
  by_cases hs : s.isNative = true
  · obtain ⟨part, es, houtline, hshape⟩ := exists_outline_eq style d hs
    rw [if_pos hs, houtline]
    refine ⟨part, _, rfl, ?_⟩
    rcases hshape with hshape | hshape
    · rw [hshape]
      rfl
    · rw [hshape]
      rfl
  · rw [if_neg hs]
    exact ⟨.dropped s, _, rfl, rfl⟩

/-! ## Comment lines -/

/-- None of the entries is a comment line. -/
def Uncommented (es : List Entry) : Prop := ∀ e ∈ es, e.part.shape ≠ .comment

theorem Part.exists_dropped {part : Part} (h : part.shape = .comment) : ∃ s, part = .dropped s := by
  cases part
  case dropped s => exact ⟨s, rfl⟩
  all_goals cases h

theorem uncommented_of_fits {style : BlockStyle} {d : Nat} {es : List Entry}
    (h : AllFit .native style d es) : Uncommented es := by
  intro e he hcomment
  obtain ⟨s, hpart⟩ := Part.exists_dropped hcomment
  have hform := (h e he).form
  rw [hpart] at hform
  obtain ⟨hs, hforeign⟩ := hform
  rw [Statement.isNative_of_has hs] at hforeign
  cases hforeign

end Outline

end Boli
