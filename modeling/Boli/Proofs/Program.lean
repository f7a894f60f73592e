import Boli.Program
import Boli.Proofs.Numeral

/-!
# Trees whose parts have a form

A `Form` says what the names, expressions and conditions of a tree are like and whether foreign
statements may stand in it. What one form implies carries over to whole trees (`allHave_of_implies`).
-/

set_option autoImplicit false

namespace Boli

/-- What the parts of a tree are like. -/
structure Form where
  /-- Names that are declared or assigned. -/
  name : String → Prop
  /-- Expressions that are declared, assigned or printed. -/
  value : Expression → Prop
  /-- Expressions that stand as statements. -/
  lone : Expression → Prop
  condition : Condition → Prop
  /-- Whether foreign values may stand for statements. -/
  foreign : Prop

mutual

/-- All parts of a statement have a form. -/
def Statement.Has (F : Form) : Statement → Prop
  | .declare name e | .assign name e => F.name name ∧ F.value e
  | .evaluate e => F.lone e
  | .print e => F.value e
  | .branch c body rest => F.condition c ∧ AllHave F body ∧ rest.Has F
  | .loop c body => F.condition c ∧ AllHave F body
  | .foreign _ _ => F.foreign

/-- All parts of what follows the body of a branch have a form. -/
def Otherwise.Has (F : Form) : Otherwise → Prop
  | .nothing => True
  | .last body => AllHave F body
  | .elseIf c body rest => F.condition c ∧ AllHave F body ∧ rest.Has F

/-- All parts of statements have a form. -/
def AllHave (F : Form) : List Statement → Prop
  | [] => True
  | s :: ss => s.Has F ∧ AllHave F ss

end

theorem allHave_append {F : Form} : ∀ {ss ss' : List Statement},
    AllHave F ss → AllHave F ss' → AllHave F (ss ++ ss')
  | [], _, _, h' => h'
  | _ :: _, _, ⟨hs, hss⟩, h' => ⟨hs, allHave_append hss h'⟩

/-- One form implies another, part by part. -/
structure Form.Implies (F G : Form) : Prop where
  name : ∀ n, F.name n → G.name n
  value : ∀ e, F.value e → G.value e
  lone : ∀ e, F.lone e → G.lone e
  condition : ∀ c, F.condition c → G.condition c
  foreign : F.foreign → G.foreign

mutual

theorem Statement.has_of_implies {F G : Form} (h : F.Implies G) :
    ∀ s : Statement, s.Has F → s.Has G
  | .declare _ _, ⟨hn, he⟩ | .assign _ _, ⟨hn, he⟩ => ⟨h.name _ hn, h.value _ he⟩
  | .evaluate _, he => h.lone _ he
  | .print _, he => h.value _ he
  | .branch _ body rest, ⟨hc, hb, hr⟩ =>
    ⟨h.condition _ hc, allHave_of_implies h body hb, rest.has_of_implies h hr⟩
  | .loop _ body, ⟨hc, hb⟩ => ⟨h.condition _ hc, allHave_of_implies h body hb⟩
  | .foreign _ _, hf => h.foreign hf

theorem Otherwise.has_of_implies {F G : Form} (h : F.Implies G) :
    ∀ r : Otherwise, r.Has F → r.Has G
  | .nothing, _ => trivial
  | .last body, hb => allHave_of_implies h body hb
  | .elseIf _ body rest, ⟨hc, hb, hr⟩ =>
    ⟨h.condition _ hc, allHave_of_implies h body hb, rest.has_of_implies h hr⟩

theorem allHave_of_implies {F G : Form} (h : F.Implies G) :
    ∀ ss : List Statement, AllHave F ss → AllHave G ss
  | [], _ => trivial
  | s :: ss, ⟨hs, hss⟩ => ⟨s.has_of_implies h hs, allHave_of_implies h ss hss⟩

end

/-! ## Trees of any form -/

/-- Nothing is asked of a tree. -/
def Form.any : Form where
  name _ := True
  value _ := True
  lone _ := True
  condition _ := True
  foreign := True

mutual

theorem Statement.has_any : ∀ s : Statement, s.Has .any
  | .declare _ _ | .assign _ _ => ⟨trivial, trivial⟩
  | .evaluate _ | .print _ | .foreign _ _ => trivial
  | .branch _ body rest => ⟨trivial, allHave_any body, rest.has_any⟩
  | .loop _ body => ⟨trivial, allHave_any body⟩

theorem Otherwise.has_any : ∀ r : Otherwise, r.Has .any
  | .nothing => trivial
  | .last body => allHave_any body
  | .elseIf _ body rest => ⟨trivial, allHave_any body, rest.has_any⟩

theorem allHave_any : ∀ ss : List Statement, AllHave .any ss
  | [] => trivial
  | s :: ss => ⟨s.has_any, allHave_any ss⟩

end

/-! ## Whether a tree has a form -/

section Decide

variable {F : Form} [DecidablePred F.name] [DecidablePred F.value] [DecidablePred F.lone]
  [DecidablePred F.condition] [Decidable F.foreign]

mutual

/-- Whether all parts of a statement have a form. -/
def Statement.decideHas : (s : Statement) → Decidable (s.Has F)
  | .declare name e | .assign name e => inferInstanceAs (Decidable (F.name name ∧ F.value e))
  | .evaluate e => inferInstanceAs (Decidable (F.lone e))
  | .print e => inferInstanceAs (Decidable (F.value e))
  | .branch c body rest =>
    have := decideAllHave body
    have := rest.decideHas
    inferInstanceAs (Decidable (F.condition c ∧ AllHave F body ∧ rest.Has F))
  | .loop c body =>
    have := decideAllHave body
    inferInstanceAs (Decidable (F.condition c ∧ AllHave F body))
  | .foreign _ _ => inferInstanceAs (Decidable F.foreign)

/-- Whether all parts of what follows the body of a branch have a form. -/
def Otherwise.decideHas : (r : Otherwise) → Decidable (r.Has F)
  | .nothing => inferInstanceAs (Decidable True)
  | .last body => decideAllHave body
  | .elseIf c body rest =>
    have := decideAllHave body
    have := rest.decideHas
    inferInstanceAs (Decidable (F.condition c ∧ AllHave F body ∧ rest.Has F))

/-- Whether all parts of statements have a form. -/
def decideAllHave : (ss : List Statement) → Decidable (AllHave F ss)
  | [] => inferInstanceAs (Decidable True)
  | s :: ss =>
    have := s.decideHas
    have := decideAllHave ss
    inferInstanceAs (Decidable (s.Has F ∧ AllHave F ss))

end

instance (ss : List Statement) : Decidable (AllHave F ss) := decideAllHave ss

end Decide

/-! ## Numbers that can be written -/

/-- The numbers of an expression can be written. -/
def Expression.Writable : Expression → Prop
  | .number n => Text.Numeral.Writable n
  | .binary _ left right => left.Writable ∧ right.Writable
  | .text _ | .identifier _ | .foreign _ _ => True

/-- The numbers of a condition can be written. -/
def Condition.Writable : Condition → Prop
  | .compare left _ right => left.Writable ∧ right.Writable
  | .foreign _ _ => True

/-- The numbers of a tree can be written; nothing else is asked of it. -/
def Form.writable : Form where
  name _ := True
  value := Expression.Writable
  lone := Expression.Writable
  condition := Condition.Writable
  foreign := True

end Boli
