import Boli.Proofs.Program

/-!
# Numbers as places

The number literals of a tree may be read as places, and `numbered` puts a value at each of them. One
tree so stands for all that have its shape. Places are listed from left to right; one may occur more
than once.
-/

set_option autoImplicit false

namespace Boli

/-- Trees whose numbers are places. -/
class Numbered (α : Type) where
  /-- The places of a tree, from left to right. -/
  places : α → List Nat
  /-- The tree with a value at each of its places. -/
  numbered : (Nat → Int) → α → α

open Numbered (places numbered)

namespace Expression

/-- The places of an expression. -/
def places : Expression → List Nat
  | .number n => [n.toNat]
  | .binary _ left right => left.places ++ right.places
  | .text _ | .identifier _ | .foreign _ _ => []

/-- The expression with a value at each of its places. -/
def numbered (value : Nat → Int) : Expression → Expression
  | .number n => .number (value n.toNat)
  | .binary operator left right => .binary operator (left.numbered value) (right.numbered value)
  | .text s => .text s
  | .identifier name => .identifier name
  | .foreign kind data => .foreign kind data

instance : Numbered Expression := ⟨places, numbered⟩

end Expression

namespace Condition

/-- The places of a condition. -/
def places : Condition → List Nat
  | .compare left _ right => left.places ++ right.places
  | .foreign _ _ => []

/-- The condition with a value at each of its places. -/
def numbered (value : Nat → Int) : Condition → Condition
  | .compare left operator right => .compare (left.numbered value) operator (right.numbered value)
  | .foreign kind data => .foreign kind data

instance : Numbered Condition := ⟨places, numbered⟩

end Condition

mutual

/-- The places of a statement. -/
def Statement.places : Statement → List Nat
  | .declare _ e | .assign _ e | .evaluate e | .print e => e.places
  | .branch c body rest => c.places ++ placesAll body ++ rest.places
  | .loop c body => c.places ++ placesAll body
  | .foreign _ _ => []

/-- The places of what follows the body of a branch. -/
def Otherwise.places : Otherwise → List Nat
  | .nothing => []
  | .last body => placesAll body
  | .elseIf c body rest => c.places ++ placesAll body ++ rest.places

/-- The places of statements. -/
def placesAll : List Statement → List Nat
  | [] => []
  | s :: ss => s.places ++ placesAll ss

end

mutual

/-- The statement with a value at each of its places. -/
def Statement.numbered (value : Nat → Int) : Statement → Statement
  | .declare name e => .declare name (e.numbered value)
  | .assign name e => .assign name (e.numbered value)
  | .evaluate e => .evaluate (e.numbered value)
  | .print e => .print (e.numbered value)
  | .branch c body rest =>
    .branch (c.numbered value) (numberAll value body) (rest.numbered value)
  | .loop c body => .loop (c.numbered value) (numberAll value body)
  | .foreign kind data => .foreign kind data

/-- What follows the body of a branch, with a value at each of its places. -/
def Otherwise.numbered (value : Nat → Int) : Otherwise → Otherwise
  | .nothing => .nothing
  | .last body => .last (numberAll value body)
  | .elseIf c body rest =>
    .elseIf (c.numbered value) (numberAll value body) (rest.numbered value)

/-- The statements with a value at each of their places. -/
def numberAll (value : Nat → Int) : List Statement → List Statement
  | [] => []
  | s :: ss => s.numbered value :: numberAll value ss

end

instance : Numbered Statement := ⟨Statement.places, Statement.numbered⟩

instance : Numbered Otherwise := ⟨Otherwise.places, Otherwise.numbered⟩

instance : Numbered (List Statement) := ⟨placesAll, numberAll⟩

instance : Numbered (Option Statement) :=
  ⟨fun s => placesAll s.toList, fun value s => s.map (Statement.numbered value)⟩

/-- The places of a program. -/
def Program.places : Program → List Nat
  | .statements ss => placesAll ss
  | .foreign _ _ => []

/-- The program with a value at each of its places. -/
def Program.numbered (value : Nat → Int) : Program → Program
  | .statements ss => .statements (numberAll value ss)
  | .foreign kind data => .foreign kind data

instance : Numbered Program := ⟨Program.places, Program.numbered⟩

theorem placesAll_append (ss ss' : List Statement) :
    placesAll (ss ++ ss') = placesAll ss ++ placesAll ss' := by
  induction ss with
  | nil => rfl
  | cons s ss ih => simp only [List.cons_append, placesAll, ih, List.append_assoc]

theorem numberAll_append (value : Nat → Int) (ss ss' : List Statement) :
    numberAll value (ss ++ ss') = numberAll value ss ++ numberAll value ss' := by
  induction ss with
  | nil => rfl
  | cons s ss ih => simp only [List.cons_append, numberAll, ih]

theorem numberAll_toList (value : Nat → Int) (s : Option Statement) :
    numberAll value s.toList = (numbered value s).toList := by
  cases s with
  | none => rfl
  | some s => rfl

end Boli
