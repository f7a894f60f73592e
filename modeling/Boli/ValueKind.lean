/-!
Kinds of values.

The language has texts and numbers. Target languages with static types name a type for each kind,
and some print each kind in its own way. A kind of another name can be recorded for a variable; no
target has a spelling for it.
-/

set_option autoImplicit false

namespace Boli

/-- The kind of a value. -/
inductive ValueKind where
  | string
  | number
  | other (name : String)
  deriving DecidableEq

namespace ValueKind

/-- The name of a kind. -/
def name : ValueKind → String
  | string => "string"
  | number => "number"
  | other name => name

/-- The kind of a name. -/
def ofName (name : String) : ValueKind :=
  if name = "string" then string else if name = "number" then number else other name

theorem name_ofName (s : String) : (ofName s).name = s := by
  unfold ofName
  split
  · simp_all [name]
  · split <;> simp_all [name]

end ValueKind

end Boli
