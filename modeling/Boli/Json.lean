import Boli.Dictionary

/-!
Plain data: null, booleans, whole and floating-point numbers, texts, arrays and objects.

An object is the list of its fields in order, since the order is shown wherever an object is. Whole
numbers are unbounded, and a floating-point number is not a whole number of the same value.
-/

set_option autoImplicit false

namespace Boli

/-- A value of plain data. -/
inductive Json where
  | null
  | bool (value : Bool)
  | int (value : Int)
  | float (value : Float)
  | text (value : String)
  | array (elements : List Json)
  | object (fields : List (String × Json))

namespace Json

/-! ## Equality is decidable -/

mutual

/-- Whether two values are the same, floating-point numbers by identity. -/
def same : Json → Json → Bool
  | null, null => true
  | bool a, bool b => a = b
  | int a, int b => a = b
  | float a, float b => decide (a = b)
  | text a, text b => a = b
  | array as, array bs => sameElements as bs
  | object as, object bs => sameFields as bs
  | _, _ => false

/-- `same` along two arrays. -/
def sameElements : List Json → List Json → Bool
  | [], [] => true
  | a :: as, b :: bs => same a b && sameElements as bs
  | _, _ => false

/-- `same` along the fields of two objects. -/
def sameFields : List (String × Json) → List (String × Json) → Bool
  | [], [] => true
  | (k, a) :: as, (l, b) :: bs => k = l && same a b && sameFields as bs
  | _, _ => false

end

mutual

theorem same_iff : ∀ a b : Json, same a b = true ↔ a = b
  | null, b => by cases b <;> simp [same]
  | bool a, b => by cases b <;> simp [same]
  | int a, b => by cases b <;> simp [same]
  | float a, b => by cases b <;> simp [same]
  | text a, b => by cases b <;> simp [same]
  | array as, b => by cases b <;> simp [same, sameElements_iff as]
  | object as, b => by cases b <;> simp [same, sameFields_iff as]

theorem sameElements_iff : ∀ as bs : List Json, sameElements as bs = true ↔ as = bs
  | [], bs => by cases bs <;> simp [sameElements]
  | a :: as, bs => by cases bs <;> simp [sameElements, same_iff a, sameElements_iff as]

theorem sameFields_iff : ∀ as bs : List (String × Json), sameFields as bs = true ↔ as = bs
  | [], bs => by cases bs <;> simp [sameFields]
  | (k, a) :: as, bs => by
    cases bs with
    | nil => simp [sameFields]
    | cons b bs =>
      obtain ⟨l, b⟩ := b
      simp [sameFields, same_iff a, sameFields_iff as]

end

instance : DecidableEq Json := fun a b => decidable_of_iff (same a b = true) (same_iff a b)

/-- The value of an object's field, null if it has none. -/
def field (key : String) : Json → Json
  | object fields => (Dictionary.get? key fields).getD null
  | _ => null

/-- The value of an object's field, if it has one. -/
def field? (key : String) : Json → Option Json
  | object fields => Dictionary.get? key fields
  | _ => none

end Json

end Boli
