import Boli.Target.Catalogue
import Boli.Text.Blank

/-!
The registry of targets: every target under its canonical name and its aliases.

No identifier belongs to two targets (`register` refuses that). A look-up trims the identifier and
ignores case; of the characters outside ASCII only KELVIN SIGN has a lower-case form in ASCII, so no
other can occur in an identifier that is found.
-/

set_option autoImplicit false

namespace Boli

/-- Targets under their identifiers, in the order of registration. -/
abbrev Registry : Type := Dictionary String Target

namespace Registry

/-- An identifier that two targets claim. -/
structure Duplicate where
  identifier : String
  deriving DecidableEq

/-- The message that reports a duplicate. -/
def Duplicate.message (d : Duplicate) : String :=
  "Duplicate target identifier: " ++ Text.quoted d.identifier

/-- Registers a target under each of the identifiers. -/
def registerUnder (t : Target) : List String → Registry → Except Duplicate Registry
  | [], r => .ok r
  | key :: keys, r =>
    if (r.get? key).isSome then .error ⟨key⟩ else registerUnder t keys (r ++ [(key, t)])

/-- Registers a target under its name and its aliases. -/
def register (r : Registry) (t : Target) : Except Duplicate Registry :=
  registerUnder t (t.name :: t.aliases) r

/-- Registers targets one after the other. -/
def build (targets : List Target) : Except Duplicate Registry := targets.foldlM register []

/-- The targets of the catalogue. -/
def standard : Registry :=
  Target.catalogue.flatMap fun t => (t.name :: t.aliases).map fun key => (key, t)

/-- The registry of the catalogue has no duplicates. -/
theorem build_catalogue : build Target.catalogue = .ok standard := by rfl

/-- The canonical names of all targets. -/
def available : List String := Target.catalogue.map (·.name)

end Registry

namespace Target

/-- An identifier under which no target is registered. -/
structure Unknown where
  identifier : String
  deriving DecidableEq

/-- The message that reports an unknown target. -/
def Unknown.message (u : Unknown) : String :=
  "Unknown transpilation target: " ++ Text.quoted u.identifier ++ " (available: " ++
    ", ".intercalate Registry.available ++ ")"

/-- Lower case, as far as identifiers of targets can tell. -/
def lowerChar (c : Char) : Char := if c.toNat = 0x212A then 'k' else c.toLower

/-- A text in lower case. -/
def lower (s : String) : String := String.ofList (s.toList.map lowerChar)

/-- The registered target of an identifier, which may be in any case and have blanks around it. -/
def find (identifier : String) : Except Unknown Target :=
  match Registry.standard.get? (lower (Text.trim identifier)) with
  | some t => .ok t
  | none => .error ⟨identifier⟩

/-- The target that is used when none is asked for. -/
def default : Target := javaScript

end Target

end Boli
