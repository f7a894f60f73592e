import Boli.Path
import Boli.Target.Registry

/-!
Which target is meant, and where its output goes.

An identifier that is given decides the target, else the extension of the output path, else the
default. Without an output path the output stands beside the source, with the target's name for its
extension. An empty text counts as absent throughout.
-/

set_option autoImplicit false

namespace Boli.Target

/-- A text that is given and not empty. -/
def present (s : Option String) : Option String := s.filter (· ≠ "")

/-- The target that an identifier and an output path ask for. -/
def select (identifier out : Option String) : Except Unknown Target :=
  match present identifier with
  | some s => find s
  | none =>
    match present ((present out).map Path.extensionName) with
    | some extension => find extension
    | none => .ok default

/-- The path that the output for a target goes to. -/
def outputPath (source : String) (out : Option String) (identifier : String) :
    Except Unknown String :=
  match present out with
  | some path => .ok path
  | none => do return Path.stem source ++ "." ++ (← find identifier).name

end Boli.Target
