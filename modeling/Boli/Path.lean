/-!
File paths as texts: their last component, their extension, and the components that a walk through
directories follows.

The extension of a path starts at the last point of its last component, unless only points stand
before it there: `.hidden` and `..` have none, `a.tar.gz` has `.gz`, and `a.` has `.`.
-/

set_option autoImplicit false

namespace Boli.Path

/-- Splits a path after its last slash: the directory part and the last component. -/
def splitLast (path : List Char) : List Char × List Char :=
  let last := (path.reverse.takeWhile (· != '/')).reverse
  (path.take (path.length - last.length), last)

/-- Splits a component at its last point, which begins the second part. Without a point the second
part is empty. -/
def splitLastPoint (cs : List Char) : List Char × List Char :=
  if cs.contains '.' then
    let after := (cs.reverse.takeWhile (· != '.')).reverse
    (cs.take (cs.length - after.length - 1), '.' :: after)
  else (cs, [])

/-- Splits the extension off a component. Its leading points belong to the stem. -/
def splitComponent (cs : List Char) : List Char × List Char :=
  let points := cs.takeWhile (· == '.')
  let (stem, extension) := splitLastPoint (cs.dropWhile (· == '.'))
  (points ++ stem, extension)

/-- Splits a path into everything before its extension and the extension with its point. -/
def splitExtensionChars (path : List Char) : List Char × List Char :=
  let (directory, last) := splitLast path
  let (stem, extension) := splitComponent last
  (directory ++ stem, extension)

/-- A path without its extension. -/
def stem (path : String) : String := String.ofList (splitExtensionChars path.toList).1

/-- The extension of a path without its points. -/
def extensionName (path : String) : String :=
  String.ofList ((splitExtensionChars path.toList).2.dropWhile (· == '.'))

/-- The components between slashes, empty ones included. -/
def components : List Char → List (List Char)
  | [] => [[]]
  | c :: cs =>
    if c = '/' then [] :: components cs
    else
      match components cs with
      | [] => [[c]]
      | first :: rest => (c :: first) :: rest

end Boli.Path
