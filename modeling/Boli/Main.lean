import Boli.Cli.Run

/-!
The command line of the compiler.

The files that the arguments name are taken into a tree, the run is a function on that tree, and the
one file that it may change is written back.
-/

set_option autoImplicit false

namespace Boli.Cli

/-- The place of a path from the root. -/
def placeOf (here : List String) (path : String) : List String :=
  let route := FileTree.Route.of path
  let step (place : List String) (name : String) : List String :=
    if name = "." then place else if name = ".." then place.dropLast else place ++ [name]
  route.names.foldl step (if route.absolute then [] else here)

/-- The path of a place from the root. -/
def pathTo (place : List String) : String := "/" ++ "/".intercalate place

/-- Takes what stands at a place into a tree. Reading a folder fails with error number 21. -/
def takePlace (tree : FileTree) (place : List String) : IO FileTree := do
  try
    let content ← IO.FS.readBinFile (pathTo place)
    return tree.addFile place content.toList
  catch
    | .inappropriateType _ 21 _ => return tree.addFolder place
    | _ => return tree

/-- Takes what stands at a path into a tree, and what stands at the places on the way to it. -/
def takeIn (tree : FileTree) (path : String) : IO FileTree := do
  let place := placeOf tree.here path
  ((List.range place.length).map fun n => place.take (n + 1)).foldlM takePlace tree

/-- Writes the files back in which two trees differ. -/
def putBack (before after : FileTree) : IO Unit :=
  after.files.forM fun (place, content) => do
    if before.files.get? place ≠ some content then
      IO.FS.writeBinFile (pathTo place) ⟨content.toArray⟩

/-- The paths that arguments name. -/
def pathsOf (argv : List String) : List String :=
  match Arguments.parse argv with
  | .error _ => []
  | .ok a =>
    let output := match Target.select a.target a.out with
      | .ok t => (Target.outputPath a.source a.out t.name).toOption.toList
      | .error _ => []
    (if a.isString then [] else [a.source]) ++ a.keywordsPath.toList ++
      if a.prints then [] else output

end Boli.Cli

open Boli Boli.Cli in
/-- Runs the compiler on the files that the arguments name. -/
def main (argv : List String) : IO UInt32 := do
  let here := FileTree.Route.of (← IO.currentDir).toString
  let start : FileTree := FileTree.addFolder { here := here.names } here.names
  let tree ← (pathsOf argv).foldlM takeIn start
  let outcome := run argv tree
  IO.print outcome.printed
  IO.eprint outcome.logged
  try
    putBack tree outcome.tree
  catch error =>
    IO.eprintln error.toString
    return 1
  match outcome.ending with
  | .exit status => return status.toUInt32
  | .escaped error =>
    IO.eprintln error.message
    return 1
