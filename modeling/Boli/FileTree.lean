import Boli.Dictionary
import Boli.Path
import Boli.Text.Loose
import Boli.Text.Newlines

/-!
A tree of files and folders, and reading and writing in it by path.

A tree is the contents of its files and the places of its folders, all by the components of their
paths from the root, and the folder in which paths start that do not start at the root. A path is
walked component by component: each one that is not the last has to be a folder, `.` stays, and `..`
goes back to the folder around, which for the root is the root itself.
-/

set_option autoImplicit false

namespace Boli

/-- Files and folders by the components of their paths from the root. -/
structure FileTree where
  files : Dictionary (List String) (List UInt8) := []
  folders : List (List String) := []
  /-- The folder in which relative paths start. -/
  here : List String := []
  deriving DecidableEq

namespace FileTree

/-- The tree with a folder at a place, and with all folders around it. -/
def addFolder (tree : FileTree) (place : List String) : FileTree :=
  { tree with folders := tree.folders ++ (List.range place.length).map fun n => place.take (n + 1) }

/-- The tree with a file at a place, and with all folders around it. -/
def addFile (tree : FileTree) (place : List String) (content : List UInt8) : FileTree :=
  { tree.addFolder place.dropLast with files := tree.files.put place content }

/-- Why a path cannot be read or written. -/
inductive Fault where
  | notFound
  | notADirectory
  | isADirectory
  | nameTooLong
  /-- The path holds the character U+0000, which ends a path. -/
  | embeddedNull
  /-- The path, or the text for the file, holds a lone surrogate. Here paths and contents have none: it
  is for those who make them to see to that. -/
  | unencodable (fault : Text.Unencodable)
  deriving DecidableEq

/-- Whether a fault is one of the system's, which have numbers. -/
def Fault.isNumbered : Fault → Bool
  | embeddedNull | unencodable _ => false
  | _ => true

/-- The wording of a fault, with its number if it has one. -/
def Fault.description : Fault → String
  | notFound => "[Errno 2] No such file or directory"
  | notADirectory => "[Errno 20] Not a directory"
  | isADirectory => "[Errno 21] Is a directory"
  | nameTooLong => "[Errno 36] File name too long"
  | embeddedNull => "embedded null byte"
  | unencodable fault => fault.message

/-- The message that reports a fault at a path. -/
def Fault.message (f : Fault) (path : String) : String :=
  if f.isNumbered then f.description ++ ": " ++ Text.quoted path else f.description

/-- What a walk arrives at. -/
inductive Spot where
  | folder (place : List String)
  | file (place : List String) (content : List UInt8)
  /-- Nothing, in a folder that is there. -/
  | vacant (place : List String)
  deriving DecidableEq

/-- What stands at a place. -/
def spotAt (tree : FileTree) (place : List String) : Spot :=
  if place.isEmpty ∨ place ∈ tree.folders then .folder place
  else
    match tree.files.get? place with
    | some content => .file place content
    | none => .vacant place

/-- One component further from a spot. -/
def enter (tree : FileTree) (spot : Spot) (name : String) : Except Fault Spot :=
  match spot with
  | .file _ _ => .error .notADirectory
  | .vacant _ => .error .notFound
  | .folder place =>
    if name = "." then .ok spot
    else if name = ".." then .ok (tree.spotAt place.dropLast)
    else if 255 < (Text.Utf8.encode name).length then .error .nameTooLong
    else .ok (tree.spotAt (place ++ [name]))

/-- Walks along components. -/
def walk (tree : FileTree) : Spot → List String → Except Fault Spot
  | spot, [] => .ok spot
  | spot, name :: names => do tree.walk (← tree.enter spot name) names

/-- A path in parts: whether it starts at the root, its components, and whether a slash ends it. -/
structure Route where
  absolute : Bool
  names : List String
  closed : Bool

/-- Takes a path apart. Empty components are left out. -/
def Route.of (path : String) : Route where
  absolute := path.toList.head? = some '/'
  names := ((Path.components path.toList).map String.ofList).filter (· ≠ "")
  closed := path.toList.getLast? = some '/'

/-- What can be said of a path before it is walked. -/
def checkPath (path : String) : Except Fault Unit :=
  if path.toList.contains '\x00' then .error .embeddedNull
  else if path.isEmpty then .error .notFound
  else if 4096 ≤ (Text.Utf8.encode path).length then .error .nameTooLong
  else .ok ()

/-- The folder in which a route starts. -/
def startOf (tree : FileTree) (route : Route) : Spot :=
  .folder (if route.absolute then [] else tree.here)

/-- What a path leads to. -/
def locate (tree : FileTree) (path : String) : Except Fault Spot := do
  checkPath path
  let route := Route.of path
  tree.walk (tree.startOf route) route.names

/-- The content of the file at a path. -/
def read (tree : FileTree) (path : String) : Except Fault (List UInt8) := do
  match ← tree.locate path with
  | .folder _ => throw .isADirectory
  | .vacant _ => throw .notFound
  | .file _ content => if (Route.of path).closed then throw .notADirectory else return content

/-- The tree with a content in the file at a path, which is made if it is not there. A path that
ends in a slash can only mean a folder, whatever its last component is. -/
def write (tree : FileTree) (path : String) (content : List UInt8) : Except Fault FileTree := do
  checkPath path
  let route := Route.of path
  if route.closed then
    let around ← tree.walk (tree.startOf route) route.names.dropLast
    let _ ← tree.enter around "."
    throw .isADirectory
  else
    match ← tree.walk (tree.startOf route) route.names with
    | .folder _ => throw .isADirectory
    | .vacant place | .file place _ =>
      return { tree with files := tree.files.put place content }

/-- Why a file gives no text. -/
inductive TextFault where
  | unreadable (fault : Fault) (path : String)
  | notUtf8 (fault : Text.Utf8.Fault)
  deriving DecidableEq

/-- The text of the file at a path, with any kind of line end read as a line feed. -/
def readText (tree : FileTree) (path : String) : Except TextFault (List Char) := do
  let bytes ← (tree.read path).mapError (.unreadable · path)
  let text ← (Text.Utf8.decode bytes).mapError .notUtf8
  return Text.universalNewlines text

end FileTree

end Boli
