import DotGraph.Command.Surroundings
import DotGraph.Toml.Settings

namespace DotGraph

/-! Files and folders held in memory.  A path is followed name by name from the folder in which the
program runs; every name on the way has to be that of a folder. -/

structure FileTree where
  folders : List (List String) := []
  files : List (List String × ByteArray) := []

namespace FileTree

/-- A place in the tree, named by the way to it; a folder around it; or a place that is in neither
of them. -/
inductive Place where
  | inside (way : List String)
  | around
  | unknown
deriving DecidableEq, Repr

def isFolder (tree : FileTree) : Place → Bool
  | .inside way => way.isEmpty || tree.folders.contains way
  | .around => true
  | .unknown => false

def contents? (tree : FileTree) : Place → Option ByteArray
  | .inside way => tree.files.lookup way
  | .around | .unknown => none

/-- A point names the folder itself, and two points the one around it. -/
def Place.next (name : String) : Place → Place
  | .inside way =>
      if name = "" ∨ name = "." then .inside way
      else if name = ".." then if way.isEmpty then .around else .inside way.dropLast
      else .inside (way ++ [name])
  | .around => if name = "" ∨ name = "." ∨ name = ".." then .around else .unknown
  | .unknown => .unknown

/-- No folder has longer names. -/
def maxNameSize : Nat := 255

/-- No path is longer, wherever it leads. -/
def maxPathSize : Nat := 4095

def step (tree : FileTree) (place : Place) (name : String) : Except FileError Place :=
  if !tree.isFolder place then .error .notDirectory
  else if maxNameSize < name.utf8ByteSize then .error .nameTooLong
  else
    let next := place.next name
    if tree.isFolder next || (tree.contents? next).isSome then .ok next else .error .notFound

def start (names : List String) : Place :=
  if names.head? = some "" then .around else .inside []

def find (tree : FileTree) (path : String) : Except FileError Place :=
  if path = "" then .error .notFound
  else if maxPathSize < path.utf8ByteSize then .error .nameTooLong
  else
    let names := path.splitOn "/"
    names.foldlM tree.step (start names)

def entry (tree : FileTree) (path : String) : Entry :=
  match tree.find path with
  | .error error => .absent error
  | .ok place =>
      match tree.contents? place with
      | some bytes => .file bytes
      | none => .unreadable .isDirectory

/-- Where a file is written: in a folder that is there, under a name that is no folder's. -/
def target (tree : FileTree) (path : String) : Except FileError Place := do
  if maxPathSize < path.utf8ByteSize then throw .nameTooLong
  let names := path.splitOn "/"
  match names.reverse.dropWhile (· = "") with
  | [] => throw (if path = "" then .notFound else .isDirectory)
  | name :: parents =>
      let folder ← parents.reverse.foldlM tree.step (start names)
      if !tree.isFolder folder then throw .notDirectory
      if names.getLast? = some "" then throw .isDirectory
      if maxNameSize < name.utf8ByteSize then throw .nameTooLong
      let place := folder.next name
      if tree.isFolder place then throw .isDirectory
      return place

def refusal (tree : FileTree) (path : String) : Option FileError :=
  match tree.target path with
  | .error error => some error
  | .ok _ => none

def write (tree : FileTree) (path text : String) : FileTree :=
  match tree.target path with
  | .ok (.inside way) => { tree with files := (way, text.toUTF8) :: tree.files }
  | _ => tree

def surroundings (tree : FileTree) (stdin : ByteArray) : Surroundings :=
  ⟨.ok stdin, tree.entry, tree.refusal, Settings.ofTomlText?⟩

end FileTree

end DotGraph
