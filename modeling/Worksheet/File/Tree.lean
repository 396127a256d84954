import Std.Data.ExtTreeMap
import Std.Data.ExtTreeSet
import Worksheet.File.Basic

/-!
# Trees of files

A `FileTree` is a tree of files as a value. It keeps the files, and the directories that may be
empty, by the names on the way from the root; what is above any of them is a directory too. A file
may be locked: then it is there, and every attempt to read or write it gives the same error. Paths
are resolved name by name: each name on the way must be a directory.

There are no links, no devices, and no files that may be written but not read.
-/

namespace Worksheet

/-- Files by the names on the way from the root, and the working directory. -/
structure FileTree where
  workingDirectory : List String
  files : Std.ExtTreeMap (List String) ByteArray := ∅
  /-- Directories that are there even if they are empty. -/
  directories : Std.ExtTreeSet (List String) := ∅
  /-- Files that can be neither read nor written, and the error of an attempt. -/
  locked : Std.ExtTreeMap (List String) FileError := ∅

namespace FileTree

/-- What there is at a place of a tree. -/
inductive Node where
  | file (content : ByteArray)
  | locked (error : FileError)
  | directory
  | nothing

/-- Whether a place is a directory. -/
def isDirectory (tree : FileTree) (place : List String) : Bool :=
  (tree.workingDirectory :: tree.directories.toList).any place.isPrefixOf ||
    (tree.files.keys ++ tree.locked.keys).any fun file => place.isPrefixOf file && place != file

/-- What there is at a place. -/
def node (tree : FileTree) (place : List String) : Node :=
  match tree.files[place]?, tree.locked[place]? with
  | some content, _ => .file content
  | none, some error => .locked error
  | none, none => if tree.isDirectory place then .directory else .nothing

/-- Goes on from a place by names, each of which is looked up in a directory. -/
def follow (tree : FileTree) (place : List String) : List String → Except FileError (List String)
  | [] => .ok place
  | name :: names =>
    match tree.node place with
    | .nothing => .error .notFound
    | .file _ => .error .notDirectory
    | .locked _ => .error .notDirectory
    | .directory =>
      if name = "." then tree.follow place names
      else if name = ".." then tree.follow place.dropLast names
      else tree.follow (place ++ [name]) names

/-- Where a path starts: at the root, or in the working directory. -/
def start (tree : FileTree) (path : String) : List String :=
  if path.startsWith "/" then [] else tree.workingDirectory

/-- The names in a path. -/
def names (path : String) : List String := (path.splitToList (· = '/')).filter (· ≠ "")

/-- The place that a path leads to. Before a slash at the end there must be a directory, as before
a last name `.`. -/
def resolve (tree : FileTree) (path : String) : Except FileError (List String) :=
  if path.isEmpty then .error .notFound
  else tree.follow (tree.start path) (names path ++ if path.endsWith "/" then ["."] else [])

/-- Whether a path leads to a file or directory. -/
def hasPath (tree : FileTree) (path : String) : Bool :=
  match tree.resolve path with
  | .ok place => match tree.node place with
    | .nothing => false
    | _ => true
  | .error _ => false

/-- The bytes of the file that a path leads to. -/
def read (tree : FileTree) (path : String) : Except FileError ByteArray := do
  match tree.node (← tree.resolve path) with
  | .file content => .ok content
  | .locked error => .error error
  | .directory => .error .isDirectory
  | .nothing => .error .notFound

/-- Makes a text the content of the file that a path leads to, which need not exist yet. With a
slash at its end a path can only stand for a directory. -/
def write (tree : FileTree) (path text : String) : Except FileError FileTree := do
  if path.isEmpty then throw .notFound
  let place ← tree.follow (tree.start path) (names path)
  if path.endsWith "/" then throw .isDirectory
  match tree.node place with
  | .directory => throw .isDirectory
  | .locked error => throw error
  | _ => return { tree with files := tree.files.insert place text.toUTF8 }

/-- The operations on a tree as the state of a program. -/
def fileSystem : FileSystem (StateM FileTree) where
  hasPath path := return (← get).hasPath path
  read path := return (← get).read path
  write path text := do
    match (← get).write path text with
    | .ok tree =>
      set tree
      return .ok ()
    | .error e => return .error e

end FileTree

end Worksheet
