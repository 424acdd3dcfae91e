import CellMachine.Text.Fields
import CellMachine.Text.Quoted

/-!
# File paths

A path is a root (none, `/`, or the separate root `//`) and names. Reading a path drops empty names
and `.`, so a path has one written form; `..` is a name like any other here. The path without
names and root is `.`.

`FileTree` is a file system as data. A name there has at most 255 bytes and a path fewer than 4096;
what is longer is refused.
-/

namespace CellMachine

/-- A root and the names below it. -/
structure FilePath where
  /-- Nothing, one slash or two. -/
  root : String
  /-- The names, outermost first. -/
  names : List String
  deriving DecidableEq, Repr

namespace FilePath

/-- The root a text begins with: three slashes or more are one. -/
def rootOf : List Char → String
  | '/' :: '/' :: '/' :: _ => "/"
  | '/' :: '/' :: _ => "//"
  | '/' :: _ => "/"
  | _ => ""

/-- Reads a path. -/
def ofString (text : String) : FilePath where
  root := rootOf text.toList
  names := ((Text.fields '/' text.toList).map String.ofList).filter fun name =>
    name ≠ "" && name ≠ "."

/-- The written form of a path. -/
def text (path : FilePath) : String :=
  let text := path.root ++ "/".intercalate path.names
  if text = "" then "." else text

/-- Does a path hold the character U+0000? There is no file it could name. -/
def hasNul (path : FilePath) : Bool := path.text.toList.contains (Char.ofNat 0)

end FilePath

/-- Why a file cannot be read. -/
inductive ReadError where
  /-- No such file. -/
  | notFound
  /-- A name on the way is that of a file. -/
  | notDirectory
  /-- The path is that of a directory. -/
  | isDirectory
  /-- The path, or a name on the way, is longer than can be. -/
  | nameTooLong
  /-- Another reason, with the system's number for it. -/
  | other (number : Nat) (reason : String)
  deriving DecidableEq, Repr

/-- The system's number for a reason. -/
def ReadError.number : ReadError → Nat
  | .notFound => 2
  | .notDirectory => 20
  | .isDirectory => 21
  | .nameTooLong => 36
  | .other number _ => number

/-- A reason in words. -/
def ReadError.reason : ReadError → String
  | .notFound => "No such file or directory"
  | .notDirectory => "Not a directory"
  | .isDirectory => "Is a directory"
  | .nameTooLong => "File name too long"
  | .other _ reason => reason

/-- The wording for a path that cannot be read. -/
def ReadError.message (e : ReadError) (path : FilePath) : String :=
  s!"[Errno {e.number}] {e.reason}: " ++ Text.Quoted.encode path.text

/-- Files and directories with their contents. -/
inductive FileTree where
  /-- A file and its bytes. -/
  | file (bytes : ByteArray)
  /-- A directory and its entries. -/
  | directory (entries : List (String × FileTree))

namespace FileTree

/-- The bytes that a name can have at most. -/
def nameLimit : Nat := 255

/-- The bytes that a path can have at most. -/
def pathLimit : Nat := 4095

/-- The entry of this name, if the tree is a directory. -/
def entry (name : String) : FileTree → Except ReadError FileTree
  | .file _ => .error .notDirectory
  | .directory entries =>
    if nameLimit < name.utf8ByteSize then .error .nameTooLong
    else
      match entries.lookup name with
      | some tree => .ok tree
      | none => .error .notFound

/-- Follows names from a directory; `above` holds the directories it lies in, innermost first. The
topmost directory lies in itself. -/
def follow (above : List FileTree) (tree : FileTree) : List String → Except ReadError FileTree
  | [] => .ok tree
  | ".." :: names =>
    match tree, above with
    | .file _, _ => .error .notDirectory
    | .directory _, [] => follow [] tree names
    | .directory _, parent :: rest => follow rest parent names
  | name :: names => do
    let next ← tree.entry name
    follow (tree :: above) next names

/-- The bytes of the file at a path; a path without a root starts in a directory that lies in the
directories `above`, innermost first. -/
def read (above : List FileTree) (tree : FileTree) (path : FilePath) :
    Except ReadError ByteArray := do
  if pathLimit < path.text.utf8ByteSize then throw .nameTooLong
  let start := if path.root = "" then (above, tree) else ([], above.getLastD tree)
  match ← follow start.1 start.2 path.names with
  | .file bytes => return bytes
  | .directory _ => throw .isDirectory

end FileTree

end CellMachine
