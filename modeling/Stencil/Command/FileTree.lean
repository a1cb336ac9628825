import Stencil.Model.Error

/-!
# Trees of files

Files and directories under one directory, by their paths. A directory exists if it is listed or if
something under it is. The directories above exist too; nothing is known of what else they hold.
-/

namespace Stencil.Command

/-- The names on the way to a file. Names of `..` in front lead to the directories above. -/
abbrev Path := List String

inductive FileNode where
  | directory
  | file (bytes : List UInt8)
  deriving DecidableEq, Repr

structure FileTree where
  entries : List (Path × FileNode)
  deriving DecidableEq, Repr

namespace FileTree

/-- The path leads to the directory that holds the tree, or to one above it. -/
def isAbove (p : Path) : Bool := p.all (· == "..")

/-- What stands at a path. -/
def node? (t : FileTree) (p : Path) : Option FileNode :=
  match t.entries.lookup p with
  | some n => some n
  | none =>
    if isAbove p || t.entries.any (fun e => p.isPrefixOf e.1) then some .directory else none

/-- The tree with a file of the given content at a path. -/
def setFile (t : FileTree) (p : Path) (bytes : List UInt8) : FileTree :=
  ⟨(p, .file bytes) :: t.entries.filter (·.1 ≠ p)⟩

/-- The content of the file at a path, nothing if there is none. -/
def bytes (t : FileTree) (p : Path) : List UInt8 :=
  match t.node? p with
  | some (.file bs) => bs
  | _ => []

/-! ## Paths -/

/-- How many bytes a name can have. -/
def nameLimit : Nat := 255

/-- How many bytes a written path can have. -/
def pathLimit : Nat := 4095

/-- A path as it is written: where it starts, its names, and whether it ends in a slash. -/
structure Written where
  start : Path
  names : List String
  slash : Bool

/-- Names between slashes. A slash in front starts from a directory above. -/
def Written.ofText (s : String) : Except IoFault Written :=
  if pathLimit < s.utf8ByteSize then .error .nameTooLong
  else
    .ok ⟨if s.startsWith "/" then [".."] else [], (s.splitOn "/").filter (· ≠ ""), s.endsWith "/"⟩

/-- The directory that holds a place. -/
def parent (place : Path) : Path := if isAbove place then ".." :: place else place.dropLast

/-- Follows names from a directory on. Every place that is left must be a directory; the place that
    is reached need not exist. -/
def walk (t : FileTree) (place : Path) : List String → Except IoFault Path
  | [] => .ok place
  | name :: names =>
    match t.node? place with
    | none => .error .notFound
    | some (.file _) => .error .notDirectory
    | some .directory =>
      if name = "." then t.walk place names
      else if name = ".." then t.walk (parent place) names
      else if nameLimit < name.utf8ByteSize then .error .nameTooLong
      else t.walk (place ++ [name]) names

/-- The content of the file with a written path. A slash at the end asks for a directory. -/
def read (t : FileTree) (path : String) : Except IoFault (List UInt8) := do
  let w ← Written.ofText path
  let p ← t.walk w.start (if w.slash then w.names ++ ["."] else w.names)
  match t.node? p with
  | none => .error .notFound
  | some .directory => .error .isDirectory
  | some (.file bs) => .ok bs

/-- The path of a file that can be written, whether it exists or not. A slash at the end is refused
    wherever the directory before its name exists. -/
def writable (t : FileTree) (path : String) : Except IoFault Path := do
  let w ← Written.ofText path
  if w.slash then
    let _ ← t.walk w.start (w.names.dropLast ++ ["."])
    .error .isDirectory
  else
    let p ← t.walk w.start w.names
    match t.node? p with
    | some .directory => .error .isDirectory
    | _ => .ok p

/-- Bytes written over a content from a position on. A gap before the position is filled with
    zeros. -/
def overwrite (content : List UInt8) (position : Nat) (bs : List UInt8) : List UInt8 :=
  content.take position ++ List.replicate (position - content.length) 0 ++ bs
    ++ content.drop (position + bs.length)

end FileTree

end Stencil.Command
