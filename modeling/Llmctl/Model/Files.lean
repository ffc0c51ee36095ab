import Mathlib.Data.List.Basic

/-!
# Files

A tree of files as the artifact functions see it. A symbolic link is given with what it leads
to; links lead out of the tree.
-/

namespace Llmctl.Model

abbrev OsString := List UInt8

inductive Node where
  | file (bytes : List UInt8)
  /-- `entrySize` is what the file system reports for the directory itself. -/
  | dir (entrySize : Nat) (entries : List (OsString × Node))
  | link (target : Node)
  | dangling

namespace Node

/-- What `fs::metadata` looks at. -/
def resolve : Node → Option Node
  | file bytes => some (file bytes)
  | dir entrySize entries => some (dir entrySize entries)
  | link target => target.resolve
  | dangling => none

def isFile (node : Node) : Bool :=
  match node.resolve with
  | some (file _) => true
  | _ => false

def isDir (node : Node) : Bool :=
  match node.resolve with
  | some (dir ..) => true
  | _ => false

/-- `DirEntry::file_type` and `DirEntry::metadata` do not follow links. -/
def regular : Node → Option (List UInt8)
  | file bytes => some bytes
  | _ => none

/-- The length that `fs::metadata` reports. -/
def metadataLen (node : Node) : Option Nat :=
  match node.resolve with
  | some (file bytes) => some bytes.length
  | some (dir entrySize _) => some entrySize
  | _ => none

end Node

end Llmctl.Model
