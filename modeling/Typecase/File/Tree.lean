import Typecase.Font.Data

/-!
# File trees

A tree of files as a value: what a program sees of a file system when nothing changes. Paths
are resolved step by step from the root of the tree; an empty step and `.` stay in place, `..`
goes up, and every step but the last must end in a directory. What lies outside the tree is
taken to be empty.

`Reader` is the view that programs use. It serves the tree as well as the files of a running
system, and `FileTree.reader` is the one for a tree.
-/

namespace Typecase

/-- Reading access to files, in a monad of effects. -/
structure Reader (m : Type → Type) where
  /-- The text of a file. -/
  text : String → m (Except FileError String)
  /-- The data of a font file. -/
  font : String → m (Except FileError FontData)
  /-- The names of the files in a directory, subdirectories left out, in any order. -/
  files : String → m (Except FileError (List String))

/-- What is found at a place. -/
inductive FileNode where
  | directory
  | file (content : FontData)

/-- Files and directories by the steps that lead to them. A place above a listed one is a
directory. -/
structure FileTree where
  entries : List (List String × FileNode)

namespace FileTree

/-- The steps of a path: the parts between slashes. -/
def steps (path : String) : List String := (path.splitOn "/")

/-- What is found behind the given steps from the root, none of them empty or dotted. -/
def node? (t : FileTree) (place : List String) : Option FileNode :=
  match t.entries.find? (fun e => e.1 == place) with
  | some e => some e.2
  | none =>
    if place.isEmpty || t.entries.any (fun e => place.isPrefixOf e.1) then some .directory
    else none

/-- The largest number of bytes in a name. -/
def nameLimit : Nat := 255

/-- The number of bytes, final zero included, that a path may have. -/
def pathLimit : Nat := 4096

/-- A place in the tree, or one that is `above` levels over its root. -/
structure Place where
  above : Nat
  inside : List String

/-- What is found at a place. -/
def nodeAt? (t : FileTree) (p : Place) : Option FileNode :=
  if p.above = 0 then t.node? p.inside
  else if p.inside.isEmpty then some .directory
  else none

/-- Takes steps from a place where `here` was found; gives the place reached and what is found
there. -/
def walk (t : FileTree) (p : Place) (here : FileNode) :
    List String → Except FileError (Place × FileNode)
  | [] => .ok (p, here)
  | s :: rest =>
    match here with
    | .file _ => .error .notADirectory
    | .directory =>
      if s = "" ∨ s = "." then t.walk p .directory rest
      else if s = ".." then
        if p.inside.isEmpty then t.walk ⟨p.above + 1, []⟩ .directory rest
        else t.walk ⟨p.above, p.inside.dropLast⟩ .directory rest
      else if nameLimit < s.utf8ByteSize then .error .nameTooLong
      else
        match t.nodeAt? ⟨p.above, p.inside ++ [s]⟩ with
        | some next => t.walk ⟨p.above, p.inside ++ [s]⟩ next rest
        | none => .error .notFound

/-- Resolves a path. A path that starts with a slash leads outside the tree. -/
def resolve (t : FileTree) (path : String) : Except FileError (Place × FileNode) :=
  if path.contains '\x00' then .error .zeroByte
  else if path = "" then .error .notFound
  else if pathLimit ≤ path.utf8ByteSize then .error .nameTooLong
  else if path.startsWith "/" then t.walk ⟨1, []⟩ .directory (steps path)
  else t.walk ⟨0, []⟩ .directory (steps path)

/-- The content of the file at a path. -/
def content (t : FileTree) (path : String) : Except FileError FontData :=
  match t.resolve path with
  | .ok (_, .file content) => .ok content
  | .ok (_, .directory) => .error .isADirectory
  | .error e => .error e

/-- The text that file content holds. -/
def textOf : FontData → Except FileError String
  | .bytes data =>
    match Text.decode? data.toList with
    | some text => .ok (String.ofList text)
    | none => .error .notText
  | _ => .error .notText

/-- The text of the file at a path. -/
def text (t : FileTree) (path : String) : Except FileError String :=
  match t.content path with
  | .ok content => textOf content
  | .error e => .error e

/-- The names in the directory at a place that denote files. -/
def filesIn (t : FileTree) (p : Place) : List String :=
  if p.above = 0 then
    t.entries.filterMap fun e =>
      match e.2 with
      | .file _ => if e.1.dropLast = p.inside then e.1.getLast? else none
      | .directory => none
  else []

/-- The names of the files in the directory at a path. -/
def files (t : FileTree) (path : String) : Except FileError (List String) :=
  match t.resolve path with
  | .ok (p, .directory) => .ok (t.filesIn p)
  | .ok (_, .file _) => .error .notADirectory
  | .error e => .error e

/-- Reading access to a tree. -/
def reader (t : FileTree) : Reader Id where
  text := t.text
  font := t.content
  files := t.files

end FileTree

end Typecase
