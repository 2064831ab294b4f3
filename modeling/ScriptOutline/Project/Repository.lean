import ScriptOutline.Project.Lookup
import ScriptOutline.Project.RuleFile

/-!
# Repositories

A directory under version control holds `.git` or `.jj`. Rules that the
repository keeps for itself stand in its `info/exclude`. Where `.git` is a file,
its first line names a directory, whose `commondir` names in its first line the
directory that the repository shares between its working trees. Both are named
as seen from the root of the tree.
-/

namespace ScriptOutline

def Place.has (directory : Place) (path : List String) : Bool :=
  match Place.follow FileTree.maxLinks directory path with
  | .ok _ => true
  | .error _ => false

def Place.isRepository (directory : Place) : Bool :=
  directory.has [".git"] || directory.has [".jj"]

/-! ## Rule files -/

/-- The rules at a place; only a file holds any. -/
def RuleFile.ofPlace : Except ReadError Place → RuleFile
  | .ok { node := .file bytes, .. } => .ofBytes bytes
  | _ => .empty

/-- The rules in a file below a directory; without the file there are none. -/
def Place.ruleFile (directory : Place) (path : List String) : RuleFile :=
  .ofPlace (Place.follow FileTree.maxLinks directory path)

/-! ## Shared directories -/

/-- The first line of a file may be missing, or no text. -/
inductive FirstLine where
  | missing
  | garbled
  | text (line : String)

def FirstLine.ofBytes (bytes : ByteArray) : FirstLine :=
  match Text.lines bytes with
  | [] => .missing
  | none :: _ => .garbled
  | some line :: _ => .text line

/-- The first line of what a path leads to; a directory has none that is text. -/
def FileTree.firstLine (root : FileTree) (path : String) : FirstLine :=
  match root.locate path with
  | .ok { node := .file bytes, .. } => .ofBytes bytes
  | .ok _ => .garbled
  | .error _ => .missing

/-- What stands in front of the directory in a `.git` file. -/
def linkMark : String := "gitdir: "

/-- The directory that a line of a `.git` file names. -/
def linkedDirectory? (line : String) : Option String :=
  if linkMark.toList.isPrefixOf line.toList then
    some (String.ofList (line.toList.drop linkMark.length))
  else none

/-- The directory that a line of `commondir` names: as seen from the directory of
that file if the line starts with a dot. -/
def sharedDirectory (directory line : String) : String :=
  if line.toList.head? = some '.' then Path.join directory line else line

/-- The rules of a repository whose `.git` is a file. -/
def FileTree.linkedExcludes (root : FileTree) (link : ByteArray) : RuleFile :=
  match FirstLine.ofBytes link with
  | .missing => .empty
  | .garbled => .garbled
  | .text line =>
      match linkedDirectory? line with
      | none => .empty
      | some linked =>
          match root.firstLine (Path.join linked "commondir") with
          | .missing => .empty
          | .garbled => .garbled
          | .text line =>
              .ofPlace (root.locate (Path.join (sharedDirectory linked line) "info/exclude"))

def Place.excludes (directory : Place) : RuleFile :=
  match Place.follow FileTree.maxLinks directory [".git"] with
  | .ok { node := .file link, .. } => directory.root.linkedExcludes link
  | _ => directory.ruleFile [".git", "info", "exclude"]

end ScriptOutline
