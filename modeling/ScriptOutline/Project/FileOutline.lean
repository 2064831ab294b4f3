import ScriptOutline.Outline.Listing
import ScriptOutline.Outline.Record
import ScriptOutline.Outline.Source
import ScriptOutline.Project.Sources

/-!
# Outlines of files

Files are outlined one by one: a file that cannot be outlined has an error of its
own and leaves the others alone.
-/

namespace ScriptOutline

structure FileOutline where
  path : String
  dialect : Dialect
  entries : List Entry
deriving DecidableEq, Repr

inductive FileError where
  | unsupported (path : String)
  | unreadable (path : String) (cause : ReadError)
deriving DecidableEq, Repr

def FileError.message : FileError → String
  | unsupported path => "Unsupported file: " ++ path
  | unreadable path cause => "IO error reading " ++ path ++ ": " ++ cause.message

/-- The path of a file and below it the lines of its outline. -/
def FileOutline.listing (outline : FileOutline) : String :=
  outline.path ++ "\n" ++ Entry.listingAll outline.entries

def FileOutline.toJson (outline : FileOutline) : Json :=
  .object
    [("path", .string outline.path), ("dialect", .string outline.dialect.word),
      ("entries", Entry.listToJson outline.entries)]

namespace FileTree

def outlineAs (root : FileTree) (parse : Parser) (dialect : Dialect) (path : String) :
    Except FileError FileOutline :=
  match root.read path with
  | .ok source => .ok { path, dialect, entries := outlineOf parse dialect source }
  | .error cause => .error (.unreadable path cause)

def outlineFile (root : FileTree) (parse : Parser) (path : String) :
    Except FileError FileOutline :=
  match Dialect.ofPath? path with
  | some dialect => root.outlineAs parse dialect path
  | none => .error (.unsupported path)

def outlineIn (root : FileTree) (parse : Parser) (forced : Option Dialect) (path : String) :
    Except FileError FileOutline :=
  match forced with
  | some dialect => root.outlineAs parse dialect path
  | none => root.outlineFile parse path

def outlineFiles (root : FileTree) (parse : Parser) (forced : Option Dialect)
    (paths : List String) : List (String × Except FileError FileOutline) :=
  paths.map fun path => (path, root.outlineIn parse forced path)

end FileTree

end ScriptOutline
