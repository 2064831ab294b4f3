/-!
# Paths

A path is a text of pieces between slashes. Empty pieces and single dots name
the place where they stand, two dots the place above.
-/

namespace ScriptOutline.Path

def pieces (path : String) : List String :=
  (path.toList.splitOn '/').map String.ofList

def isAbsolute (path : String) : Bool := path.toList.head? == some '/'

def isIdle (piece : String) : Bool := piece == "" || piece == "."

/-- The pieces of a path that lead somewhere. -/
def steps (path : String) : List String :=
  (pieces path).filter fun piece => !isIdle piece

/-- The name at the end of a path; a path that ends by going up has none. -/
def fileName? (path : String) : Option String :=
  match (steps path).getLast? with
  | some ".." => none
  | last => last

/-- What stands behind the last dot of a name. A name whose only dot is its first
character has no extension, nor has a name without a dot. -/
def extensionOfName? (name : List Char) : Option (List Char) :=
  match name.reverse.dropWhile fun c => c != '.' with
  | _ :: _ :: _ => some (name.reverse.takeWhile fun c => c != '.').reverse
  | _ => none

def extension? (path : String) : Option String :=
  (fileName? path).bind fun name => (extensionOfName? name.toList).map String.ofList

def join (path name : String) : String :=
  if path = "" ∨ path.toList.getLast? = some '/' then path ++ name else path ++ "/" ++ name

/-! ## Paths seen from a directory -/

/-- Whether a path is written as a dot, alone or with idle pieces behind it. -/
def isHere (path : String) : Bool := (pieces path).head? == some "." && (pieces path).all isIdle

def dropHere : List Char → List Char
  | '.' :: '/' :: rest => rest
  | path => path

def dropSlash : List Char → List Char
  | '/' :: rest => rest
  | path => path

/-- The path of an entry as seen from a directory above it, found by the way both
are written: where the path of the directory does not stand in front of the
other, the entry keeps its own path. -/
def seenFrom (directory path : String) : List Char :=
  let origin := dropHere directory.toList
  let target := dropHere (dropHere path.toList)
  if !isHere (String.ofList origin) && target.contains '/' && origin.isPrefixOf target then
    dropSlash (target.drop origin.length)
  else target

end ScriptOutline.Path
