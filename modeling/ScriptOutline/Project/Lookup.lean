import ScriptOutline.Path
import ScriptOutline.Project.FileTree

/-!
# Paths in a file tree

A path is followed from the root of the tree, piece by piece. Links are followed
wherever they stand, but not without end. Outside the tree there are directories
of which nothing is known, and nothing is found in them.
-/

namespace ScriptOutline

/-- A node of a file tree with the directories around it, the nearest first, each
with the name that leads on from it. -/
structure Place where
  node : FileTree
  trail : List (String × FileTree)

inductive ReadError where
  | notFound | notDirectory | isDirectory | tooManyLinks | notText
deriving DecidableEq, Repr

def ReadError.message : ReadError → String
  | notFound => "No such file or directory (os error 2)"
  | notDirectory => "Not a directory (os error 20)"
  | isDirectory => "Is a directory (os error 21)"
  | tooManyLinks => "Too many levels of symbolic links (os error 40)"
  | notText => "stream did not contain valid UTF-8"

namespace Place

def outside : Place := { node := .directory [], trail := [] }

/-- The place above. What lies above the root is outside. -/
def above (place : Place) : Place :=
  match place.trail with
  | [] => outside
  | (_, node) :: trail => { node := node, trail := trail }

def root (place : Place) : FileTree :=
  match place.trail.getLast? with
  | some (_, node) => node
  | none => place.node

def enter (place : Place) (name : String) (node : FileTree) : Place :=
  { node := node, trail := (name, place.node) :: place.trail }

/-- Where the way of a path begins that is followed from a place. An absolute path
begins outside. -/
def startOf (place : Place) (path : String) : Place :=
  if Path.isAbsolute path then outside else place

/-- The place that pieces lead to, with `onLink` for the rest of the way once a
link has been met. -/
def followWith (onLink : Place → List String → Except ReadError Place) :
    Place → List String → Except ReadError Place
  | place, [] => .ok place
  | place, piece :: rest =>
      match place.node with
      | .directory entries =>
          if Path.isIdle piece then followWith onLink place rest
          else if piece = ".." then followWith onLink place.above rest
          else
            match entries.lookup piece with
            | some (.link target) =>
                if target = "" then .error .notFound
                else onLink (place.startOf target) (Path.pieces target ++ rest)
            | some node => followWith onLink (place.enter piece node) rest
            | none => .error .notFound
      | _ => .error .notDirectory

/-- The place that pieces lead to over at most `links` links. -/
def follow : (links : Nat) → Place → List String → Except ReadError Place
  | 0 => followWith fun _ _ => .error .tooManyLinks
  | links + 1 => followWith (follow links)

end Place

namespace FileTree

def maxLinks : Nat := 40

def locate (root : FileTree) (path : String) : Except ReadError Place :=
  if path = "" then .error .notFound
  else
    let start : Place := { node := root, trail := [] }
    Place.follow maxLinks (start.startOf path) (Path.pieces path)

def exists? (root : FileTree) (path : String) : Bool :=
  match root.locate path with
  | .ok _ => true
  | .error _ => false

def isFile (root : FileTree) (path : String) : Bool :=
  match root.locate path with
  | .ok { node := .file _, .. } => true
  | _ => false

end FileTree

def Place.bytes (place : Place) : Except ReadError ByteArray :=
  match place.node with
  | .file bytes => .ok bytes
  | _ => .error .isDirectory

def FileTree.read (root : FileTree) (path : String) : Except ReadError String := do
  let bytes ← (← root.locate path).bytes
  match String.fromUTF8? bytes with
  | some text => return text
  | none => throw .notText

end ScriptOutline
