/-!
# Glob patterns

A pattern for paths is a list of tokens. A star matches within one name, two
stars between slashes match any number of directories, brackets match one byte of
a class and braces one of several patterns. Paths are matched byte by byte.
-/

namespace ScriptOutline.Glob

inductive Token where
  | literal (c : Char)
  | anyByte
  | anyRun
  /-- Any directories at the front. -/
  | anyDirectories
  /-- Anything below a directory. -/
  | inside
  /-- Any directories between two names. -/
  | between
  | oneOf (negated : Bool) (ranges : List (Char × Char))
  | either (branches : List (List Token))

/-- The bytes of a range: its ends are spelled out, and the range itself runs from
the last byte of the first character to the first byte of the last. -/
def byteRanges (range : Char × Char) : List (UInt8 × UInt8) :=
  let first := String.utf8EncodeChar range.1
  let last := String.utf8EncodeChar range.2
  if range.1 = range.2 then first.map fun b => (b, b)
  else
    first.dropLast.map (fun b => (b, b)) ++
      [(first.getLastD 0, last.headD 0)] ++ last.tail.map fun b => (b, b)

/-! ## Nesting -/

/-- How much a sequence holds and how deep its parts nest. -/
structure Extent where
  parts : Nat
  depth : Nat

namespace Extent

def nothing : Extent := { parts := 0, depth := 0 }

def beside (left right : Extent) : Extent :=
  { parts := left.parts + right.parts, depth := max left.depth right.depth }

/-- The depth of a sequence. One of several parts is a level of its own. -/
def level (extent : Extent) : Nat :=
  if extent.parts ≤ 1 then extent.depth else extent.depth + 1

/-- A group of branches. It is a level, and so is a choice between several; branches
that hold nothing do not count. -/
def either (branches : List Extent) : Extent :=
  match branches.filter fun branch => branch.parts != 0 with
  | [] => nothing
  | [branch] => { parts := 1, depth := branch.level + 1 }
  | several => { parts := 1, depth := (several.map level).foldl max 0 + 2 }

end Extent

mutual

/-- The extent of a token. A repetition, a class and a choice within a class are
levels, and directories are a group that chooses between sequences. -/
def Token.extent : Token → Extent
  | .literal c => { parts := (String.utf8EncodeChar c).length, depth := 0 }
  | .anyByte => { parts := 1, depth := 1 }
  | .anyRun => { parts := 1, depth := 2 }
  | .anyDirectories => { parts := 1, depth := 4 }
  | .inside => { parts := 2, depth := 1 }
  | .between => { parts := 1, depth := 4 }
  | .oneOf _ ranges =>
      { parts := 1, depth := if (ranges.flatMap byteRanges).length ≤ 1 then 1 else 2 }
  | .either branches => .either (extentsOf branches)

def extentsOf : List (List Token) → List Extent
  | [] => []
  | tokens :: branches => extentOf tokens :: extentsOf branches

def extentOf : List Token → Extent
  | [] => .nothing
  | token :: tokens => token.extent.beside (extentOf tokens)

end

/-- Whether tokens are written without anything in them, as braces around nothing
are. -/
def isVoid (tokens : List Token) : Bool := (extentOf tokens).parts == 0

def maxLevel : Nat := 250

/-- Whether a pattern nests too deep to be matched. The pattern is a level itself. -/
def nestsTooDeep (tokens : List Token) : Bool := maxLevel < (extentOf tokens).depth + 1

end ScriptOutline.Glob
