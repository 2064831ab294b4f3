import ScriptOutline.Project.Glob.Token

/-!
# Matching glob patterns

A pattern is matched against all of a path at once. What it has matched so far is
known by where it can end: one mark for the front of the path and one behind each
of its bytes. Each token carries the marks on, so that the work grows with the
length of the pattern times the length of the path.
-/

namespace ScriptOutline.Glob

def slash : UInt8 := 0x2F

/-! ## Marks -/

abbrev Marks := List Bool

def Marks.start (path : List UInt8) : Marks := true :: path.map fun _ => false

/-- The ends of either of two matches. -/
def Marks.union (left right : Marks) : Marks := List.zipWith (· || ·) left right

/-- The marks carried over one byte with a property. -/
def Marks.over (p : UInt8 → Bool) (path : List UInt8) (marks : Marks) : Marks :=
  false :: List.zipWith (fun b mark => mark && p b) path marks

/-- The marks carried over any number of bytes with a property. -/
def Marks.along (p : UInt8 → Bool) : List UInt8 → Marks → Marks
  | b :: path, mark :: next :: marks =>
      mark :: along p path ((next || (mark && p b)) :: marks)
  | _, marks => marks

def Marks.behindSlashes (path : List UInt8) (marks : Marks) : Marks :=
  (marks.along (fun _ => true) path).over (fun b => b == slash) path

/-! ## Tokens -/

def classHas (ranges : List (Char × Char)) (b : UInt8) : Bool :=
  (ranges.flatMap byteRanges).any fun (first, last) => first ≤ b && b ≤ last

mutual

/-- The marks carried over a token. A group without a branch that holds anything
matches nothing but the empty text. -/
def Token.carry (path : List UInt8) : Token → Marks → Marks
  | .literal c, marks =>
      (String.utf8EncodeChar c).foldl (fun marks byte => marks.over (fun b => b == byte) path)
        marks
  | .anyByte, marks => marks.over (fun b => b != slash) path
  | .anyRun, marks => marks.along (fun b => b != slash) path
  | .anyDirectories, marks => marks.union (marks.behindSlashes path)
  | .inside, marks => (marks.over (fun b => b == slash) path).along (fun _ => true) path
  | .between, marks =>
      let behind := marks.over (fun b => b == slash) path
      behind.union (behind.behindSlashes path)
  | .oneOf negated ranges, marks => marks.over (fun b => classHas ranges b != negated) path
  | .either branches, marks =>
      if branches.all isVoid then marks else carryAny path branches marks

/-- The marks carried over any of the branches that hold something. -/
def carryAny (path : List UInt8) : List (List Token) → Marks → Marks
  | [], marks => marks.map fun _ => false
  | tokens :: branches, marks =>
      if isVoid tokens then carryAny path branches marks
      else (carryAll path tokens marks).union (carryAny path branches marks)

def carryAll (path : List UInt8) : List Token → Marks → Marks
  | [], marks => marks
  | token :: tokens, marks => carryAll path tokens (token.carry path marks)

end

/-- Whether a pattern matches all of a path. Two stars alone match every path. -/
def matchesPath (tokens : List Token) (path : List UInt8) : Bool :=
  match tokens with
  | [.anyDirectories] => true
  | _ => (carryAll path tokens (Marks.start path)).getLast? == some true

end ScriptOutline.Glob
