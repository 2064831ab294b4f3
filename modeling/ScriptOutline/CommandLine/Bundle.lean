import ScriptOutline.Outline.ParsedSource
import ScriptOutline.ParseTree.Table
import ScriptOutline.Project.FileTree
import ScriptOutline.Path
import ScriptOutline.Text.Hexadecimal

/-!
# Bundles

What a run of the command line works on, as one text: the files of a project, the
bytes of standard input, and the trees of the sources among them. A bundle has
one record to a line. A record is a word for its kind and its values, with single
spaces between them; texts and bytes are written in hexadecimal.

    directory PATH
    file PATH BYTES
    link PATH TARGET
    input BYTES
    source GRAMMAR TEXT
    node KIND FLAGS START STOP ROW CHILDREN FIELD:POSITION ...

The nodes behind a source are its tree, a node before its children. The flags of
a node are `n` for a named one, `x` for an extra and `m` for a missing one.
-/

namespace ScriptOutline

structure Bundle where
  root : FileTree
  input : ByteArray
  known : List ParsedSource

namespace Bundle

def parser (bundle : Bundle) : Parser := Parser.ofParsed bundle.known

/-! ## Records -/

inductive Record where
  | directory (path : String)
  | file (path : String) (bytes : ByteArray)
  | link (path target : String)
  | input (bytes : ByteArray)
  | source (grammar : Grammar) (text : String)
  | node (row : ParseTree.Row)

def bytes? (word : String) : Option ByteArray :=
  (Text.bytesOfHex? word.toList).map fun bytes => ⟨bytes.toArray⟩

def text? (word : String) : Option String :=
  (bytes? word).bind String.fromUTF8?

def fieldPosition? (word : String) : Option (Field × Nat) :=
  match word.toList.splitOn ':' with
  | [name, position] => do
      return (← Field.ofWord? (String.ofList name), ← (String.ofList position).toNat?)
  | _ => none

def row? (kind flags start stop row children : String) (fields : List String) :
    Option ParseTree.Row := do
  let info : NodeInfo :=
    { kind := ← text? kind
      named := flags.contains 'n'
      extra := flags.contains 'x'
      missing := flags.contains 'm'
      start := ← start.toNat?
      stop := ← stop.toNat?
      row := ← row.toNat?
      fields := [] }
  return { info, childCount := ← children.toNat?, fields := ← fields.mapM fieldPosition? }

def Record.ofWords? : List String → Option Record
  | ["directory", path] => do return .directory (← text? path)
  | ["file", path, content] => do return .file (← text? path) (← bytes? content)
  | ["link", path, target] => do return .link (← text? path) (← text? target)
  | ["input", content] => do return .input (← bytes? content)
  | ["source", grammar, content] => do
      return .source (← Grammar.ofWord? grammar) (← text? content)
  | "node" :: kind :: flags :: start :: stop :: row :: children :: fields => do
      return .node (← row? kind flags start stop row children fields)
  | _ => none

/-! ## Contents -/

def leadingRows : List Record → List ParseTree.Row
  | .node row :: rest => row :: leadingRows rest
  | _ => []

/-- Puts what a record tells of a file into a tree of files. -/
def Record.place (root : FileTree) : Record → FileTree
  | .directory path => FileTree.insert .empty (Path.steps path) root
  | .file path bytes => FileTree.insert (.file bytes) (Path.steps path) root
  | .link path target => FileTree.insert (.link target) (Path.steps path) root
  | _ => root

/-- The sources among some records, each with the tree of the rows behind it. A
source without a tree spoils them all. -/
def parsed? : List Record → Option (List ParsedSource)
  | [] => some []
  | .source grammar source :: rest => do
      let tree ← ParseTree.ofRows? (leadingRows rest)
      return { grammar, source, tree } :: (← parsed? rest)
  | _ :: rest => parsed? rest

/-- The bytes of standard input, which are none unless a record gives some. -/
def inputOf (records : List Record) : ByteArray :=
  (records.findSome? fun
    | .input bytes => some bytes
    | _ => none).getD ByteArray.empty

/-! ## Texts -/

/-- Why a text is no bundle. Lines are counted from one. -/
inductive Error where
  | noRecord (line : Nat)
  | noTree
deriving DecidableEq, Repr

def Error.message : Error → String
  | noRecord line => "Line " ++ toString line ++ " of the bundle is no record."
  | noTree => "The nodes behind a source of the bundle are no tree."

def words (line : List Char) : List String :=
  (line.splitOn ' ').map String.ofList

/-- The records of lines that follow the first `count` lines. Empty lines hold
none. -/
def records (count : Nat) : List (List Char) → Except Error (List Record)
  | [] => .ok []
  | [] :: rest => records (count + 1) rest
  | line :: rest =>
      match Record.ofWords? (words line) with
      | some record => (records (count + 1) rest).map fun others => record :: others
      | none => .error (.noRecord (count + 1))

def ofText (text : String) : Except Error Bundle := do
  let list ← records 0 (text.toList.splitOn '\n')
  match parsed? list with
  | some known => return { root := list.foldl Record.place .empty, input := inputOf list, known }
  | none => throw .noTree

end Bundle

end ScriptOutline
