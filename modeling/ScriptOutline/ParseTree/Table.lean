import ScriptOutline.ParseTree.Basic

/-!
# Flat form of parse trees

A tree written as a table: one row for each node, a node before its children,
each row with the number of its children. The fields stand with the parent,
which gives for each the position of the child that fills it.
-/

namespace ScriptOutline

def Field.word : Field → String
  | body => "body"
  | key => "key"
  | left => "left"
  | name => "name"
  | object => "object"
  | parameter => "parameter"
  | parameters => "parameters"
  | pattern => "pattern"
  | property => "property"
  | right => "right"
  | value => "value"

def Field.all : List Field :=
  [body, key, left, name, object, parameter, parameters, pattern, property, right, value]

def Field.ofWord? (text : String) : Option Field :=
  all.find? fun f => f.word == text

theorem Field.ofWord?_word (f : Field) : ofWord? f.word = some f := by
  cases f <;> decide

namespace ParseTree

structure Row where
  info : NodeInfo
  childCount : Nat
  /-- The fields that children fill, each with the position of the child. -/
  fields : List (Field × Nat)

/-- The node with the fields it fills in its parent replaced. -/
def withFields (fields : List Field) : ParseTree → ParseTree
  | node info children => node { info with fields := fields } children

def Row.fieldsAt (row : Row) (position : Nat) : List Field :=
  (row.fields.filter fun (_, i) => i == position).map Prod.fst

def Row.toTree (row : Row) (children : List ParseTree) : ParseTree :=
  node row.info (children.mapIdx fun i c => c.withFields (row.fieldsAt i))

/-- Puts a row in front of the trees that follow it: the first of them become its
children. There is no result if it asks for more than there are. -/
def Row.gather? (row : Row) (trees : List ParseTree) : Option (List ParseTree) :=
  if row.childCount ≤ trees.length then
    some (row.toTree (trees.take row.childCount) :: trees.drop row.childCount)
  else none

/-- The trees that the rows of a table list one after the other. -/
def forestOfRows? (rows : List Row) : Option (List ParseTree) :=
  rows.foldr (fun row trees => trees.bind row.gather?) (some [])

def ofRows? (rows : List Row) : Option ParseTree :=
  match forestOfRows? rows with
  | some [t] => some t
  | _ => none

end ParseTree

end ScriptOutline
