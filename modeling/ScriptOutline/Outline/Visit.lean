import ScriptOutline.Outline.Arguments
import ScriptOutline.Outline.Entry

/-!
# Visiting one node

What a single node of code contributes to an outline: an entry if it is a
function, a name for the functions below it if it names what it holds, or
nothing.
-/

namespace ScriptOutline

inductive Visit where
  | declaration (entry : Entry)
  | hint (name : String)
  | nothing
deriving DecidableEq, Repr

namespace Code

def Target.name? {α : Type} : Target α → Option String
  | .identifier name => some name
  | .member _ property => property
  | .pattern _ => none

/-- The name that a node gives to the functions below it. An assignment gives one
only as a whole statement. -/
def hint? (c : Code) : Option String :=
  match c.shape with
  | .declarator id _ _ => id
  | .statement (some expression) =>
      match expression.shape with
      | .assignment target _ => target.name?
      | _ => none
  | .property key _ _ => key
  | _ => none

/-- The name of a function: its own, else the hint, else the placeholder. -/
def FunctionDef.nameIn {α : Type} (f : FunctionDef α) (hint : String) : String :=
  match f.id with
  | some id => id
  | none => if hint = "" then placeholder else hint

def FunctionDef.entry (f : FunctionDef Code) (hint : String) (level : Nat) : Entry where
  name := f.nameIn hint
  line := f.line
  category := Category.of (f.nameIn hint) f.generator
  level := level
  args := arguments f.params f.defaults

def visit (c : Code) (hint : String) (level : Nat) : Visit :=
  match c.shape with
  | .function f => .declaration (f.entry hint level)
  | _ =>
      match c.hint? with
      | some name => .hint name
      | none => .nothing

end Code

namespace Visit

def declared? : Visit → Option Entry
  | declaration entry => some entry
  | _ => none

def hintBelow (hint : String) : Visit → String
  | .hint name => name
  | _ => hint

/-- The level of what lies below: a declaration adds one. -/
def levelBelow (level : Nat) : Visit → Nat
  | declaration _ => level + 1
  | _ => level

end Visit

end ScriptOutline
