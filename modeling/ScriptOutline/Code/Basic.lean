/-!
# Code as the outline sees it

A closed model of source code that names the shapes which declare or name
functions and keeps everything else as it is nested. `Shape` is one layer of it
over parts of any type; `Code` is such a layer over code.
-/

namespace ScriptOutline.Code

/-- One formal parameter: how it is written in an outline, and the pattern it
binds unless that is a plain name. -/
structure Param (α : Type) where
  name : String
  pattern : Option α

/-- The default of a parameter and the source it was written as. -/
structure Default (α : Type) where
  node : α
  source : String

/-- Anything with a list of formal parameters. The defaults are aligned with the
parameters by position; a parameter without a partner has none. -/
structure FunctionDef (α : Type) where
  id : Option String
  decorators : List α
  /-- The name of a method that is given by an expression. -/
  computedName : Option α
  params : List (Param α)
  defaults : List (Option (Default α))
  generator : Bool
  /-- The line where the function starts, counted from one. -/
  line : Nat
  body : Option α

inductive Target (α : Type) where
  | identifier (name : String)
  | member (object : α) (property : Option String)
  | pattern (binding : α)

/-- One layer of code. Names are present where the source gives a usable plain
name, and parts where it gives a part. -/
inductive Shape (α : Type) where
  | function (definition : FunctionDef α)
  | declarator (id : Option String) (pattern init : Option α)
  | statement (expression : Option α)
  | assignment (target : Target α) (value : Option α)
  | property (key : Option String) (computed value : Option α)
  | literal (value : String)
  | other (kind : String) (children : List α)

variable {α β : Type}

/-! ## Parts in source order -/

/-- The patterns and defaults of parameters, each default behind the pattern it
belongs to. -/
def paramSlots : List (Param α) → List (Option (Default α)) → List α
  | [], _ => []
  | p :: params, [] => p.pattern.toList ++ paramSlots params []
  | p :: params, d :: defaults =>
      p.pattern.toList ++ ((d.map Default.node).toList ++ paramSlots params defaults)

def FunctionDef.slots (f : FunctionDef α) : List α :=
  f.decorators ++ (f.computedName.toList ++ (paramSlots f.params f.defaults ++ f.body.toList))

def Target.slots : Target α → List α
  | .identifier _ => []
  | .member object _ => [object]
  | .pattern binding => [binding]

/-- The parts of a layer in source order. -/
def Shape.slots : Shape α → List α
  | .function f => f.slots
  | .declarator _ pattern init => pattern.toList ++ init.toList
  | .statement expression => expression.toList
  | .assignment target value => target.slots ++ value.toList
  | .property _ computed value => computed.toList ++ value.toList
  | .literal _ => []
  | .other _ children => children

/-! ## Replacing the parts -/

def Param.map (f : α → β) (p : Param α) : Param β :=
  { name := p.name, pattern := p.pattern.map f }

def Default.map (f : α → β) (d : Default α) : Default β :=
  { node := f d.node, source := d.source }

def FunctionDef.map (g : α → β) (f : FunctionDef α) : FunctionDef β where
  id := f.id
  decorators := f.decorators.map g
  computedName := f.computedName.map g
  params := f.params.map (Param.map g)
  defaults := f.defaults.map (Option.map (Default.map g))
  generator := f.generator
  line := f.line
  body := f.body.map g

def Target.map (f : α → β) : Target α → Target β
  | .identifier name => .identifier name
  | .member object property => .member (f object) property
  | .pattern binding => .pattern (f binding)

def Shape.map (f : α → β) : Shape α → Shape β
  | .function g => .function (g.map f)
  | .declarator id pattern init => .declarator id (pattern.map f) (init.map f)
  | .statement expression => .statement (expression.map f)
  | .assignment target value => .assignment (target.map f) (value.map f)
  | .property key computed value => .property key (computed.map f) (value.map f)
  | .literal value => .literal value
  | .other kind children => .other kind (children.map f)

theorem paramSlots_map (f : α → β) (params : List (Param α))
    (defaults : List (Option (Default α))) :
    paramSlots (params.map (Param.map f)) (defaults.map (Option.map (Default.map f))) =
      (paramSlots params defaults).map f := by
  induction params generalizing defaults with
  | nil => simp [paramSlots]
  | cons p params ih =>
      have hnil := ih []
      have hpattern (q : Option α) : (q.map f).toList = q.toList.map f := by
        cases q <;> rfl
      cases defaults with
      | nil => simp_all [paramSlots, Param.map]
      | cons d defaults => cases d <;> simp_all [paramSlots, Param.map, Default.map]

theorem Shape.slots_map (f : α → β) (s : Shape α) : (s.map f).slots = s.slots.map f := by
  have hoption (q : Option α) : (q.map f).toList = q.toList.map f := by
    cases q <;> rfl
  cases s with
  | function g =>
      simp [Shape.map, Shape.slots, FunctionDef.map, FunctionDef.slots, paramSlots_map, hoption]
  | declarator id pattern init => simp [Shape.map, Shape.slots, hoption]
  | statement expression => simp [Shape.map, Shape.slots, hoption]
  | assignment target value =>
      cases target <;> simp [Shape.map, Shape.slots, Target.map, Target.slots, hoption]
  | property key computed value => simp [Shape.map, Shape.slots, hoption]
  | literal value => rfl
  | other kind children => rfl

end Code

/-- Code: one layer whose parts are code again. -/
inductive Code where
  | node (shape : Code.Shape Code)

namespace Code

def shape : Code → Shape Code
  | node s => s

def children (c : Code) : List Code := c.shape.slots

end Code

end ScriptOutline
