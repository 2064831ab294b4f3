import ScriptOutline.Code.Construct
import ScriptOutline.Code.Unfold
import ScriptOutline.StringLiteral
import ScriptOutline.Text.Compact

/-!
# The code of a parse tree

A parse tree becomes code layer by layer. The first layer of a node names the
nodes from which its parts come (`shapeOf`); the code of the node is that layer
with each of them replaced by its code. Parentheses around a single node carry
nothing and leave no layer.
-/

namespace ScriptOutline

/-- Where a part of code comes from: a node, or nothing where a part has to be but
the source has none. -/
inductive Operand where
  | absent
  | tree (t : ParseTree)

namespace Operand

def ofOption : Option ParseTree → Operand
  | none => absent
  | some t => tree t

def size : Operand → Nat
  | absent => 0
  | tree t => t.size

end Operand

namespace Code

/-- The length to which a pattern is cut where it stands for a parameter. -/
def patternLimit : Nat := 60

def compactText (source : ByteArray) (t : ParseTree) : String :=
  String.ofList (Text.compact patternLimit (t.text source).toList)

/-- How a binding is written: a plain name as it is, a rest pattern with three
dots before what it collects into, any other pattern compacted. -/
def bindingName (source : ByteArray) (t : ParseTree) : String :=
  if t.isPlainBinding then t.text source
  else if t.kind = "rest_pattern" then
    match _h : t.firstPlain? with
    | some inner => "..." ++ bindingName source inner
    | none => compactText source t
  else compactText source t
termination_by t.size
decreasing_by
  exact ParseTree.size_lt_of_mem_children (ParseTree.mem_children_of_firstPlain? _h)

/-! ## First layers -/

def paramOf (source : ByteArray) (t : ParseTree) : Param Operand :=
  match t.binding? with
  | some b => { name := bindingName source b, pattern := b.bindingPattern?.map .tree }
  | none => { name := "", pattern := none }

def defaultOf (source : ByteArray) (t : ParseTree) : Option (Default Operand) :=
  t.default?.map fun d => { node := .tree d, source := d.text source }

def isComputedName (t : ParseTree) : Bool := t.kind == "computed_property_name"

def functionOf (source : ByteArray) (t : ParseTree) : FunctionDef Operand where
  id := (t.field? .name).bind (ParseTree.identifier? source)
  decorators := (t.plainChildren.filter fun c => c.kind == "decorator").map .tree
  computedName := ((t.field? .name).filter isComputedName).map .tree
  params := t.formalParameters.map (paramOf source)
  defaults := t.formalParameters.map (defaultOf source)
  generator := t.isGenerator
  line := t.info.row + 1
  body := (t.field? .body).map .tree

/-- The name of a declarator that declares one plain identifier. -/
def declaredName? (source : ByteArray) (t : ParseTree) : Option String :=
  (t.field? .name).bind fun name =>
    if name.kind = "identifier" then name.identifier? source else none

def declaratorOf (source : ByteArray) (t : ParseTree) : Shape Operand :=
  .declarator (declaredName? source t)
    (if (declaredName? source t).isSome then none else (t.field? .name).map .tree)
    ((t.field? .value).map .tree)

def targetOf (source : ByteArray) (t : ParseTree) : Target Operand :=
  if t.unwrap.kind = "identifier" then
    match t.unwrap.identifier? source with
    | some name => .identifier name
    | none => .pattern (.tree t.unwrap)
  else if t.unwrap.kind = "member_expression" then
    .member (.ofOption (t.unwrap.field? .object))
      ((t.unwrap.field? .property).bind (ParseTree.identifier? source))
  else .pattern (.tree t.unwrap)

def assignmentOf (source : ByteArray) (t : ParseTree) : Shape Operand :=
  .assignment
    (match t.field? .left with
      | some left => targetOf source left
      | none => .pattern .absent)
    ((t.field? .right).map .tree)

def key? (t : ParseTree) : Option ParseTree :=
  (t.field? .key).or ((t.field? .property).or (t.field? .name))

def propertyOf (source : ByteArray) (t : ParseTree) : Shape Operand :=
  .property
    ((key? t).bind fun key => if isComputedName key then none else key.identifier? source)
    (((key? t).filter isComputedName).map .tree)
    ((t.field? .value).map .tree)

def otherOf (t : ParseTree) : Shape Operand :=
  .other t.kind (t.plainChildren.map .tree)

/-- A name with a default inside an object pattern; it names the default as a
property would. -/
def shorthandDefaultOf (source : ByteArray) (t : ParseTree) : Shape Operand :=
  match t.field? .left with
  | some left =>
      if left.kind = "shorthand_property_identifier_pattern" then
        .property (left.identifier? source) none ((t.field? .right).map .tree)
      else otherOf t
  | none => otherOf t

/-- The layer of a node that is not in parentheses. -/
def bareShapeOf (source : ByteArray) (t : ParseTree) : Shape Operand :=
  match Construct.ofKind t.kind with
  | .function => .function (functionOf source t)
  | .declarator => declaratorOf source t
  | .statement => .statement (t.firstPlain?.map .tree)
  | .assignment => assignmentOf source t
  | .property => propertyOf source t
  | .shorthandDefault => shorthandDefaultOf source t
  | .string => .literal (String.ofList (StringLiteral.value (t.text source).toList))
  | .plainLiteral => .literal (t.text source)
  | .other => otherOf t

/-- The first layer of a part. An absent part is an empty error. -/
def shapeOf (source : ByteArray) : Operand → Shape Operand
  | .absent => .other "ERROR" []
  | .tree t => bareShapeOf source t.unwrap

/-! ## Parts are smaller -/

def Below (t : ParseTree) (part : Operand) : Prop := part.size < t.size

theorem below_of_field? {t : ParseTree} {f : Field} {part : Operand}
    (h : (t.field? f).map Operand.tree = some part) : Below t part := by
  obtain ⟨c, hc, rfl⟩ := Option.map_eq_some_iff.mp h
  exact ParseTree.size_lt_of_mem_children (ParseTree.mem_children_of_field? hc)

theorem below_ofOption_field? {t u : ParseTree} {f : Field} (h : u.size < t.size) :
    Below t (.ofOption (u.field? f)) := by
  cases hf : u.field? f with
  | none => exact Nat.zero_lt_of_lt h
  | some c =>
      have := ParseTree.size_lt_of_mem_children (ParseTree.mem_children_of_field? hf)
      exact Nat.lt_trans this h

theorem all_otherOf (t : ParseTree) : (otherOf t).All (Below t) := by
  intro part hpart
  obtain ⟨c, hc, rfl⟩ := List.mem_map.mp hpart
  exact ParseTree.size_lt_of_mem_children (ParseTree.mem_children_of_mem_plainChildren hc)

theorem all_functionOf (source : ByteArray) (t : ParseTree) :
    (functionOf source t).All (Below t) := by
  refine ⟨?_, ?_, ?_, ?_, fun part h => below_of_field? h⟩
  · intro part hpart
    obtain ⟨c, hc, rfl⟩ := List.mem_map.mp hpart
    exact ParseTree.size_lt_of_mem_children
      (ParseTree.mem_children_of_mem_plainChildren (List.mem_filter.mp hc).1)
  · intro part hpart
    obtain ⟨c, hc, rfl⟩ := Option.map_eq_some_iff.mp hpart
    exact below_of_field? (congrArg (Option.map Operand.tree) (Option.filter_eq_some_iff.mp hc).1)
  · intro param hparam part hpart
    obtain ⟨p, hp, rfl⟩ := List.mem_map.mp hparam
    have hsize := ParseTree.size_lt_of_mem_formalParameters hp
    unfold paramOf at hpart
    split at hpart
    · rename_i b hb
      obtain ⟨c, hc, rfl⟩ := Option.map_eq_some_iff.mp hpart
      exact Nat.lt_of_le_of_lt (Nat.le_trans (ParseTree.size_bindingPattern?_le hc)
        (ParseTree.size_binding?_le hb)) hsize
    · cases hpart
  · intro value hvalue default hdefault
    obtain ⟨p, hp, rfl⟩ := List.mem_map.mp hvalue
    obtain ⟨d, hd, rfl⟩ := Option.map_eq_some_iff.mp hdefault
    exact Nat.lt_trans (ParseTree.size_default?_lt hd)
      (ParseTree.size_lt_of_mem_formalParameters hp)

theorem all_targetOf (source : ByteArray) {left t : ParseTree} (h : left.size < t.size) :
    (targetOf source left).All (Below t) := by
  have hunwrap := Nat.lt_of_le_of_lt left.size_unwrap_le h
  unfold targetOf
  split
  · split
    · trivial
    · exact hunwrap
  · split
    · exact below_ofOption_field? hunwrap
    · exact hunwrap

theorem all_assignmentOf (source : ByteArray) (t : ParseTree) :
    (assignmentOf source t).All (Below t) := by
  refine ⟨?_, fun part h => below_of_field? h⟩
  split
  · rename_i left hleft
    exact all_targetOf source
      (ParseTree.size_lt_of_mem_children (ParseTree.mem_children_of_field? hleft))
  · exact t.size_pos

theorem mem_children_of_key? {c t : ParseTree} (h : key? t = some c) : c ∈ t.children := by
  simp only [key?, Option.or_eq_some_iff] at h
  rcases h with h | ⟨_, h | ⟨_, h⟩⟩ <;> exact ParseTree.mem_children_of_field? h

theorem all_propertyOf (source : ByteArray) (t : ParseTree) :
    (propertyOf source t).All (Below t) := by
  refine ⟨?_, fun part h => below_of_field? h⟩
  intro part hpart
  obtain ⟨c, hc, rfl⟩ := Option.map_eq_some_iff.mp hpart
  have hkey := (Option.filter_eq_some_iff.mp hc).1
  exact ParseTree.size_lt_of_mem_children (mem_children_of_key? hkey)

theorem all_bareShapeOf (source : ByteArray) (t : ParseTree) :
    (bareShapeOf source t).All (Below t) := by
  unfold bareShapeOf
  split
  · exact all_functionOf source t
  · refine ⟨?_, fun part h => below_of_field? h⟩
    intro part hpart
    split at hpart
    · cases hpart
    · exact below_of_field? hpart
  · intro part hpart
    obtain ⟨c, hc, rfl⟩ := Option.map_eq_some_iff.mp hpart
    exact ParseTree.size_lt_of_mem_children (ParseTree.mem_children_of_firstPlain? hc)
  · exact all_assignmentOf source t
  · exact all_propertyOf source t
  · unfold shorthandDefaultOf
    split
    · split
      · exact ⟨fun part h => (by cases h), fun part h => below_of_field? h⟩
      · exact all_otherOf t
    · exact all_otherOf t
  · trivial
  · trivial
  · exact all_otherOf t

theorem all_shapeOf (source : ByteArray) (part : Operand) :
    (shapeOf source part).All fun inner => inner.size < part.size := by
  cases part with
  | absent => exact fun inner h => by cases h
  | tree t => exact (all_bareShapeOf source t.unwrap).imp fun _ h =>
      Nat.lt_of_lt_of_le h t.size_unwrap_le

/-! ## All layers -/

def ofOperand (source : ByteArray) : Operand → Code :=
  unfold (shapeOf source) Operand.size (all_shapeOf source)

def ofTree (source : ByteArray) (t : ParseTree) : Code := ofOperand source (.tree t)

theorem ofOperand_eq (source : ByteArray) (part : Operand) :
    ofOperand source part = node ((shapeOf source part).map (ofOperand source)) :=
  unfold_eq _ _ _ _

theorem ofTree_eq (source : ByteArray) (t : ParseTree) :
    ofTree source t = node ((bareShapeOf source t.unwrap).map (ofOperand source)) :=
  ofOperand_eq source (.tree t)

theorem children_ofTree (source : ByteArray) (t : ParseTree) :
    (ofTree source t).children =
      (bareShapeOf source t.unwrap).slots.map (ofOperand source) :=
  children_unfold _ _ _ _

/-- Parentheses around a single node leave no trace. -/
theorem ofTree_of_enclosed? (source : ByteArray) {inner t : ParseTree}
    (h : t.enclosed? = some inner) : ofTree source t = ofTree source inner := by
  rw [ofTree_eq, ofTree_eq, ParseTree.unwrap_of_enclosed? h]

end Code

end ScriptOutline
