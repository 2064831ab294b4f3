import ScriptOutline.ParseTree.Basic

/-!
# Constructs

The kinds of parse tree nodes that have a meaning for the outline, and the plain
names that nodes of a source give. The grammars of all dialects share these
kinds.
-/

namespace ScriptOutline

/-- What a kind of node stands for. Kinds that are listed nowhere are kept as
they are nested. -/
inductive Construct where
  | function | declarator | statement | assignment | property | shorthandDefault
  | string | plainLiteral | other
deriving DecidableEq, Repr

def Construct.ofKind : String → Construct
  | "function_declaration" | "function_expression" | "function"
  | "generator_function_declaration" | "generator_function" | "arrow_function"
  | "method_definition" => .function
  | "variable_declarator" => .declarator
  | "expression_statement" => .statement
  | "assignment_expression" | "augmented_assignment_expression" => .assignment
  | "pair" | "pair_pattern" | "field_definition" | "public_field_definition" => .property
  | "object_assignment_pattern" => .shorthandDefault
  | "string" => .string
  | "number" | "true" | "false" | "null" | "undefined" | "regex" => .plainLiteral
  | _ => .other

namespace ParseTree

def identifierKinds : List String :=
  ["identifier", "property_identifier", "private_property_identifier",
    "shorthand_property_identifier", "shorthand_property_identifier_pattern",
    "type_identifier"]

/-- The plain name that a node gives. Literals and computed names give none, nor
do missing nodes and nodes without text. -/
def identifier? (source : ByteArray) (t : ParseTree) : Option String :=
  if t.kind ∈ identifierKinds ∧ t.info.missing = false ∧ t.text source ≠ "" then
    some (t.text source)
  else none

theorem ne_empty_of_identifier? {source : ByteArray} {t : ParseTree} {name : String}
    (h : t.identifier? source = some name) : name ≠ "" := by
  unfold identifier? at h
  split at h
  · rename_i hcond
    cases h
    exact hcond.2.2
  · cases h

def isGenerator (t : ParseTree) : Bool :=
  t.kind == "generator_function_declaration" || t.kind == "generator_function" ||
    t.children.any fun c => !c.info.named && c.kind == "*"

/-! ## Formal parameters -/

/-- The formal parameters of a function: the entries of its list, or the single
parameter of an arrow function that has no list. -/
def formalParameters (t : ParseTree) : List ParseTree :=
  match t.field? .parameters with
  | some list => list.plainChildren
  | none => (t.field? .parameter).toList

def binding? (t : ParseTree) : Option ParseTree :=
  if t.kind = "assignment_pattern" then t.field? .left
  else if t.kind = "required_parameter" ∨ t.kind = "optional_parameter" then t.field? .pattern
  else some t

def default? (t : ParseTree) : Option ParseTree :=
  if t.kind = "assignment_pattern" then t.field? .right
  else if t.kind = "required_parameter" ∨ t.kind = "optional_parameter" then t.field? .value
  else none

/-- Whether a binding is a plain name, with nothing below it. -/
def isPlainBinding (t : ParseTree) : Bool := t.kind == "identifier" || t.kind == "this"

/-- The pattern of a binding that is no plain name. A rest pattern hands on to
what it collects into. -/
def bindingPattern? (t : ParseTree) : Option ParseTree :=
  if t.isPlainBinding then none
  else if t.kind = "rest_pattern" then
    match _h : t.firstPlain? with
    | some inner => inner.bindingPattern?
    | none => none
  else some t
termination_by t.size
decreasing_by exact size_lt_of_mem_children (mem_children_of_firstPlain? _h)

theorem bindingPattern?_of_rest {t : ParseTree} (h : t.kind = "rest_pattern") :
    t.bindingPattern? = t.firstPlain?.bind bindingPattern? := by
  have hplain : t.isPlainBinding = false := by simp [isPlainBinding, h]
  rw [bindingPattern?, hplain, if_neg Bool.false_ne_true, if_pos h]
  cases t.firstPlain? <;> rfl

/-! ## Parts are smaller -/

theorem size_bindingPattern?_le {p t : ParseTree} (h : t.bindingPattern? = some p) :
    p.size ≤ t.size := by
  fun_induction bindingPattern? t with
  | case1 => cases h
  | case2 t _ _ inner hinner ih =>
      have := size_lt_of_mem_children (mem_children_of_firstPlain? hinner)
      have := ih h
      omega
  | case3 => cases h
  | case4 => cases h; exact Nat.le_refl _

theorem size_binding?_le {b t : ParseTree} (h : t.binding? = some b) : b.size ≤ t.size := by
  unfold binding? at h
  split at h
  · exact Nat.le_of_lt (size_lt_of_mem_children (mem_children_of_field? h))
  · split at h
    · exact Nat.le_of_lt (size_lt_of_mem_children (mem_children_of_field? h))
    · cases h; exact Nat.le_refl _

theorem size_default?_lt {d t : ParseTree} (h : t.default? = some d) : d.size < t.size := by
  unfold default? at h
  split at h
  · exact size_lt_of_mem_children (mem_children_of_field? h)
  · split at h
    · exact size_lt_of_mem_children (mem_children_of_field? h)
    · cases h

theorem size_lt_of_mem_formalParameters {p t : ParseTree} (h : p ∈ t.formalParameters) :
    p.size < t.size := by
  unfold formalParameters at h
  split at h
  · rename_i list hlist
    have hp := size_lt_of_mem_children (mem_children_of_mem_plainChildren h)
    have hl := size_lt_of_mem_children (mem_children_of_field? hlist)
    omega
  · rw [Option.mem_toList] at h
    exact size_lt_of_mem_children (mem_children_of_field? h)

end ParseTree

end ScriptOutline
