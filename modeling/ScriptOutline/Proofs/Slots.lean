import ScriptOutline.Outline.Source
import ScriptOutline.Proofs.Descent

/-!
# The slots of a spot

Which spots below a spot the parts of its first layer come from, in the order of the
parts. Between a spot and its slots stand only nodes that leave no layer of their
own: lists of parameters, entries in them, rest patterns, parentheses and members
that are assigned to.
-/

namespace ScriptOutline

/-! ## Operands that are trees -/

def Operand.tree? : Operand → Option ParseTree
  | absent => none
  | tree t => some t

theorem Operand.filterMap_tree?_map_tree (trees : List ParseTree) :
    (trees.map tree).filterMap tree? = trees := by
  rw [List.filterMap_map]
  exact List.filterMap_some

namespace Spot

/-! ## Slots -/

def parameterSlots (p : Spot) : List Spot :=
  (p.binding?.bind bindingPattern?).toList ++ p.default?.toList

def targetSlots (source : ByteArray) (p : Spot) : List Spot :=
  if p.unwrap.node.kind = "identifier" then
    if (p.unwrap.node.identifier? source).isSome then [] else [p.unwrap]
  else if p.unwrap.node.kind = "member_expression" then (p.unwrap.field? .object).toList
  else [p.unwrap]

def functionSlots (p : Spot) : List Spot :=
  (p.plainChildren.filter fun c => c.node.kind == "decorator") ++
    (((p.field? .name).filter fun c => Code.isComputedName c.node).toList ++
      (p.formalParameters.flatMap parameterSlots ++ (p.field? .body).toList))

def declaratorSlots (source : ByteArray) (p : Spot) : List Spot :=
  (if (Code.declaredName? source p.node).isSome then none else p.field? .name).toList ++
    (p.field? .value).toList

def assignmentSlots (source : ByteArray) (p : Spot) : List Spot :=
  (p.field? .left).toList.flatMap (targetSlots source) ++ (p.field? .right).toList

def propertySlots (p : Spot) : List Spot :=
  (p.key?.filter fun c => Code.isComputedName c.node).toList ++ (p.field? .value).toList

/-- Whether the left side of a default in an object pattern is a plain name. -/
def isShorthand (p : Spot) : Bool :=
  (p.node.field? .left).any fun left => left.kind == "shorthand_property_identifier_pattern"

/-- The spots that the parts of the first layer come from. Parentheses around a
single node have that node for their slot. -/
def slots (source : ByteArray) (p : Spot) : List Spot :=
  match Construct.ofKind p.node.kind with
  | .function => p.functionSlots
  | .declarator => p.declaratorSlots source
  | .statement => p.firstPlain?.toList
  | .assignment => p.assignmentSlots source
  | .property => p.propertySlots
  | .shorthandDefault =>
      if p.isShorthand then (p.field? .right).toList else p.plainChildren
  | .string | .plainLiteral => []
  | .other => p.plainChildren

/-! ## Slots and parts -/

theorem map_node_toList (part : Option Spot) : part.toList.map node = (part.map node).toList :=
  Option.toList_map.symm

theorem trees_toList_map (part : Option ParseTree) :
    (part.map Operand.tree).toList.filterMap Operand.tree? = part.toList := by
  cases part <;> rfl

theorem map_node_parameterSlots (p : Spot) :
    p.parameterSlots.map node =
      (p.node.binding?.bind ParseTree.bindingPattern?).toList ++ p.node.default?.toList := by
  rw [parameterSlots, List.map_append, map_node_toList, map_node_toList, map_node_default?,
    ← map_node_binding?]
  cases p.binding? with
  | none => rfl
  | some b => simp [map_node_bindingPattern?]

theorem trees_paramSlots (source : ByteArray) (entries : List ParseTree) :
    (Code.paramSlots (entries.map (Code.paramOf source))
        (entries.map (Code.defaultOf source))).filterMap Operand.tree? =
      entries.flatMap fun e =>
        (e.binding?.bind ParseTree.bindingPattern?).toList ++ e.default?.toList := by
  induction entries with
  | nil => rfl
  | cons e rest ih =>
      have hpattern : (Code.paramOf source e).pattern =
          (e.binding?.bind ParseTree.bindingPattern?).map Operand.tree := by
        rw [Code.paramOf]
        cases e.binding? <;> rfl
      have hdefault : (Code.defaultOf source e).map Code.Default.node =
          e.default?.map Operand.tree := by
        rw [Code.defaultOf, Option.map_map]
        rfl
      rw [List.map_cons, List.map_cons, Code.paramSlots, hpattern, hdefault,
        List.filterMap_append, List.filterMap_append, trees_toList_map, trees_toList_map, ih,
        List.flatMap_cons, List.append_assoc]

theorem map_node_filter_kind (p : Spot) (kind : String) :
    (p.plainChildren.filter fun c => c.node.kind == kind).map node =
      p.node.plainChildren.filter fun c => c.kind == kind := by
  rw [← map_node_plainChildren, List.filter_map]
  rfl

theorem map_node_filter_isComputedName (part : Option Spot) :
    (part.filter fun c => Code.isComputedName c.node).map node =
      (part.map node).filter Code.isComputedName := by
  cases part with
  | none => rfl
  | some c => cases h : Code.isComputedName c.node <;> simp [Option.filter, h]

theorem map_node_functionSlots (source : ByteArray) (p : Spot) :
    p.functionSlots.map node =
      (Code.functionOf source p.node).slots.filterMap Operand.tree? := by
  rw [functionSlots, Code.FunctionDef.slots, Code.functionOf]
  simp only [List.map_append, List.filterMap_append, map_node_filter_kind, map_node_toList,
    map_node_filter_isComputedName, map_node_field?, Operand.filterMap_tree?_map_tree,
    trees_toList_map, trees_paramSlots, List.map_flatMap, map_node_parameterSlots]
  rw [← map_node_formalParameters, List.flatMap_map]

theorem map_node_targetSlots (source : ByteArray) (p : Spot) :
    (p.targetSlots source).map node =
      (Code.targetOf source p.node).slots.filterMap Operand.tree? := by
  have hobject : (p.unwrap.field? .object).map node = p.node.unwrap.field? .object := by
    rw [map_node_field?, node_unwrap]
  rw [targetSlots, Code.targetOf, node_unwrap]
  split
  · cases p.node.unwrap.identifier? source with
    | some name => rfl
    | none => simp [Code.Target.slots, Operand.tree?, node_unwrap]
  · split
    · rw [map_node_toList, hobject]
      cases p.node.unwrap.field? .object <;> rfl
    · simp [Code.Target.slots, Operand.tree?, node_unwrap]

theorem map_node_assignmentSlots (source : ByteArray) (p : Spot) :
    (p.assignmentSlots source).map node =
      (Code.assignmentOf source p.node).slots.filterMap Operand.tree? := by
  rw [assignmentSlots, Code.assignmentOf, Code.Shape.slots, List.map_append,
    List.filterMap_append, map_node_toList, map_node_field?, trees_toList_map,
    ← map_node_field? p .left]
  cases p.field? .left with
  | some left => simp [map_node_targetSlots]
  | none => rfl

theorem map_node_key? (p : Spot) : p.key?.map node = Code.key? p.node := by
  rw [Code.key?, ← map_node_field?, ← map_node_field?, ← map_node_field?, key?, Option.map_or,
    Option.map_or]

theorem map_node_propertySlots (source : ByteArray) (p : Spot) :
    p.propertySlots.map node =
      (Code.propertyOf source p.node).slots.filterMap Operand.tree? := by
  rw [propertySlots, Code.propertyOf, Code.Shape.slots, List.map_append, List.filterMap_append,
    map_node_toList, map_node_toList, map_node_filter_isComputedName, map_node_key?,
    map_node_field?, trees_toList_map, trees_toList_map]

theorem map_node_declaratorSlots (source : ByteArray) (p : Spot) :
    (p.declaratorSlots source).map node =
      (Code.declaratorOf source p.node).slots.filterMap Operand.tree? := by
  rw [declaratorSlots, Code.declaratorOf, Code.Shape.slots, List.map_append,
    List.filterMap_append, map_node_toList, map_node_toList, map_node_field?, trees_toList_map]
  split
  · rfl
  · rw [map_node_field?, trees_toList_map]

theorem map_node_otherSlots (p : Spot) :
    p.plainChildren.map node = (Code.otherOf p.node).slots.filterMap Operand.tree? := by
  rw [Code.otherOf, Code.Shape.slots, Operand.filterMap_tree?_map_tree, map_node_plainChildren]

theorem map_node_shorthandSlots (source : ByteArray) (p : Spot) :
    (if p.isShorthand then (p.field? .right).toList else p.plainChildren).map node =
      (Code.shorthandDefaultOf source p.node).slots.filterMap Operand.tree? := by
  rw [isShorthand, Code.shorthandDefaultOf]
  cases p.node.field? .left with
  | none => exact p.map_node_otherSlots
  | some left =>
      rw [Option.any_some]
      by_cases hkind : left.kind = "shorthand_property_identifier_pattern"
      · rw [if_pos (beq_iff_eq.mpr hkind), map_node_toList, map_node_field?]
        dsimp only
        rw [if_pos hkind, Code.Shape.slots, Option.toList_none, List.nil_append, trees_toList_map]
      · rw [if_neg fun h => hkind (beq_iff_eq.mp h)]
        dsimp only
        rw [if_neg hkind]
        exact p.map_node_otherSlots

/-- The slots of a spot are the trees among the parts of its first layer. -/
theorem map_node_slots (source : ByteArray) (p : Spot) :
    (p.slots source).map node =
      (Code.bareShapeOf source p.node).slots.filterMap Operand.tree? := by
  rw [slots, Code.bareShapeOf]
  cases Construct.ofKind p.node.kind with
  | function => exact p.map_node_functionSlots source
  | declarator => exact p.map_node_declaratorSlots source
  | statement =>
      simp only [Code.Shape.slots]
      rw [map_node_toList, map_node_firstPlain?, trees_toList_map]
  | assignment => exact p.map_node_assignmentSlots source
  | property => exact p.map_node_propertySlots source
  | shorthandDefault => exact p.map_node_shorthandSlots source
  | string => rfl
  | plainLiteral => rfl
  | other => exact p.map_node_otherSlots

/-! ## What lies between a spot and its slots -/

/-- Kinds of nodes that leave no layer where they stand between a spot and a slot. -/
def passedKinds : List String :=
  ["assignment_pattern", "required_parameter", "optional_parameter", "rest_pattern",
    "parenthesized_expression", "member_expression"]

/-- Whether a node below another stands between that one and its slots: the list of
parameters, or a node of a kind that leaves no layer. -/
def Passed (t m : ParseTree) : Prop := t.field? .parameters = some m ∨ m.kind ∈ passedKinds

section Closed

variable {S : Spot → Prop} {c p : Spot}
  (hstep : ∀ q d : Spot, S q → q.node.kind ∈ passedKinds → d ∈ q.children → S d)
include hstep

theorem unwrap_closed (hp : S p) : S p.unwrap := by
  fun_induction unwrap p with
  | case1 p inner h ih =>
      have hkind := (enclosed?_eq_some_iff.mp h).1
      exact ih (hstep p inner hp (by simp [hkind, passedKinds]) (mem_children_of_enclosed? h))
  | case2 p h => exact hp

theorem bindingPattern?_closed (hp : S p) (hc : p.bindingPattern? = some c) : S c := by
  fun_induction bindingPattern? p with
  | case1 p hplain => cases hc
  | case2 p hplain hrest inner hinner ih =>
      exact ih (hstep p inner hp (by simp [hrest, passedKinds])
        (mem_children_of_firstPlain? hinner)) hc
  | case3 p hplain hrest hnone => cases hc
  | case4 p hplain hrest => exact Option.some.inj hc ▸ hp

theorem binding?_closed (hp : S p) (hc : p.binding? = some c) : S c := by
  unfold binding? at hc
  by_cases hdefault : p.node.kind = "assignment_pattern"
  · rw [if_pos hdefault] at hc
    exact hstep p c hp (by simp [hdefault, passedKinds]) (mem_children_of_field? hc)
  · rw [if_neg hdefault] at hc
    by_cases htyped : p.node.kind = "required_parameter" ∨ p.node.kind = "optional_parameter"
    · rw [if_pos htyped] at hc
      have hkind : p.node.kind ∈ passedKinds := by
        rcases htyped with htyped | htyped <;> simp [htyped, passedKinds]
      exact hstep p c hp hkind (mem_children_of_field? hc)
    · rw [if_neg htyped] at hc
      exact Option.some.inj hc ▸ hp

theorem default?_closed (hp : S p) (hc : p.default? = some c) : S c := by
  unfold default? at hc
  by_cases hdefault : p.node.kind = "assignment_pattern"
  · rw [if_pos hdefault] at hc
    exact hstep p c hp (by simp [hdefault, passedKinds]) (mem_children_of_field? hc)
  · rw [if_neg hdefault] at hc
    by_cases htyped : p.node.kind = "required_parameter" ∨ p.node.kind = "optional_parameter"
    · rw [if_pos htyped] at hc
      have hkind : p.node.kind ∈ passedKinds := by
        rcases htyped with htyped | htyped <;> simp [htyped, passedKinds]
      exact hstep p c hp hkind (mem_children_of_field? hc)
    · rw [if_neg htyped] at hc
      cases hc

theorem parameterSlots_closed (hp : S p) (hc : c ∈ p.parameterSlots) : S c := by
  rcases List.mem_append.mp hc with hc | hc
  · rw [Option.mem_toList] at hc
    obtain ⟨b, hb, hc⟩ := Option.bind_eq_some_iff.mp hc
    exact bindingPattern?_closed hstep (binding?_closed hstep hp hb) hc
  · exact default?_closed hstep hp (Option.mem_toList.mp hc)

theorem targetSlots_closed {source : ByteArray} (hp : S p) (hc : c ∈ p.targetSlots source) :
    S c := by
  have hunwrap := unwrap_closed hstep hp
  unfold targetSlots at hc
  split at hc
  · split at hc
    · cases hc
    · exact List.mem_singleton.mp hc ▸ hunwrap
  · split at hc
    · rename_i hkind
      exact hstep p.unwrap c hunwrap (by simp [hkind, passedKinds])
        (mem_children_of_field? (Option.mem_toList.mp hc))
    · exact List.mem_singleton.mp hc ▸ hunwrap

end Closed

theorem below_of_mem_formalParameters {c p : Spot} (h : c ∈ p.formalParameters) :
    Below (Passed p.node) p c := by
  unfold formalParameters at h
  split at h
  · rename_i list hlist
    have hpassed : Passed p.node list.node := by
      left
      rw [← map_node_field?, hlist]
      rfl
    exact .step (.child (mem_children_of_field? hlist)) hpassed
      (mem_children_of_mem_plainChildren h)
  · exact .child (mem_children_of_field? (Option.mem_toList.mp h))

theorem below_of_mem_slots {source : ByteArray} {c p : Spot} (h : c ∈ p.slots source) :
    Below (Passed p.node) p c := by
  have hstep : ∀ q d : Spot, Below (Passed p.node) p q → q.node.kind ∈ passedKinds →
      d ∈ q.children → Below (Passed p.node) p d :=
    fun q d hq hkind hd => .step hq (.inr hkind) hd
  have hfield {f : Field} (hc : c ∈ (p.field? f).toList) : Below (Passed p.node) p c :=
    .child (mem_children_of_field? (Option.mem_toList.mp hc))
  have hplain (hc : c ∈ p.plainChildren) : Below (Passed p.node) p c :=
    .child (mem_children_of_mem_plainChildren hc)
  unfold slots at h
  split at h
  · simp only [functionSlots, List.mem_append, List.mem_flatMap, Option.mem_toList,
      Option.filter_eq_some_iff] at h
    rcases h with h | h | ⟨e, he, hc⟩ | h
    · exact hplain (List.mem_filter.mp h).1
    · exact .child (mem_children_of_field? h.1)
    · exact parameterSlots_closed hstep (below_of_mem_formalParameters he) hc
    · exact .child (mem_children_of_field? h)
  · rcases List.mem_append.mp h with h | h
    · split at h
      · cases h
      · exact hfield h
    · exact hfield h
  · exact .child (mem_children_of_firstPlain? (Option.mem_toList.mp h))
  · rcases List.mem_append.mp h with h | h
    · obtain ⟨left, hleft, hc⟩ := List.mem_flatMap.mp h
      exact targetSlots_closed hstep
        (.child (mem_children_of_field? (Option.mem_toList.mp hleft))) hc
    · exact hfield h
  · rcases List.mem_append.mp h with h | h
    · rw [Option.mem_toList, Option.filter_eq_some_iff] at h
      exact .child (mem_children_of_key? h.1)
    · exact hfield h
  · split at h
    · exact hfield h
    · exact hplain h
  · cases h
  · cases h
  · exact hplain h

end Spot

end ScriptOutline
