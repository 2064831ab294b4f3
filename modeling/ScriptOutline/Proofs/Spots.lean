import Mathlib.Data.List.Basic
import ScriptOutline.Code.Construct
import ScriptOutline.Proofs.Address

/-!
# Spots in a parse tree

A spot is a node of a tree together with the way to it: its address and the nodes
above it. The functions that look for children of a node look for the same children
of a spot, so that it stays known where a node was found.
-/

namespace ScriptOutline

structure Spot where
  address : Address
  /-- The nodes around the node, the nearest first. -/
  above : List ParseTree
  node : ParseTree

namespace Spot

def root (t : ParseTree) : Spot := ⟨[], [], t⟩

def child (p : Spot) (part : ParseTree × Nat) : Spot where
  address := p.address ++ [part.2]
  above := p.node :: p.above
  node := part.1

def children (p : Spot) : List Spot := p.node.children.zipIdx.map p.child

@[simp] theorem map_node_children (p : Spot) : p.children.map node = p.node.children := by
  rw [children, List.map_map]
  exact List.zipIdx_map_fst 0 _

theorem size_lt_of_mem_children {c p : Spot} (h : c ∈ p.children) :
    c.node.size < p.node.size := by
  obtain ⟨part, hpart, rfl⟩ := List.mem_map.mp h
  exact ParseTree.size_lt_of_mem_children (List.fst_mem_of_mem_zipIdx hpart)

theorem above_of_mem_children {c p : Spot} (h : c ∈ p.children) :
    c.above = p.node :: p.above := by
  obtain ⟨part, -, rfl⟩ := List.mem_map.mp h
  rfl

theorem address_of_mem_children {c p : Spot} (h : c ∈ p.children) :
    ∃ i, c.address = p.address ++ [i] := by
  obtain ⟨part, -, rfl⟩ := List.mem_map.mp h
  exact ⟨part.2, rfl⟩

theorem pairwise_children {R : Nat → Nat → Prop} (hR : ∀ i j, i < j → R i j) (p : Spot) :
    p.children.Pairwise fun a b => Address.Fork R a.address b.address := by
  rw [children, List.pairwise_map]
  exact (Address.pairwise_snd_lt_zipIdx p.node.children).imp fun hlt =>
    Address.fork_append_singleton (hR _ _ hlt)

/-! ## Children with a part to play -/

def field? (p : Spot) (f : Field) : Option Spot :=
  p.children.find? fun c => c.node.info.fields.contains f

def plainChildren (p : Spot) : List Spot :=
  p.children.filter fun c => c.node.info.named && !c.node.info.extra

def firstPlain? (p : Spot) : Option Spot := p.plainChildren.head?

theorem map_node_field? (p : Spot) (f : Field) : (p.field? f).map node = p.node.field? f := by
  rw [ParseTree.field?, ← map_node_children, List.find?_map]
  rfl

theorem map_node_plainChildren (p : Spot) :
    p.plainChildren.map node = p.node.plainChildren := by
  rw [ParseTree.plainChildren, ← map_node_children, List.filter_map]
  rfl

theorem map_node_firstPlain? (p : Spot) : p.firstPlain?.map node = p.node.firstPlain? := by
  rw [ParseTree.firstPlain?, ← map_node_plainChildren, List.head?_map]
  rfl

theorem mem_children_of_field? {c p : Spot} {f : Field} (h : p.field? f = some c) :
    c ∈ p.children :=
  List.mem_of_find?_eq_some h

theorem mem_children_of_mem_plainChildren {c p : Spot} (h : c ∈ p.plainChildren) :
    c ∈ p.children :=
  (List.mem_filter.mp h).1

theorem mem_children_of_firstPlain? {c p : Spot} (h : p.firstPlain? = some c) :
    c ∈ p.children :=
  mem_children_of_mem_plainChildren (List.mem_of_head? h)

def key? (p : Spot) : Option Spot :=
  (p.field? .key).or ((p.field? .property).or (p.field? .name))

theorem mem_children_of_key? {c p : Spot} (h : p.key? = some c) : c ∈ p.children := by
  simp only [key?, Option.or_eq_some_iff] at h
  rcases h with h | ⟨-, h | ⟨-, h⟩⟩ <;> exact mem_children_of_field? h

/-! ## Parentheses -/

def onlyPlain? (p : Spot) : Option Spot :=
  match p.plainChildren with
  | [c] => some c
  | _ => none

def enclosed? (p : Spot) : Option Spot :=
  if p.node.kind = "parenthesized_expression" then p.onlyPlain? else none

theorem map_node_onlyPlain? (p : Spot) : p.onlyPlain?.map node = p.node.onlyPlain? := by
  rw [ParseTree.onlyPlain?, ← map_node_plainChildren, onlyPlain?]
  match p.plainChildren with
  | [] => rfl
  | [_] => rfl
  | _ :: _ :: _ => rfl

theorem map_node_enclosed? (p : Spot) : p.enclosed?.map node = p.node.enclosed? := by
  rw [ParseTree.enclosed?, ← map_node_onlyPlain?, enclosed?]
  split <;> rfl

theorem plainChildren_of_onlyPlain? {c p : Spot} (h : p.onlyPlain? = some c) :
    p.plainChildren = [c] := by
  unfold onlyPlain? at h
  split at h
  · rename_i only heq
    rw [heq, Option.some.inj h]
  · cases h

theorem enclosed?_eq_some_iff {c p : Spot} :
    p.enclosed? = some c ↔ p.node.kind = "parenthesized_expression" ∧ p.onlyPlain? = some c := by
  unfold enclosed?
  split
  · rename_i hkind
    simp [hkind]
  · rename_i hkind
    simp [hkind]

theorem mem_children_of_enclosed? {c p : Spot} (h : p.enclosed? = some c) :
    c ∈ p.children := by
  have honly := plainChildren_of_onlyPlain? (enclosed?_eq_some_iff.mp h).2
  exact mem_children_of_mem_plainChildren (honly ▸ List.mem_singleton_self c)

def unwrap (p : Spot) : Spot :=
  match _h : p.enclosed? with
  | some inner => inner.unwrap
  | none => p
termination_by p.node.size
decreasing_by exact size_lt_of_mem_children (mem_children_of_enclosed? _h)

theorem node_unwrap (p : Spot) : p.unwrap.node = p.node.unwrap := by
  fun_induction unwrap p with
  | case1 p inner h ih =>
      have henclosed := map_node_enclosed? p
      rw [h, Option.map_some] at henclosed
      rw [ih, ParseTree.unwrap_of_enclosed? henclosed.symm]
  | case2 p h =>
      have henclosed := map_node_enclosed? p
      rw [h, Option.map_none] at henclosed
      rw [ParseTree.unwrap_of_enclosed?_eq_none henclosed.symm]

/-! ## Formal parameters -/

def formalParameters (p : Spot) : List Spot :=
  match p.field? .parameters with
  | some list => list.plainChildren
  | none => (p.field? .parameter).toList

def binding? (p : Spot) : Option Spot :=
  if p.node.kind = "assignment_pattern" then p.field? .left
  else if p.node.kind = "required_parameter" ∨ p.node.kind = "optional_parameter" then
    p.field? .pattern
  else some p

def default? (p : Spot) : Option Spot :=
  if p.node.kind = "assignment_pattern" then p.field? .right
  else if p.node.kind = "required_parameter" ∨ p.node.kind = "optional_parameter" then
    p.field? .value
  else none

def bindingPattern? (p : Spot) : Option Spot :=
  if p.node.isPlainBinding then none
  else if p.node.kind = "rest_pattern" then
    match _h : p.firstPlain? with
    | some inner => inner.bindingPattern?
    | none => none
  else some p
termination_by p.node.size
decreasing_by exact size_lt_of_mem_children (mem_children_of_firstPlain? _h)

theorem bindingPattern?_of_rest {p : Spot} (h : p.node.kind = "rest_pattern") :
    p.bindingPattern? = p.firstPlain?.bind bindingPattern? := by
  have hplain : p.node.isPlainBinding = false := by simp [ParseTree.isPlainBinding, h]
  rw [bindingPattern?, hplain, if_neg Bool.false_ne_true, if_pos h]
  cases p.firstPlain? <;> rfl

theorem map_node_formalParameters (p : Spot) :
    p.formalParameters.map node = p.node.formalParameters := by
  rw [ParseTree.formalParameters, ← map_node_field? p .parameters, formalParameters]
  cases p.field? .parameters with
  | some list => exact map_node_plainChildren list
  | none =>
      simp only [Option.map_none]
      rw [← map_node_field?]
      cases p.field? .parameter <;> rfl

theorem map_node_binding? (p : Spot) : p.binding?.map node = p.node.binding? := by
  rw [ParseTree.binding?, binding?, ← map_node_field?, ← map_node_field?]
  split
  · rfl
  · split <;> rfl

theorem map_node_default? (p : Spot) : p.default?.map node = p.node.default? := by
  rw [ParseTree.default?, default?, ← map_node_field?, ← map_node_field?]
  split
  · rfl
  · split <;> rfl

theorem map_node_bindingPattern? (p : Spot) :
    p.bindingPattern?.map node = p.node.bindingPattern? := by
  fun_induction bindingPattern? p with
  | case1 p hplain => rw [ParseTree.bindingPattern?, if_pos hplain]; rfl
  | case2 p hplain hrest inner hinner ih =>
      rw [ih, ParseTree.bindingPattern?_of_rest hrest, ← map_node_firstPlain?, hinner]
      rfl
  | case3 p hplain hrest hnone =>
      rw [ParseTree.bindingPattern?_of_rest hrest, ← map_node_firstPlain?, hnone]
      rfl
  | case4 p hplain hrest =>
      rw [ParseTree.bindingPattern?, if_neg hplain, if_neg hrest]
      rfl

end Spot

end ScriptOutline
