import Mathlib.Data.List.Nodup
import ScriptOutline.Proofs.Slots

/-!
# How the nodes of a tree are read

The code of a tree is made from some of its nodes, each read in a role: most as
expressions, some as what an assignment writes to, others as names or as parts of a list
of formal parameters. A node that fills several places of the node above it is read
several times.
-/

namespace ScriptOutline

inductive Role where
  | expression
  /-- What an assignment writes to. -/
  | target
  /-- A name, which may be computed. -/
  | name
  /-- A list of formal parameters. -/
  | parameters
  | parameter
  /-- What a formal parameter binds. -/
  | binding
deriving DecidableEq, Repr

structure Reading where
  role : Role
  spot : Spot

def Spot.readAs (role : Role) (p : Spot) : Reading := ⟨role, p⟩

namespace Spot

/-! ## One step -/

/-- The list of formal parameters of a function, or its single parameter. -/
def formalReadings (p : Spot) : List Reading :=
  match p.field? .parameters with
  | some list => [list.readAs .parameters]
  | none => ((p.field? .parameter).map (readAs .parameter)).toList

/-- The plain children but for the one in the field on the left, whose kind is looked at
too. -/
def plainChildrenBesideLeft (p : Spot) : List Spot :=
  p.plainChildren.filter fun c => (p.field? .left).all fun left => left.address != c.address

/-- What is read below a node that makes a layer of code. -/
def codeReadings (p : Spot) : List Reading :=
  match Construct.ofKind p.node.kind with
  | .function =>
      (p.plainChildren.filter fun c => c.node.kind == "decorator").map (readAs .expression) ++
        (((p.field? .name).map (readAs .name)).toList ++
          (p.formalReadings ++ ((p.field? .body).map (readAs .expression)).toList))
  | .declarator =>
      ((p.field? .name).map (readAs .name)).toList ++
        ((p.field? .value).map (readAs .expression)).toList
  | .statement => (p.firstPlain?.map (readAs .expression)).toList
  | .assignment =>
      ((p.field? .left).map (readAs .target)).toList ++
        ((p.field? .right).map (readAs .expression)).toList
  | .property =>
      (p.key?.map (readAs .name)).toList ++ ((p.field? .value).map (readAs .expression)).toList
  | .shorthandDefault =>
      ((p.field? .left).map (readAs .name)).toList ++
        if p.isShorthand then ((p.field? .right).map (readAs .expression)).toList
        else p.plainChildrenBesideLeft.map (readAs .expression)
  | .string | .plainLiteral => []
  | .other => p.plainChildren.map (readAs .expression)

def targetReadings (p : Spot) : List Reading :=
  match p.enclosed? with
  | some inner => [inner.readAs .target]
  | none =>
      if p.node.kind = "member_expression" then
        ((p.field? .object).map (readAs .expression)).toList ++
          ((p.field? .property).map (readAs .name)).toList
      else p.codeReadings

def bindingReadings (p : Spot) : List Reading :=
  if p.node.isPlainBinding then []
  else if p.node.kind = "rest_pattern" then (p.firstPlain?.map (readAs .binding)).toList
  else p.codeReadings

def parameterReadings (p : Spot) : List Reading :=
  if p.node.kind = "assignment_pattern" then
    ((p.field? .left).map (readAs .binding)).toList ++
      ((p.field? .right).map (readAs .expression)).toList
  else if p.node.kind = "required_parameter" ∨ p.node.kind = "optional_parameter" then
    ((p.field? .pattern).map (readAs .binding)).toList ++
      ((p.field? .value).map (readAs .expression)).toList
  else p.bindingReadings

end Spot

namespace Reading

def next (x : Reading) : List Reading :=
  match x.role with
  | .expression | .name => x.spot.codeReadings
  | .target => x.spot.targetReadings
  | .parameters => x.spot.plainChildren.map (Spot.readAs .parameter)
  | .parameter => x.spot.parameterReadings
  | .binding => x.spot.bindingReadings

end Reading

/-! ## Children are read -/

namespace Spot

theorem eq_of_mem_within {c d q : Spot} (hc : c ∈ q.within) (hd : d ∈ q.within)
    (h : c.address = d.address) : c = d := by
  have hnodup : (q.within.map address).Nodup := by
    rw [List.Nodup, List.pairwise_map]
    apply (pairwise_lt_within q).imp
    intro a b hlt heq
    rw [heq] at hlt
    exact List.lt_irrefl b.address hlt
  exact List.inj_on_of_nodup_map hnodup hc hd h

theorem eq_of_mem_children {c d q : Spot} (hc : c ∈ q.children) (hd : d ∈ q.children)
    (h : c.address = d.address) : c = d :=
  eq_of_mem_within (mem_within_of_mem_children (self_mem_within q) hc)
    (mem_within_of_mem_children (self_mem_within q) hd) h

variable {p : Spot} {x : Reading}

theorem spot_of_mem_toList {role : Role} {part : Option Spot}
    (h : x ∈ (part.map (readAs role)).toList) : part = some x.spot := by
  rw [Option.mem_toList] at h
  obtain ⟨c, hc, rfl⟩ := Option.map_eq_some_iff.mp h
  exact hc

theorem mem_children_of_mem_map_readAs {role : Role} {parts : List Spot}
    (hparts : ∀ c ∈ parts, c ∈ p.children) (h : x ∈ parts.map (readAs role)) :
    x.spot ∈ p.children := by
  obtain ⟨c, hc, rfl⟩ := List.mem_map.mp h
  exact hparts c hc

theorem mem_children_of_mem_formalReadings (h : x ∈ p.formalReadings) :
    x.spot ∈ p.children := by
  unfold formalReadings at h
  split at h
  · rename_i list hlist
    rw [List.mem_singleton.mp h]
    exact mem_children_of_field? hlist
  · exact mem_children_of_field? (spot_of_mem_toList h)

theorem mem_children_of_mem_codeReadings (h : x ∈ p.codeReadings) : x.spot ∈ p.children := by
  have hfield {role : Role} {f : Field} (h : x ∈ ((p.field? f).map (readAs role)).toList) :
      x.spot ∈ p.children :=
    mem_children_of_field? (spot_of_mem_toList h)
  have hplain {role : Role} (h : x ∈ p.plainChildren.map (readAs role)) : x.spot ∈ p.children :=
    mem_children_of_mem_map_readAs (fun _ => mem_children_of_mem_plainChildren) h
  unfold codeReadings at h
  split at h
  · simp only [List.mem_append] at h
    rcases h with h | h | h | h
    · exact mem_children_of_mem_map_readAs
        (fun c hc => mem_children_of_mem_plainChildren (List.mem_filter.mp hc).1) h
    · exact hfield h
    · exact mem_children_of_mem_formalReadings h
    · exact hfield h
  · exact (List.mem_append.mp h).elim hfield hfield
  · exact mem_children_of_firstPlain? (spot_of_mem_toList h)
  · exact (List.mem_append.mp h).elim hfield hfield
  · rcases List.mem_append.mp h with h | h
    · exact mem_children_of_key? (spot_of_mem_toList h)
    · exact hfield h
  · rcases List.mem_append.mp h with h | h
    · exact hfield h
    · split at h
      · exact hfield h
      · exact mem_children_of_mem_map_readAs
          (fun c hc => mem_children_of_mem_plainChildren (List.mem_filter.mp hc).1) h
  · cases h
  · cases h
  · exact hplain h

theorem mem_children_of_mem_targetReadings (h : x ∈ p.targetReadings) : x.spot ∈ p.children := by
  unfold targetReadings at h
  split at h
  · rename_i inner hinner
    rw [List.mem_singleton.mp h]
    exact mem_children_of_enclosed? hinner
  · split at h
    · rcases List.mem_append.mp h with h | h <;>
        exact mem_children_of_field? (spot_of_mem_toList h)
    · exact mem_children_of_mem_codeReadings h

theorem mem_children_of_mem_bindingReadings (h : x ∈ p.bindingReadings) :
    x.spot ∈ p.children := by
  unfold bindingReadings at h
  split at h
  · cases h
  · split at h
    · exact mem_children_of_firstPlain? (spot_of_mem_toList h)
    · exact mem_children_of_mem_codeReadings h

theorem mem_children_of_mem_parameterReadings (h : x ∈ p.parameterReadings) :
    x.spot ∈ p.children := by
  unfold parameterReadings at h
  split at h
  · rcases List.mem_append.mp h with h | h <;>
      exact mem_children_of_field? (spot_of_mem_toList h)
  · split at h
    · rcases List.mem_append.mp h with h | h <;>
        exact mem_children_of_field? (spot_of_mem_toList h)
    · exact mem_children_of_mem_bindingReadings h

/-- What parentheses enclose is read as an expression where they are. -/
theorem mem_codeReadings_of_enclosed? {inner : Spot} (h : p.enclosed? = some inner) :
    inner.readAs .expression ∈ p.codeReadings := by
  obtain ⟨hkind, honly⟩ := enclosed?_eq_some_iff.mp h
  rw [codeReadings, hkind]
  exact List.mem_map_of_mem (plainChildren_of_onlyPlain? honly ▸ List.mem_singleton_self inner)

end Spot

namespace Reading

theorem mem_children_of_mem_next {x y : Reading} (h : y ∈ x.next) : y.spot ∈ x.spot.children := by
  unfold next at h
  split at h
  · exact Spot.mem_children_of_mem_codeReadings h
  · exact Spot.mem_children_of_mem_codeReadings h
  · exact Spot.mem_children_of_mem_targetReadings h
  · exact Spot.mem_children_of_mem_map_readAs
      (fun _ => Spot.mem_children_of_mem_plainChildren) h
  · exact Spot.mem_children_of_mem_parameterReadings h
  · exact Spot.mem_children_of_mem_bindingReadings h

theorem size_lt_of_mem_next {x y : Reading} (h : y ∈ x.next) :
    y.spot.node.size < x.spot.node.size :=
  Spot.size_lt_of_mem_children (mem_children_of_mem_next h)

/-! ## All steps -/

def all (x : Reading) : List Reading := x :: x.next.attach.flatMap fun y => all y.1
termination_by x.spot.node.size
decreasing_by exact size_lt_of_mem_next y.2

theorem all_eq (x : Reading) : x.all = x :: x.next.flatMap all := by
  rw [all, List.flatMap_subtype (fun _ _ => rfl), List.unattach_attach]

theorem self_mem_all (x : Reading) : x ∈ x.all := by
  rw [all_eq]
  exact List.mem_cons_self

theorem mem_all_of_mem_next {x y z : Reading} (hy : y ∈ x.next) (hz : z ∈ y.all) :
    z ∈ x.all := by
  rw [all_eq]
  exact List.mem_cons_of_mem _ (List.mem_flatMap.mpr ⟨y, hy, hz⟩)

theorem mem_within_of_mem_all {x y : Reading} {q : Spot} (hx : x.spot ∈ q.within)
    (hy : y ∈ x.all) : y.spot ∈ q.within := by
  rw [all_eq] at hy
  rcases List.mem_cons.mp hy with rfl | hy
  · exact hx
  · obtain ⟨w, hw, hy⟩ := List.mem_flatMap.mp hy
    have hsmaller := size_lt_of_mem_next hw
    exact mem_within_of_mem_all
      (Spot.mem_within_of_mem_children hx (mem_children_of_mem_next hw)) hy
termination_by x.spot.node.size

theorem prefix_of_mem_all {x y : Reading} (h : y ∈ x.all) : x.spot.address <+: y.spot.address :=
  Spot.prefix_of_mem_within (mem_within_of_mem_all (Spot.self_mem_within x.spot) h)

/-- No child serves two places of what is read. -/
def PlacesDistinct (x : Reading) : Prop :=
  x.next.Pairwise fun y z => y.spot.address ≠ z.spot.address

/-- Where no child serves two places, no node is read twice. -/
theorem pairwise_all {x : Reading} (h : ∀ y ∈ x.all, y.PlacesDistinct) :
    x.all.Pairwise fun y z => y.spot.address ≠ z.spot.address := by
  rw [all_eq, List.pairwise_cons, List.pairwise_flatMap]
  refine ⟨?_, fun w hw => ?_, ?_⟩
  · intro z hz heq
    obtain ⟨w, hw, hz⟩ := List.mem_flatMap.mp hz
    obtain ⟨i, hi⟩ := Spot.address_of_mem_children (mem_children_of_mem_next hw)
    have hlength := (prefix_of_mem_all hz).length_le
    rw [← heq, hi, List.length_append, List.length_singleton] at hlength
    omega
  · have hsmaller := size_lt_of_mem_next hw
    exact pairwise_all fun y hy => h y (mem_all_of_mem_next hw hy)
  · refine (h x (self_mem_all x)).imp_of_mem fun {v w} hv hw hne y hy z hz => ?_
    obtain ⟨i, hi⟩ := Spot.address_of_mem_children (mem_children_of_mem_next hv)
    obtain ⟨j, hj⟩ := Spot.address_of_mem_children (mem_children_of_mem_next hw)
    have hfork : Address.Fork (· ≠ ·) v.spot.address w.spot.address := by
      rw [hi, hj] at hne ⊢
      exact Address.fork_append_singleton fun hij => hne (hij ▸ rfl)
    exact (hfork.mono (prefix_of_mem_all hy) (prefix_of_mem_all hz)).ne
termination_by x.spot.node.size

end Reading

namespace ParseTree

/-- All readings by which a tree becomes code. -/
def readings (t : ParseTree) : List Reading := ((Spot.root t).readAs .expression).all

theorem mem_spots_of_mem_readings {t : ParseTree} {x : Reading} (h : x ∈ t.readings) :
    x.spot ∈ t.spots :=
  Reading.mem_within_of_mem_all (q := Spot.root t) (Spot.self_mem_within (Spot.root t)) h

end ParseTree

end ScriptOutline
