import Mathlib.Data.List.Basic
import ScriptOutline.Code.OfTree
import ScriptOutline.Outline.Walk

/-!
# All parts of code

Every part of a layer is listed, with the defaults that no parameter takes and that are
therefore no children. What holds of a node, of its parts, of theirs and so on holds
everywhere in it; of the code of a tree it is enough to show it layer by layer.
-/

namespace ScriptOutline.Code

variable {α β : Type}

/-! ## Parts of a layer -/

def FunctionDef.parts (f : FunctionDef α) : List α :=
  f.decorators ++ (f.computedName.toList ++ (f.params.filterMap Param.pattern ++
    (f.defaults.filterMap (Option.map Default.node) ++ f.body.toList)))

def Shape.parts : Shape α → List α
  | .function f => f.parts
  | s => s.slots

theorem FunctionDef.all_iff {p : α → Prop} {f : FunctionDef α} :
    f.All p ↔ ∀ a ∈ f.parts, p a := by
  simp only [FunctionDef.All, FunctionDef.parts, List.forall_mem_append, Option.mem_toList,
    List.mem_filterMap, Option.map_eq_some_iff, Param.All]
  constructor
  · rintro ⟨hdecorators, hname, hparams, hdefaults, hbody⟩
    refine ⟨hdecorators, hname, ?_, ?_, hbody⟩
    · rintro a ⟨q, hq, ha⟩
      exact hparams q hq a ha
    · rintro a ⟨d, hd, e, he, rfl⟩
      exact hdefaults d hd e he
  · rintro ⟨hdecorators, hname, hparams, hdefaults, hbody⟩
    refine ⟨hdecorators, hname, ?_, ?_, hbody⟩
    · exact fun q hq a ha => hparams a ⟨q, hq, ha⟩
    · exact fun d hd e he => hdefaults e.node ⟨d, hd, e, he, rfl⟩

theorem Shape.all_iff {p : α → Prop} {s : Shape α} : s.All p ↔ ∀ a ∈ s.parts, p a := by
  cases s with
  | function f => exact FunctionDef.all_iff
  | assignment target value =>
      cases target <;> simp [Shape.All, Shape.parts, Shape.slots, Target.All, Target.slots]
  | _ => simp [Shape.All, Shape.parts, Shape.slots, or_imp, forall_and]

theorem FunctionDef.parts_map (g : α → β) (f : FunctionDef α) :
    (f.map g).parts = f.parts.map g := by
  simp only [FunctionDef.parts, FunctionDef.map, List.map_append, Option.toList_map,
    List.filterMap_map, List.map_filterMap]
  congr 4
  apply List.filterMap_congr
  intro d _
  cases d <;> rfl

theorem Shape.parts_map (f : α → β) (s : Shape α) : (s.map f).parts = s.parts.map f := by
  cases s with
  | function g => exact g.parts_map f
  | declarator id pattern init => exact Shape.slots_map f (.declarator id pattern init)
  | statement expression => exact Shape.slots_map f (.statement expression)
  | assignment target value => exact Shape.slots_map f (.assignment target value)
  | property key computed value => exact Shape.slots_map f (.property key computed value)
  | literal value => rfl
  | other kind children => rfl

/-! ## Parts are smaller than the whole -/

theorem sizeOf_lt_of_mem_functionParts {c : Code} {f : FunctionDef Code} (h : c ∈ f.parts) :
    sizeOf c < sizeOf f := by
  cases f with
  | mk id decorators computedName params defaults generator line body =>
      simp only [FunctionDef.parts, List.mem_append, List.mem_filterMap] at h
      rcases h with h | h | ⟨p, hp, hc⟩ | ⟨d, hd, hc⟩ | h
      · have := List.sizeOf_lt_of_mem h
        simp
        omega
      · have := sizeOf_lt_of_mem_option h
        simp
        omega
      · have := List.sizeOf_lt_of_mem hp
        cases p
        cases hc
        simp at this ⊢
        omega
      · have := List.sizeOf_lt_of_mem hd
        obtain ⟨e, rfl, rfl⟩ := Option.map_eq_some_iff.mp hc
        cases e
        simp at this ⊢
        omega
      · have := sizeOf_lt_of_mem_option h
        simp
        omega

theorem sizeOf_lt_of_mem_parts {c : Code} {s : Shape Code} (h : c ∈ s.parts) :
    sizeOf c < sizeOf s := by
  cases s with
  | function f =>
      have := sizeOf_lt_of_mem_functionParts h
      simp
      omega
  | _ => exact sizeOf_lt_of_mem_slots h

theorem sizeOf_lt_of_mem_shape_parts {c d : Code} (h : d ∈ c.shape.parts) :
    sizeOf d < sizeOf c := by
  cases c with
  | node s =>
      have := sizeOf_lt_of_mem_parts (show d ∈ s.parts from h)
      simp
      omega

/-! ## Everywhere -/

/-- A property of a node, of its parts, of the parts of these and so on. -/
inductive Everywhere (p : Code → Prop) : Code → Prop
  | intro {c : Code} (here : p c) (below : ∀ d ∈ c.shape.parts, Everywhere p d) : Everywhere p c

namespace Everywhere

variable {p q : Code → Prop} {c : Code}

theorem here (h : c.Everywhere p) : p c := by
  cases h with
  | intro here _ => exact here

/-- What follows at a node from a property of it and of its parts follows everywhere. -/
theorem imp (h : c.Everywhere p) (hpq : ∀ c, p c → (∀ d ∈ c.shape.parts, p d) → q c) :
    c.Everywhere q := by
  induction h with
  | @intro c here below ih => exact .intro (hpq c here fun d hd => (below d hd).here) ih

end Everywhere

theorem everywhere_ofOperand {source : ByteArray} {p : Code → Prop}
    (h : ∀ part, p (ofOperand source part)) (part : Operand) :
    (ofOperand source part).Everywhere p := by
  refine .intro (h part) fun d hd => ?_
  rw [ofOperand_eq, shape, Shape.parts_map] at hd
  obtain ⟨inner, hinner, rfl⟩ := List.mem_map.mp hd
  have hsmaller := Shape.all_iff.mp (all_shapeOf source part) inner hinner
  exact everywhere_ofOperand h inner
termination_by part.size

end ScriptOutline.Code
