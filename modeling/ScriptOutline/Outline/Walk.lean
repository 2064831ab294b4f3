import ScriptOutline.Outline.Visit

/-!
# The outline of code

The functions of code in source order, each before the functions inside it. A
hint and a level are handed down: the hint names what has no name of its own and
never reaches a neighbour, the level counts the functions around a node.
-/

namespace ScriptOutline.Code

/-! ## Parts are smaller than the whole -/

theorem sizeOf_lt_of_mem_paramSlots {c : Code} {params : List (Param Code)}
    {defaults : List (Option (Default Code))} (h : c ∈ paramSlots params defaults) :
    sizeOf c < sizeOf params + sizeOf defaults := by
  induction params generalizing defaults with
  | nil => simp [paramSlots] at h
  | cons p params ih =>
      have hpattern : c ∈ p.pattern.toList → sizeOf c < sizeOf p := by
        intro hc
        rw [Option.mem_toList] at hc
        cases p with
        | mk name pattern =>
            cases hc
            simp
            omega
      cases defaults with
      | nil =>
          simp only [paramSlots, List.mem_append] at h
          rcases h with h | h
          · have := hpattern h
            simp
            omega
          · have := ih h
            simp at this ⊢
            omega
      | cons d defaults =>
          simp only [paramSlots, List.mem_append] at h
          rcases h with h | h | h
          · have := hpattern h
            simp
            omega
          · cases d with
            | none => simp at h
            | some d =>
                cases d with
                | mk value source =>
                    simp only [Option.map_some, Option.toList_some, List.mem_singleton] at h
                    subst h
                    simp
                    omega
          · have := ih h
            simp
            omega

theorem sizeOf_lt_of_mem_option {c : Code} {part : Option Code} (h : c ∈ part.toList) :
    sizeOf c < sizeOf part := by
  rw [Option.mem_toList] at h
  cases h
  simp

theorem sizeOf_lt_of_mem_slots {c : Code} {s : Shape Code} (h : c ∈ s.slots) :
    sizeOf c < sizeOf s := by
  cases s with
  | function f =>
      cases f with
      | mk id decorators computedName params defaults generator line body =>
          simp only [Shape.slots, FunctionDef.slots, List.mem_append] at h
          rcases h with h | h | h | h
          · have := List.sizeOf_lt_of_mem h
            simp
            omega
          · have := sizeOf_lt_of_mem_option h
            simp
            omega
          · have := sizeOf_lt_of_mem_paramSlots h
            simp
            omega
          · have := sizeOf_lt_of_mem_option h
            simp
            omega
  | declarator id pattern init =>
      simp only [Shape.slots, List.mem_append] at h
      rcases h with h | h
      · have := sizeOf_lt_of_mem_option h
        simp
        omega
      · have := sizeOf_lt_of_mem_option h
        simp
        omega
  | statement expression =>
      have := sizeOf_lt_of_mem_option h
      simp
      omega
  | assignment target value =>
      simp only [Shape.slots, List.mem_append] at h
      rcases h with h | h
      · cases target with
        | identifier name => simp [Target.slots] at h
        | member object property =>
            simp only [Target.slots, List.mem_singleton] at h
            subst h
            simp
            omega
        | pattern binding =>
            simp only [Target.slots, List.mem_singleton] at h
            subst h
            simp
            omega
      · have := sizeOf_lt_of_mem_option h
        simp
        omega
  | property key computed value =>
      simp only [Shape.slots, List.mem_append] at h
      rcases h with h | h
      · have := sizeOf_lt_of_mem_option h
        simp
        omega
      · have := sizeOf_lt_of_mem_option h
        simp
        omega
  | literal value => simp [Shape.slots] at h
  | other kind children =>
      have := List.sizeOf_lt_of_mem (show c ∈ children from h)
      simp
      omega

theorem sizeOf_lt_of_mem_children {c d : Code} (h : c ∈ d.children) : sizeOf c < sizeOf d := by
  cases d with
  | node s =>
      have := sizeOf_lt_of_mem_slots (show c ∈ s.slots from h)
      simp
      omega

@[elab_as_elim]
theorem inductionOnChildren {motive : Code → Prop} (c : Code)
    (step : ∀ d, (∀ child ∈ d.children, motive child) → motive d) : motive c :=
  step c fun child hchild =>
    have := sizeOf_lt_of_mem_children hchild
    inductionOnChildren child step
termination_by sizeOf c

/-! ## The walk -/

/-- Adds the entries of code to those found before it, given the hint and the level
from around it. Every part goes on from what its earlier neighbours found. -/
def walk (found : List Entry) (hint : String) (level : Nat) (c : Code) : List Entry :=
  c.children.attach.foldl
    (fun found child =>
      walk found ((c.visit hint level).hintBelow hint) ((c.visit hint level).levelBelow level)
        child.1)
    (found ++ (c.visit hint level).declared?.toList)
termination_by sizeOf c
decreasing_by exact sizeOf_lt_of_mem_children child.2

theorem walk_eq (found : List Entry) (hint : String) (level : Nat) (c : Code) :
    c.walk found hint level =
      c.children.foldl
        (fun found child =>
          child.walk found ((c.visit hint level).hintBelow hint)
            ((c.visit hint level).levelBelow level))
        (found ++ (c.visit hint level).declared?.toList) := by
  rw [walk, List.foldl_subtype (fun _ _ _ => rfl), List.unattach_attach]

/-- The entries of code alone. -/
def outline (hint : String) (level : Nat) (c : Code) : List Entry :=
  (c.visit hint level).declared?.toList ++
    c.children.attach.flatMap fun child =>
      outline ((c.visit hint level).hintBelow hint) ((c.visit hint level).levelBelow level) child.1
termination_by sizeOf c
decreasing_by exact sizeOf_lt_of_mem_children child.2

theorem outline_eq (hint : String) (level : Nat) (c : Code) :
    c.outline hint level =
      (c.visit hint level).declared?.toList ++
        c.children.flatMap
          (outline ((c.visit hint level).hintBelow hint)
            ((c.visit hint level).levelBelow level)) := by
  rw [outline, List.flatMap_subtype (fun _ _ => rfl), List.unattach_attach]

private theorem foldl_walk_eq_append {hint : String} {level : Nat} {parts : List Code}
    (h : ∀ part ∈ parts, ∀ found, part.walk found hint level = found ++ part.outline hint level)
    (found : List Entry) :
    parts.foldl (fun found part => part.walk found hint level) found =
      found ++ parts.flatMap (outline hint level) := by
  induction parts generalizing found with
  | nil => simp
  | cons part parts ih =>
      rw [List.foldl_cons, h part List.mem_cons_self,
        ih fun other hother => h other (List.mem_cons_of_mem part hother)]
      simp

/-- A walk only adds, and what it adds does not depend on what was found before. -/
theorem walk_eq_append (found : List Entry) (hint : String) (level : Nat) (c : Code) :
    c.walk found hint level = found ++ c.outline hint level := by
  induction c using inductionOnChildren generalizing found hint level with
  | step c ih =>
      rw [walk_eq, outline_eq, foldl_walk_eq_append, List.append_assoc]
      exact fun child hchild found => ih child hchild found _ _

end ScriptOutline.Code
