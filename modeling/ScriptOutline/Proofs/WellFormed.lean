import ScriptOutline.Proofs.Arrivals
import ScriptOutline.Proofs.Parts

/-!
# Well-formed code

Names in the code of a tree are usable wherever there are any, no node has its name both
as a plain one and as a part, and every parameter of a function has its place in the list
of defaults. So the children of a function leave out no default, and no hint is empty.
Main statement: `ofTree_wellFormed_everywhere`.
-/

namespace ScriptOutline.Code

variable {α β : Type}

/-! ## Well-formed layers -/

structure FunctionDef.WellFormed (f : FunctionDef α) : Prop where
  aligned : f.defaults.length = f.params.length
  line_pos : 1 ≤ f.line
  id_usable : f.id ≠ some ""
  one_name : f.computedName ≠ none → f.id = none

def Target.WellFormed : Target α → Prop
  | .identifier name => name ≠ ""
  | .member _ property => property ≠ some ""
  | .pattern _ => True

def Shape.WellFormed : Shape α → Prop
  | .function f => f.WellFormed
  | .declarator id pattern _ => id ≠ some "" ∧ (id = none ∨ pattern = none)
  | .assignment target _ => target.WellFormed
  | .property key computed _ => key ≠ some "" ∧ (key = none ∨ computed = none)
  | .statement _ => True
  | .literal _ => True
  | .other _ _ => True

theorem Shape.WellFormed.map (f : α → β) {s : Shape α} (h : s.WellFormed) :
    (s.map f).WellFormed := by
  cases s with
  | function g =>
      refine ⟨?_, h.line_pos, h.id_usable, fun hname => h.one_name ?_⟩
      · simpa [FunctionDef.map] using h.aligned
      · simpa [FunctionDef.map] using hname
  | declarator id pattern init => exact ⟨h.1, h.2.imp_right fun hpattern => by rw [hpattern]; rfl⟩
  | assignment target value => cases target <;> exact h
  | property key computed value =>
      exact ⟨h.1, h.2.imp_right fun hcomputed => by rw [hcomputed]; rfl⟩
  | _ => trivial

/-! ## The layers of a tree -/

section Layers

variable (source : ByteArray) (t : ParseTree)

theorem identifier?_ne_some_empty : t.identifier? source ≠ some "" :=
  fun h => ParseTree.ne_empty_of_identifier? h rfl

theorem bind_identifier?_ne_some_empty (part : Option ParseTree) :
    part.bind (ParseTree.identifier? source) ≠ some "" := by
  intro h
  obtain ⟨u, -, hu⟩ := Option.bind_eq_some_iff.mp h
  exact identifier?_ne_some_empty source u hu

/-- A computed name is no plain one. -/
theorem identifier?_of_isComputedName {t : ParseTree} (h : isComputedName t = true) :
    t.identifier? source = none := by
  have hkind : t.kind = "computed_property_name" := by simpa [isComputedName] using h
  simp [ParseTree.identifier?, hkind, ParseTree.identifierKinds]

theorem wellFormed_functionOf : (functionOf source t).WellFormed where
  aligned := by simp [functionOf]
  line_pos := Nat.succ_pos _
  id_usable := bind_identifier?_ne_some_empty source _
  one_name := by
    intro hname
    obtain ⟨part, hpart⟩ := Option.ne_none_iff_exists'.mp hname
    obtain ⟨name, hfilter, -⟩ := Option.map_eq_some_iff.mp hpart
    obtain ⟨hfield, hcomputed⟩ := Option.filter_eq_some_iff.mp hfilter
    show (t.field? .name).bind (ParseTree.identifier? source) = none
    rw [hfield, Option.bind_some, identifier?_of_isComputedName source hcomputed]

theorem wellFormed_declaratorOf : (declaratorOf source t).WellFormed := by
  refine ⟨fun h => ?_, ?_⟩
  · obtain ⟨name, -, hname⟩ := Option.bind_eq_some_iff.mp h
    split at hname
    · exact identifier?_ne_some_empty source name hname
    · cases hname
  · cases hname : declaredName? source t with
    | none => exact .inl rfl
    | some name => exact .inr rfl

theorem wellFormed_targetOf : (targetOf source t).WellFormed := by
  unfold targetOf
  split
  · split
    · rename_i name hname
      exact ParseTree.ne_empty_of_identifier? hname
    · trivial
  · split
    · exact bind_identifier?_ne_some_empty source _
    · trivial

theorem wellFormed_assignmentOf : (assignmentOf source t).WellFormed := by
  show Target.WellFormed _
  split
  · exact wellFormed_targetOf source _
  · trivial

theorem wellFormed_propertyOf : (propertyOf source t).WellFormed := by
  unfold propertyOf
  cases key? t with
  | none => simp [Shape.WellFormed]
  | some key =>
      cases hcomputed : isComputedName key with
      | true => simp [Shape.WellFormed, hcomputed]
      | false =>
          have husable := identifier?_ne_some_empty source key
          simp [Shape.WellFormed, hcomputed, husable, Option.filter]

theorem wellFormed_shorthandDefaultOf : (shorthandDefaultOf source t).WellFormed := by
  unfold shorthandDefaultOf
  split
  · rename_i left _
    split
    · exact ⟨identifier?_ne_some_empty source left, .inr rfl⟩
    · trivial
  · trivial

theorem wellFormed_bareShapeOf : (bareShapeOf source t).WellFormed := by
  unfold bareShapeOf
  cases Construct.ofKind t.kind with
  | function => exact wellFormed_functionOf source t
  | declarator => exact wellFormed_declaratorOf source t
  | assignment => exact wellFormed_assignmentOf source t
  | property => exact wellFormed_propertyOf source t
  | shorthandDefault => exact wellFormed_shorthandDefaultOf source t
  | _ => trivial

theorem wellFormed_ofOperand (part : Operand) : (ofOperand source part).shape.WellFormed := by
  rw [ofOperand_eq]
  apply Shape.WellFormed.map
  cases part with
  | absent => trivial
  | tree t => exact wellFormed_bareShapeOf source t.unwrap

end Layers

/-! ## What follows from well-formed layers -/

theorem defaults_sublist_paramSlots {params : List (Param α)}
    {defaults : List (Option (Default α))} (h : defaults.length = params.length) :
    (defaults.filterMap (Option.map Default.node)).Sublist (paramSlots params defaults) := by
  induction params generalizing defaults with
  | nil =>
      rw [List.eq_nil_of_length_eq_zero h]
      exact List.Sublist.refl []
  | cons p params ih =>
      cases defaults with
      | nil => exact List.nil_sublist _
      | cons d defaults =>
          have hrest := ih (Nat.succ_inj.mp h)
          rw [paramSlots]
          refine List.Sublist.trans ?_ (List.sublist_append_right _ _)
          cases d with
          | none => exact hrest
          | some d => exact hrest.cons_cons d.node

/-- All defaults are among the children, in their order. -/
theorem FunctionDef.WellFormed.defaults_sublist_slots {f : FunctionDef α} (h : f.WellFormed) :
    (f.defaults.filterMap (Option.map Default.node)).Sublist f.slots := by
  have hslots := defaults_sublist_paramSlots h.aligned
  have hbody := hslots.trans (List.sublist_append_left _ f.body.toList)
  exact (hbody.trans (List.sublist_append_right _ _)).trans (List.sublist_append_right _ _)

theorem Target.WellFormed.name?_ne_some_empty {target : Target α} (h : target.WellFormed) :
    target.name? ≠ some "" := by
  cases target with
  | identifier name => exact fun hname => h (Option.some.inj hname)
  | member object property => exact h
  | pattern binding => exact fun hname => by cases hname

theorem assigned?_ne_some_empty {s : Shape Code} (h : s.WellFormed) :
    assigned? s ≠ some "" := by
  cases s with
  | assignment target value => exact Target.WellFormed.name?_ne_some_empty h
  | _ => exact fun hname => by cases hname

theorem hint?_ne_some_empty {c : Code} (h : c.shape.WellFormed)
    (hparts : ∀ d ∈ c.shape.parts, d.shape.WellFormed) : c.hint? ≠ some "" := by
  unfold hint?
  cases hshape : c.shape with
  | declarator id pattern init =>
      rw [hshape] at h
      exact h.1
  | property key computed value =>
      rw [hshape] at h
      exact h.1
  | statement expression =>
      cases expression with
      | none => exact fun hname => by cases hname
      | some expression =>
          have hpart : expression ∈ c.shape.parts := by
            rw [hshape]
            exact List.mem_singleton_self expression
          exact assigned?_ne_some_empty (hparts expression hpart)
  | _ => exact fun hname => by cases hname

theorem hint?_of_visit {c : Code} {hint name : String} {level : Nat}
    (h : c.visit hint level = .hint name) : c.hint? = some name := by
  unfold visit at h
  split at h
  · cases h
  · cases hname : c.hint? with
    | none =>
        rw [hname] at h
        cases h
    | some given =>
        rw [hname] at h
        cases h
        rfl

/-- Every node in the code of a tree, at whatever depth and in whatever part, is well
formed. The children of a function leave out none of its defaults, and no node gives an
empty hint. -/
theorem ofTree_wellFormed_everywhere (source : ByteArray) (t : ParseTree) :
    (ofTree source t).Everywhere fun c =>
      c.shape.WellFormed ∧
        (∀ f, c.shape = .function f →
          (f.defaults.filterMap (Option.map Default.node)).Sublist c.children) ∧
        ∀ hint level name, c.visit hint level = .hint name → name ≠ "" := by
  have hlayers : (ofTree source t).Everywhere fun c => c.shape.WellFormed :=
    everywhere_ofOperand (wellFormed_ofOperand source) (.tree t)
  refine hlayers.imp fun c h hparts => ⟨h, ?_, ?_⟩
  · intro f hshape
    rw [hshape] at h
    rw [children, hshape]
    exact FunctionDef.WellFormed.defaults_sublist_slots h
  · rintro hint level name hvisit rfl
    exact hint?_ne_some_empty h hparts (hint?_of_visit hvisit)

end ScriptOutline.Code
