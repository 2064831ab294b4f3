import ScriptOutline.Proofs.Regions
import ScriptOutline.Proofs.SlotOrder

/-!
# Decorators

A decorator may stand on a function, on a property or on a parameter. Functions keep
theirs, so that what is declared in them has entries; of properties and parameters they
leave no trace. Main statement: `decorators_kept_at_functions_alone`.
-/

namespace ScriptOutline

namespace Spot

theorem mem_slots_of_decorator (source : ByteArray) {d p : Spot}
    (hfunction : p.node.isFunction = true) (hd : d ∈ p.plainChildren)
    (hkind : d.node.kind = "decorator") : d ∈ p.slots source := by
  have hconstruct : Construct.ofKind p.node.kind = .function := beq_iff_eq.mp hfunction
  rw [slots, hconstruct]
  exact List.mem_append_left _ (List.mem_filter.mpr ⟨hd, beq_iff_eq.mpr hkind⟩)

/-- A function that is nested in a decorator of a function has an entry. -/
theorem hasEntry_of_decorator {source : ByteArray} {t : ParseTree} {a : Arrival} {d p : Spot}
    (ha : a ∈ (root t).arrivals source "" 0) (hdecorated : a.spot.node.isFunction = true)
    (hd : d ∈ a.spot.plainChildren) (hkind : d.node.kind = "decorator")
    (hnested : Relation.ReflTransGen Nests d p) (hfunction : p.node.isFunction = true) :
    p.HasEntry source t := by
  obtain ⟨b, hb, rfl⟩ :=
    exists_arrival_of_mem_slots ha (mem_slots_of_decorator source hdecorated hd hkind)
  exact hasEntry_iff.mpr ⟨hfunction, exists_arrival_of_nests hb hnested⟩

end Spot

namespace ParseTree

/-! ## Nodes without their decorators -/

def undecorated (t : ParseTree) : ParseTree :=
  node t.info (t.children.filter fun c => c.kind != "decorator")

def DecoratorsFillNoField (t : ParseTree) : Prop :=
  ∀ d ∈ t.children, d.kind = "decorator" → d.info.fields = []

instance (t : ParseTree) : Decidable t.DecoratorsFillNoField :=
  inferInstanceAs (Decidable (∀ d ∈ t.children, d.kind = "decorator" → d.info.fields = []))

variable {t : ParseTree}

theorem field?_undecorated (h : t.DecoratorsFillNoField) (f : Field) :
    t.undecorated.field? f = t.field? f := by
  have hfind (trees : List ParseTree)
      (hfields : ∀ d ∈ trees, d.kind = "decorator" → d.info.fields = []) :
      (trees.filter fun c => c.kind != "decorator").find? (fun c => c.info.fields.contains f) =
        trees.find? fun c => c.info.fields.contains f := by
    induction trees with
    | nil => rfl
    | cons c rest ih =>
        obtain ⟨hc, hrest⟩ := List.forall_mem_cons.mp hfields
        by_cases hkind : c.kind = "decorator"
        · rw [List.filter_cons_of_neg (by simp [hkind]), ih hrest, List.find?_cons, hc hkind]
          rfl
        · rw [List.filter_cons_of_pos (by simp [hkind]), List.find?_cons, List.find?_cons, ih hrest]
  exact hfind t.children h

theorem enclosed?_of_property (h : Construct.ofKind t.kind = .property) : t.enclosed? = none := by
  unfold enclosed?
  split
  · rename_i hkind
    rw [hkind] at h
    cases h
  · rfl

/-- The code of a property does not depend on the decorators of the property. -/
theorem ofTree_undecorated (source : ByteArray) (h : t.DecoratorsFillNoField)
    (hkind : Construct.ofKind t.kind = .property) :
    Code.ofTree source t.undecorated = Code.ofTree source t := by
  have hkind' : Construct.ofKind t.undecorated.kind = .property := hkind
  have hlayer : Code.propertyOf source t.undecorated = Code.propertyOf source t := by
    simp only [Code.propertyOf, Code.key?, field?_undecorated h]
  rw [Code.ofTree_eq, Code.ofTree_eq, unwrap_of_enclosed?_eq_none (enclosed?_of_property hkind'),
    unwrap_of_enclosed?_eq_none (enclosed?_of_property hkind), Code.bareShapeOf, hkind',
    Code.bareShapeOf, hkind]
  dsimp only
  rw [hlayer]

/-- What is read of a parameter does not depend on its decorators. -/
theorem paramOf_undecorated (source : ByteArray) (h : t.DecoratorsFillNoField)
    (hkind : t.kind = "required_parameter" ∨ t.kind = "optional_parameter") :
    Code.paramOf source t.undecorated = Code.paramOf source t ∧
      Code.defaultOf source t.undecorated = Code.defaultOf source t := by
  have hkind' : t.undecorated.kind = t.kind := rfl
  have hdefault : t.kind ≠ "assignment_pattern" := by
    rcases hkind with hkind | hkind <;> simp [hkind]
  have hbinding : t.undecorated.binding? = t.binding? := by
    simp only [binding?, hkind', if_neg hdefault, if_pos hkind, field?_undecorated h]
  have hvalue : t.undecorated.default? = t.default? := by
    simp only [default?, hkind', if_neg hdefault, if_pos hkind, field?_undecorated h]
  rw [Code.paramOf, Code.paramOf, Code.defaultOf, Code.defaultOf, hbinding, hvalue]
  exact ⟨rfl, rfl⟩

/-! ## Where decorators are kept -/

/-- A function that is nested in a decorator has an entry if the decorator stands on a
function that the outline comes to. From a property and from a parameter decorators can
be taken away without a change. -/
theorem decorators_kept_at_functions_alone (source : ByteArray) (t : ParseTree) :
    (∀ a ∈ (Spot.root t).arrivals source "" 0, a.spot.node.isFunction = true →
        ∀ d ∈ a.spot.plainChildren, d.node.kind = "decorator" →
          ∀ p, Relation.ReflTransGen Spot.Nests d p → p.node.isFunction = true →
            p.HasEntry source t) ∧
      ∀ u : ParseTree, u.DecoratorsFillNoField →
        (Construct.ofKind u.kind = .property →
            Code.ofTree source u.undecorated = Code.ofTree source u) ∧
          (u.kind = "required_parameter" ∨ u.kind = "optional_parameter" →
            Code.paramOf source u.undecorated = Code.paramOf source u ∧
              Code.defaultOf source u.undecorated = Code.defaultOf source u) :=
  ⟨fun _ ha hdecorated _ hd hkind _ hnested hfunction =>
      Spot.hasEntry_of_decorator ha hdecorated hd hkind hnested hfunction,
    fun _ hfields => ⟨ofTree_undecorated source hfields, paramOf_undecorated source hfields⟩⟩

def decoratedFieldSource : ByteArray := "@d(() => 0) x".toUTF8

def decoratedField : ParseTree :=
  node ⟨"field_definition", true, false, false, 0, 13, 0, []⟩
    [node ⟨"decorator", true, false, false, 0, 11, 0, []⟩
        [node ⟨"call_expression", true, false, false, 1, 11, 0, []⟩
          [node ⟨"identifier", true, false, false, 1, 2, 0, []⟩ [],
            node ⟨"arguments", true, false, false, 2, 11, 0, []⟩ [sampleArrow 3 0 []]]],
      node ⟨"property_identifier", true, false, false, 12, 13, 0, [.property]⟩ []]

/-- The function in the decorator of a method has an entry, and the decorator of a field
can be taken away. -/
theorem decorators_of_sampleMethod_and_decoratedField :
    (∃ p ∈ sampleMethod.spots, p.node.isFunction = true ∧
        "decorator" ∈ p.above.map kind ∧ p.HasEntry sampleMethodSource sampleMethod) ∧
      Code.ofTree decoratedFieldSource decoratedField.undecorated =
        Code.ofTree decoratedFieldSource decoratedField := by
  constructor
  · refine ⟨_, List.mem_of_getElem? (show sampleMethod.spots[3]? = some _ from rfl), rfl,
      by decide, ?_⟩
    exact (decorators_kept_at_functions_alone sampleMethodSource sampleMethod).1 _
      (Spot.self_mem_arrivals sampleMethodSource "" 0 _) rfl _ (List.Mem.head _) rfl _
      (.tail (.tail .refl ⟨rfl, List.Mem.head _⟩) ⟨rfl, List.Mem.head _⟩) rfl
  · exact ((decorators_kept_at_functions_alone decoratedFieldSource decoratedField).2
      decoratedField (by decide)).1 rfl

/-- No function in the decorator of a field has an entry. -/
theorem outline_decoratedField :
    Construct.ofKind decoratedField.kind = .property ∧
      (∃ d ∈ (Spot.root decoratedField).plainChildren, d.node.kind = "decorator" ∧
        ∃ p, Relation.ReflTransGen Spot.Nests d p ∧ p.node.isFunction = true) ∧
      decoratedField.outline decoratedFieldSource = [] := by
  refine ⟨rfl, ⟨_, List.Mem.head _, rfl, _, .tail (.tail (.tail .refl
    ⟨rfl, List.Mem.head _⟩) ⟨rfl, .tail _ (List.Mem.head _)⟩) ⟨rfl, List.Mem.head _⟩, rfl⟩, ?_⟩
  rw [outline_eq_map_entry, functionArrivals, Spot.arrivals_eq]
  rfl

end ParseTree

end ScriptOutline
