import Mathlib.Data.List.Nodup
import Mathlib.Logic.Equiv.Basic
import Mathlib.Logic.Relation
import ScriptOutline.Proofs.SlotOrder

/-!
# Completeness

Which spots code keeps of a node is written down kind by kind (`HasSlot`), without
regard to the source. The functions that are kept at every step down from the root are
those that have an entry in the outline, and each has exactly one. Main statements:
`exists_bijective_kept`, `outline_complete`.
-/

namespace ScriptOutline.Spot

/-! ## Slots by kind -/

/-- What a binding of a parameter binds. Of a rest pattern that is what its first
plain child binds, and nothing else is kept. -/
inductive Binds : Spot → Spot → Prop
  | self {b : Spot} (hkind : b.node.kind ≠ "rest_pattern") : Binds b b
  | rest {b inner c : Spot} (hkind : b.node.kind = "rest_pattern")
      (hinner : b.firstPlain? = some inner) (hbinds : Binds inner c) : Binds b c

/-- The spots that are kept of a spot. -/
inductive HasSlot (p : Spot) : Spot → Prop
  /-- Parentheses are among the kinds that have no construct of their own. -/
  | nested {c : Spot} (hkind : Construct.ofKind p.node.kind = .other)
      (hc : c ∈ p.plainChildren) : HasSlot p c
  | patternPart {c : Spot} (hkind : Construct.ofKind p.node.kind = .shorthandDefault)
      (hleft : p.isShorthand = false) (hc : c ∈ p.plainChildren) : HasSlot p c
  | shorthandDefault {c : Spot} (hkind : Construct.ofKind p.node.kind = .shorthandDefault)
      (hleft : p.isShorthand = true) (hc : p.field? .right = some c) : HasSlot p c
  | decorator {c : Spot} (hkind : Construct.ofKind p.node.kind = .function)
      (hc : c ∈ p.plainChildren) (hdecorator : c.node.kind = "decorator") : HasSlot p c
  | computedName {c : Spot} (hkind : Construct.ofKind p.node.kind = .function)
      (hc : p.field? .name = some c) (hcomputed : c.node.kind = "computed_property_name") :
      HasSlot p c
  | parameterBinding {e b c : Spot} (hkind : Construct.ofKind p.node.kind = .function)
      (he : e ∈ p.formalParameters) (hb : e.binding? = some b) (hbinds : Binds b c) :
      HasSlot p c
  | parameterDefault {e c : Spot} (hkind : Construct.ofKind p.node.kind = .function)
      (he : e ∈ p.formalParameters) (hc : e.default? = some c) : HasSlot p c
  | body {c : Spot} (hkind : Construct.ofKind p.node.kind = .function)
      (hc : p.field? .body = some c) : HasSlot p c
  | declaredPattern {c : Spot} (hkind : Construct.ofKind p.node.kind = .declarator)
      (hc : p.field? .name = some c) (hname : c.node.kind ≠ "identifier") : HasSlot p c
  | declaredValue {c : Spot} (hkind : Construct.ofKind p.node.kind = .declarator)
      (hc : p.field? .value = some c) : HasSlot p c
  | expression {c : Spot} (hkind : Construct.ofKind p.node.kind = .statement)
      (hc : p.firstPlain? = some c) : HasSlot p c
  | target {left : Spot} (hkind : Construct.ofKind p.node.kind = .assignment)
      (hleft : p.field? .left = some left)
      (hmember : left.unwrap.node.kind ≠ "member_expression") : HasSlot p left.unwrap
  | targetObject {left c : Spot} (hkind : Construct.ofKind p.node.kind = .assignment)
      (hleft : p.field? .left = some left)
      (hmember : left.unwrap.node.kind = "member_expression")
      (hc : left.unwrap.field? .object = some c) : HasSlot p c
  | assigned {c : Spot} (hkind : Construct.ofKind p.node.kind = .assignment)
      (hc : p.field? .right = some c) : HasSlot p c
  | computedKey {c : Spot} (hkind : Construct.ofKind p.node.kind = .property)
      (hc : p.key? = some c) (hcomputed : c.node.kind = "computed_property_name") : HasSlot p c
  | propertyValue {c : Spot} (hkind : Construct.ofKind p.node.kind = .property)
      (hc : p.field? .value = some c) : HasSlot p c

variable {b c e p : Spot}

/-! ## Slots by kind are slots -/

theorem bindingPattern?_of_binds (h : Binds b c) :
    b.bindingPattern? = some c ∨ c.node.isPlainBinding = true := by
  induction h with
  | @self b hkind =>
      by_cases hplain : b.node.isPlainBinding = true
      · exact .inr hplain
      · left
        rw [bindingPattern?, if_neg hplain, if_neg hkind]
  | rest hkind hinner _ ih =>
      apply ih.imp_left
      intro hpattern
      rw [bindingPattern?_of_rest hkind, hinner]
      exact hpattern

theorem mem_parameterSlots_of_binds (hb : e.binding? = some b) (h : Binds b c) :
    c ∈ e.parameterSlots ∨ c.node.isPlainBinding = true := by
  apply (bindingPattern?_of_binds h).imp_left
  intro hpattern
  have hbind : e.binding?.bind bindingPattern? = some c := by rw [hb, Option.bind_some, hpattern]
  exact List.mem_append_left _ (Option.mem_toList.mpr hbind)

theorem mem_targetSlots_of_pattern (source : ByteArray) {left : Spot}
    (h : left.unwrap.node.kind ≠ "member_expression") :
    left.unwrap ∈ left.targetSlots source ∨ left.unwrap.node.isPlainBinding = true := by
  by_cases hidentifier : left.unwrap.node.kind = "identifier"
  · right
    simp [ParseTree.isPlainBinding, hidentifier]
  · left
    rw [targetSlots, if_neg hidentifier, if_neg h]
    exact List.mem_singleton_self _

theorem mem_targetSlots_of_member (source : ByteArray) {left : Spot}
    (h : left.unwrap.node.kind = "member_expression")
    (hc : left.unwrap.field? .object = some c) : c ∈ left.targetSlots source := by
  have hidentifier : left.unwrap.node.kind ≠ "identifier" := by simp [h]
  rw [targetSlots, if_neg hidentifier, if_pos h]
  exact Option.mem_toList.mpr hc

theorem declaredName?_of_pattern (source : ByteArray) (hc : p.field? .name = some c)
    (hname : c.node.kind ≠ "identifier") : Code.declaredName? source p.node = none := by
  rw [Code.declaredName?, ← map_node_field?, hc, Option.map_some, Option.bind_some, if_neg hname]

/-- What is kept by kind is a slot, or it is a plain name. -/
theorem HasSlot.mem_slots (source : ByteArray) (h : p.HasSlot c) :
    c ∈ p.slots source ∨ c.node.isPlainBinding = true := by
  have hfunction (hkind : Construct.ofKind p.node.kind = .function) :
      p.slots source = p.functionSlots := by rw [slots, hkind]
  have hassignment (hkind : Construct.ofKind p.node.kind = .assignment) :
      p.slots source = p.assignmentSlots source := by rw [slots, hkind]
  cases h with
  | nested hkind hc =>
      left
      rw [slots, hkind]
      exact hc
  | patternPart hkind hleft hc =>
      left
      rw [slots, hkind]
      show c ∈ if p.isShorthand then (p.field? .right).toList else p.plainChildren
      rw [hleft, if_neg Bool.false_ne_true]
      exact hc
  | shorthandDefault hkind hleft hc =>
      left
      rw [slots, hkind]
      show c ∈ if p.isShorthand then (p.field? .right).toList else p.plainChildren
      rw [hleft, if_pos rfl]
      exact Option.mem_toList.mpr hc
  | decorator hkind hc hdecorator =>
      left
      rw [hfunction hkind]
      exact List.mem_append_left _ (List.mem_filter.mpr ⟨hc, by simp [hdecorator]⟩)
  | computedName hkind hc hcomputed =>
      left
      have hname : c ∈ ((p.field? .name).filter fun c => Code.isComputedName c.node).toList := by
        simp [hc, Code.isComputedName, hcomputed]
      rw [hfunction hkind]
      exact List.mem_append_right _ (List.mem_append_left _ hname)
  | parameterBinding hkind he hb hbinds =>
      apply (mem_parameterSlots_of_binds hb hbinds).imp_left
      intro hc
      rw [hfunction hkind]
      exact List.mem_append_right _ (List.mem_append_right _
        (List.mem_append_left _ (List.mem_flatMap.mpr ⟨_, he, hc⟩)))
  | @parameterDefault e _ hkind he hc =>
      left
      have hslot : c ∈ e.parameterSlots := List.mem_append_right _ (Option.mem_toList.mpr hc)
      rw [hfunction hkind]
      exact List.mem_append_right _ (List.mem_append_right _
        (List.mem_append_left _ (List.mem_flatMap.mpr ⟨e, he, hslot⟩)))
  | body hkind hc =>
      left
      rw [hfunction hkind]
      exact List.mem_append_right _ (List.mem_append_right _
        (List.mem_append_right _ (Option.mem_toList.mpr hc)))
  | declaredPattern hkind hc hname =>
      left
      rw [slots, hkind]
      refine List.mem_append_left _ (Option.mem_toList.mpr ?_)
      rw [declaredName?_of_pattern source hc hname]
      exact hc
  | declaredValue hkind hc =>
      left
      rw [slots, hkind]
      exact List.mem_append_right _ (Option.mem_toList.mpr hc)
  | expression hkind hc =>
      left
      rw [slots, hkind]
      exact Option.mem_toList.mpr hc
  | @target left hkind hleft hmember =>
      apply (mem_targetSlots_of_pattern source hmember).imp_left
      intro hc
      rw [hassignment hkind, assignmentSlots, hleft]
      exact List.mem_append_left _ (List.mem_flatMap.mpr ⟨left, List.mem_singleton_self _, hc⟩)
  | @targetObject left _ hkind hleft hmember hc =>
      left
      have hslot := mem_targetSlots_of_member source hmember hc
      rw [hassignment hkind, assignmentSlots, hleft]
      exact List.mem_append_left _ (List.mem_flatMap.mpr ⟨left, List.mem_singleton_self _, hslot⟩)
  | assigned hkind hc =>
      left
      rw [hassignment hkind]
      exact List.mem_append_right _ (Option.mem_toList.mpr hc)
  | computedKey hkind hc hcomputed =>
      left
      have hkey : c ∈ (p.key?.filter fun c => Code.isComputedName c.node).toList := by
        simp [hc, Code.isComputedName, hcomputed]
      rw [slots, hkind]
      exact List.mem_append_left _ hkey
  | propertyValue hkind hc =>
      left
      rw [slots, hkind]
      exact List.mem_append_right _ (Option.mem_toList.mpr hc)

/-! ## Slots are slots by kind -/

theorem binds_of_bindingPattern? (h : b.bindingPattern? = some c) : Binds b c := by
  fun_induction bindingPattern? b with
  | case1 b hplain => cases h
  | case2 b hplain hrest inner hinner ih => exact .rest hrest hinner (ih h)
  | case3 b hplain hrest hnone => cases h
  | case4 b hplain hrest => exact Option.some.inj h ▸ .self hrest

theorem hasSlot_of_mem_functionSlots (hkind : Construct.ofKind p.node.kind = .function)
    (h : c ∈ p.functionSlots) : p.HasSlot c := by
  simp only [functionSlots, List.mem_append, List.mem_flatMap, List.mem_filter, Option.mem_toList,
    Option.filter_eq_some_iff, Code.isComputedName, beq_iff_eq] at h
  rcases h with ⟨hc, hdecorator⟩ | ⟨hc, hcomputed⟩ | ⟨e, he, hc⟩ | hc
  · exact .decorator hkind hc hdecorator
  · exact .computedName hkind hc hcomputed
  · rcases List.mem_append.mp hc with hc | hc
    · obtain ⟨b, hb, hc⟩ := Option.bind_eq_some_iff.mp (Option.mem_toList.mp hc)
      exact .parameterBinding hkind he hb (binds_of_bindingPattern? hc)
    · exact .parameterDefault hkind he (Option.mem_toList.mp hc)
  · exact .body hkind hc

theorem hasSlot_of_mem_targetSlots {source : ByteArray} {left : Spot}
    (hkind : Construct.ofKind p.node.kind = .assignment) (hleft : p.field? .left = some left)
    (h : c ∈ left.targetSlots source) : p.HasSlot c := by
  by_cases hmember : left.unwrap.node.kind = "member_expression"
  · have hidentifier : left.unwrap.node.kind ≠ "identifier" := by simp [hmember]
    rw [targetSlots, if_neg hidentifier, if_pos hmember, Option.mem_toList] at h
    exact .targetObject hkind hleft hmember h
  · have hself : c = left.unwrap := by
      rw [targetSlots, if_neg hmember] at h
      split_ifs at h
      · cases h
      · exact List.mem_singleton.mp h
      · exact List.mem_singleton.mp h
    exact hself ▸ .target hkind hleft hmember

/-- A slot is kept by kind, or it is a plain name. -/
theorem hasSlot_of_mem_slots {source : ByteArray} (h : c ∈ p.slots source) :
    p.HasSlot c ∨ c.node.isPlainBinding = true := by
  revert h
  rw [slots]
  cases hkind : Construct.ofKind p.node.kind with
  | function => exact fun h => .inl (hasSlot_of_mem_functionSlots hkind h)
  | declarator =>
      intro h
      rcases List.mem_append.mp h with h | h
      · split_ifs at h
        · cases h
        · rw [Option.mem_toList] at h
          by_cases hname : c.node.kind = "identifier"
          · exact .inr (by simp [ParseTree.isPlainBinding, hname])
          · exact .inl (.declaredPattern hkind h hname)
      · exact .inl (.declaredValue hkind (Option.mem_toList.mp h))
  | statement => exact fun h => .inl (.expression hkind (Option.mem_toList.mp h))
  | assignment =>
      intro h
      rcases List.mem_append.mp h with h | h
      · obtain ⟨left, hleft, hc⟩ := List.mem_flatMap.mp h
        exact .inl (hasSlot_of_mem_targetSlots hkind (Option.mem_toList.mp hleft) hc)
      · exact .inl (.assigned hkind (Option.mem_toList.mp h))
  | property =>
      intro h
      rcases List.mem_append.mp h with h | h
      · rw [Option.mem_toList, Option.filter_eq_some_iff, Code.isComputedName, beq_iff_eq] at h
        exact .inl (.computedKey hkind h.1 h.2)
      · exact .inl (.propertyValue hkind (Option.mem_toList.mp h))
  | shorthandDefault =>
      intro h
      dsimp only at h
      split_ifs at h with hleft
      · exact .inl (.shorthandDefault hkind hleft (Option.mem_toList.mp h))
      · exact .inl (.patternPart hkind (Bool.eq_false_iff.mpr hleft) h)
  | string => exact fun h => (List.not_mem_nil h).elim
  | plainLiteral => exact fun h => (List.not_mem_nil h).elim
  | other => exact fun h => .inl (.nested hkind h)

/-! ## Slots by kind lie below -/

theorem binds_closed {S : Spot → Prop}
    (hstep : ∀ q d : Spot, S q → q.node.kind ∈ passedKinds → d ∈ q.children → S d)
    (hb : S b) (h : Binds b c) : S c := by
  induction h with
  | self => exact hb
  | @rest b inner _ hkind hinner _ ih =>
      exact ih (hstep b inner hb (by simp [hkind, passedKinds])
        (mem_children_of_firstPlain? hinner))

theorem HasSlot.below (h : p.HasSlot c) : Below (Passed p.node) p c := by
  have hstep : ∀ q d : Spot, Below (Passed p.node) p q → q.node.kind ∈ passedKinds →
      d ∈ q.children → Below (Passed p.node) p d :=
    fun q d hq hkind hd => .step hq (.inr hkind) hd
  have hfield {d : Spot} {f : Field} (hd : p.field? f = some d) : Below (Passed p.node) p d :=
    .child (mem_children_of_field? hd)
  have hplain (hc : c ∈ p.plainChildren) : Below (Passed p.node) p c :=
    .child (mem_children_of_mem_plainChildren hc)
  cases h with
  | nested _ hc => exact hplain hc
  | patternPart _ _ hc => exact hplain hc
  | shorthandDefault _ _ hc => exact hfield hc
  | decorator _ hc _ => exact hplain hc
  | computedName _ hc _ => exact hfield hc
  | parameterBinding _ he hb hbinds =>
      have hbinding := binding?_closed hstep (below_of_mem_formalParameters he) hb
      exact binds_closed hstep hbinding hbinds
  | parameterDefault _ he hc => exact default?_closed hstep (below_of_mem_formalParameters he) hc
  | body _ hc => exact hfield hc
  | declaredPattern _ hc _ => exact hfield hc
  | declaredValue _ hc => exact hfield hc
  | expression _ hc => exact .child (mem_children_of_firstPlain? hc)
  | target _ hleft _ => exact unwrap_closed hstep (hfield hleft)
  | @targetObject left _ _ hleft hmember hc =>
      have hunwrap := unwrap_closed hstep (hfield hleft)
      exact hstep left.unwrap c hunwrap (by simp [hmember, passedKinds])
        (mem_children_of_field? hc)
  | assigned _ hc => exact hfield hc
  | computedKey _ hc _ => exact .child (mem_children_of_key? hc)
  | propertyValue _ hc => exact hfield hc

theorem not_below_of_leaf {passes : ParseTree → Prop} (h : p.node.children = []) :
    ¬ Below passes p c := by
  intro hbelow
  have hsize : p.node.size = 1 := by
    cases hnode : p.node with
    | node info children =>
        rw [hnode] at h
        cases h
        rfl
  have hlt := hbelow.size_lt
  have hpos := c.node.size_pos
  omega

/-! ## Spots kept from the root down -/

/-- The outline comes to everything that is kept from the root down, apart from plain
names. -/
theorem exists_arrival_of_kept (source : ByteArray) {t : ParseTree}
    (leaves : ∀ u ∈ t.preorder, u.isPlainBinding = true → u.children = [])
    (h : Relation.ReflTransGen HasSlot (root t) p) :
    p ∈ t.spots ∧ ((∃ a ∈ (root t).arrivals source "" 0, a.spot = p) ∨
      p.node.isPlainBinding = true) := by
  induction h with
  | refl => exact ⟨self_mem_within (root t), .inl ⟨_, self_mem_arrivals source "" 0 _, rfl⟩⟩
  | @tail p c _ hslot ih =>
      obtain ⟨hp, hcome⟩ := ih
      refine ⟨hslot.below.mem_spots hp, ?_⟩
      rcases hcome with ⟨a, ha, rfl⟩ | hplain
      · exact (hslot.mem_slots source).imp_left (exists_arrival_of_mem_slots ha)
      · have hleaf := leaves p.node (node_mem_preorder hp) hplain
        exact (not_below_of_leaf hleaf hslot.below).elim

/-- The outline comes to nothing else, apart from plain names. -/
theorem kept_of_mem_arrivals {source : ByteArray} {t : ParseTree}
    (leaves : ∀ u ∈ t.preorder, u.isPlainBinding = true → u.children = [])
    {a : Arrival} (ha : a ∈ (root t).arrivals source "" 0) :
    Relation.ReflTransGen HasSlot (root t) a.spot ∨ a.spot.node.isPlainBinding = true := by
  refine (arrivals_closed (S := fun q _ _ => q ∈ t.spots ∧
    (Relation.ReflTransGen HasSlot (root t) q ∨ q.node.isPlainBinding = true)) ?_
    ⟨self_mem_within (root t), .inl .refl⟩ ha).2
  intro q hint level c hq hc
  obtain ⟨hmem, hkept⟩ := hq
  have hbelow := below_of_mem_slots hc
  refine ⟨hbelow.mem_spots hmem, ?_⟩
  rcases hkept with hkept | hplain
  · exact (hasSlot_of_mem_slots hc).imp_left hkept.tail
  · have hleaf := leaves q.node (node_mem_preorder hmem) hplain
    exact (not_below_of_leaf hleaf hbelow).elim

theorem nodup_functionArrivals (source : ByteArray) {t : ParseTree}
    (h : ∀ p ∈ t.spots, p.SlotsDistinct) :
    ((t.functionArrivals source).map fun a => a.spot.address).Nodup := by
  have happart := pairwise_functionArrivals (fun _ _ hlt => Nat.ne_of_lt hlt)
    (fun q hq => (h q hq).apart) source
  exact List.pairwise_map.mpr (happart.imp Address.Precedes.ne)

end ScriptOutline.Spot

namespace ScriptOutline.ParseTree

/-- A function that is kept at every step down from the root. The keyword `function` is
of the kind of a function as well, but it is not named and so no plain child. -/
def KeepsFunction (t : ParseTree) (p : Spot) : Prop :=
  p.node.isFunction = true ∧ Relation.ReflTransGen Spot.HasSlot (Spot.root t) p

theorem isPlainBinding_eq_false {t : ParseTree} (h : t.isFunction = true) :
    t.isPlainBinding = false := by
  by_contra hplain
  rw [Bool.not_eq_false, isPlainBinding, Bool.or_eq_true, beq_iff_eq, beq_iff_eq] at hplain
  rcases hplain with hkind | hkind <;>
    (rw [isFunction, hkind] at h; exact absurd h (by decide))

/-- The outline has entries for the functions that are kept, and for no others. -/
theorem exists_functionArrival_iff (source : ByteArray) {t : ParseTree}
    (leaves : ∀ u ∈ t.preorder, u.isPlainBinding = true → u.children = []) {p : Spot} :
    (∃ a ∈ t.functionArrivals source, a.spot = p) ↔ t.KeepsFunction p := by
  constructor
  · rintro ⟨a, ha, rfl⟩
    obtain ⟨harrival, hfunction⟩ := List.mem_filter.mp ha
    refine ⟨hfunction, (Spot.kept_of_mem_arrivals leaves harrival).resolve_right ?_⟩
    exact Bool.eq_false_iff.mp (isPlainBinding_eq_false hfunction)
  · rintro ⟨hfunction, hkept⟩
    have hcome := (Spot.exists_arrival_of_kept source leaves hkept).2
    rw [isPlainBinding_eq_false hfunction] at hcome
    obtain ⟨a, ha, rfl⟩ := hcome.resolve_right Bool.false_ne_true
    exact ⟨a, List.mem_filter.mpr ⟨ha, hfunction⟩, rfl⟩

section Places

variable {source : ByteArray} {t : ParseTree}
  {place : Fin (t.outline source).length → Fin t.spots.length}

theorem IsPlacing.injective (h : t.IsPlacing source place)
    (slots : ∀ p ∈ t.spots, p.SlotsDistinct) : Function.Injective place := by
  intro i j hij
  obtain ⟨a, ha, hspot⟩ := h i
  obtain ⟨b, hb, hspot'⟩ := h j
  have hsame : a.spot = b.spot := by rw [← hspot, ← hspot', hij]
  have hbound : i.val < ((t.functionArrivals source).map fun a => a.spot.address).length := by
    rw [List.length_map, ← length_outline]
    exact i.isLt
  refine Fin.ext ((List.getElem?_inj hbound (Spot.nodup_functionArrivals source slots)).mp ?_)
  rw [List.getElem?_map, List.getElem?_map, ha, hb, Option.map_some, Option.map_some, hsame]

/-- The places of the entries are those of the functions that are kept. -/
theorem IsPlacing.exists_eq_iff (h : t.IsPlacing source place)
    (leaves : ∀ u ∈ t.preorder, u.isPlainBinding = true → u.children = [])
    (k : Fin t.spots.length) : (∃ i, place i = k) ↔ t.KeepsFunction (t.spots.get k) := by
  rw [← exists_functionArrival_iff source leaves]
  constructor
  · rintro ⟨i, rfl⟩
    obtain ⟨a, ha, hspot, -⟩ := h.exists_arrival i
    exact ⟨a, ha, hspot.symm⟩
  · rintro ⟨a, ha, hspot⟩
    obtain ⟨n, hn⟩ := List.mem_iff_getElem?.mp ha
    have hbound : n < (t.outline source).length :=
      length_outline source t ▸ (List.getElem?_eq_some_iff.mp hn).1
    obtain ⟨b, hb, hspot'⟩ := h ⟨n, hbound⟩
    have hsame : a = b := Option.some.inj (hn.symm.trans hb)
    refine ⟨⟨n, hbound⟩, List.nodup_iff_injective_get.mp (Spot.nodup_spots t) ?_⟩
    rw [hspot', ← hsame, hspot]

end Places

/-- Whether or not all functions are kept, the entries of the outline are in bijection
with those that are. -/
theorem exists_bijective_kept (source : ByteArray) (t : ParseTree)
    (slots : ∀ p ∈ t.spots, p.SlotsDistinct)
    (leaves : ∀ u ∈ t.preorder, u.isPlainBinding = true → u.children = [])
    (lists : ∀ u ∈ t.preorder, ∀ l ∈ u.field? .parameters, l.isFunction = false) :
    ∃ place : Fin (t.outline source).length →
        { k : Fin t.spots.length // t.KeepsFunction (t.spots.get k) },
      Function.Bijective place ∧
        ∀ i, ((t.outline source).get i).line = (t.spots.get (place i)).node.info.row + 1 ∧
          ((t.outline source).get i).level =
            (t.spots.get (place i)).above.countP isFunction := by
  obtain ⟨place, hplace⟩ := t.exists_isPlacing source
  have hkept (i) : t.KeepsFunction (t.spots.get (place i)) :=
    (hplace.exists_eq_iff leaves (place i)).mp ⟨i, rfl⟩
  refine ⟨fun i => ⟨place i, hkept i⟩, ⟨fun i j hij => ?_, fun ⟨k, hk⟩ => ?_⟩,
    fun i => ⟨hplace.line i, hplace.level lists i⟩⟩
  · exact hplace.injective slots (congrArg Subtype.val hij)
  · obtain ⟨i, hi⟩ := (hplace.exists_eq_iff leaves k).mpr hk
    exact ⟨i, Subtype.ext hi⟩

/-- Five nodes are functions by kind. Two of them are keywords, the first children of others,
and have no entries. -/
example :
    (sampleDeclaration.spots.filter fun p => p.node.isFunction).map Spot.address =
        [[1, 1], [1, 1, 0], [1, 1, 3, 0, 0, 1], [1, 1, 3, 0, 0, 1, 0], [2, 1]] ∧
      (sampleDeclaration.functionArrivals sampleDeclarationSource).map (fun a => a.spot.address) =
        [[1, 1], [1, 1, 3, 0, 0, 1], [2, 1]] := by
  decide +kernel

/-- Suppose no child fills two slots of its parent, plain names have no children and
no list of parameters is a function itself. If every function of the tree is kept at
every step down from the root, the entries of the outline are in bijection with the
functions, each on the line of its function and at the level of its nesting. -/
theorem outline_complete (source : ByteArray) (t : ParseTree)
    (slots : ∀ p ∈ t.spots, p.SlotsDistinct)
    (leaves : ∀ u ∈ t.preorder, u.isPlainBinding = true → u.children = [])
    (lists : ∀ u ∈ t.preorder, ∀ l ∈ u.field? .parameters, l.isFunction = false)
    (kept : ∀ p ∈ t.spots, p.node.isFunction = true →
      Relation.ReflTransGen Spot.HasSlot (Spot.root t) p) :
    ∃ place : Fin (t.outline source).length →
        { k : Fin t.spots.length // (t.spots.get k).node.isFunction = true },
      Function.Bijective place ∧
        ∀ i, ((t.outline source).get i).line = (t.spots.get (place i)).node.info.row + 1 ∧
          ((t.outline source).get i).level =
            (t.spots.get (place i)).above.countP isFunction := by
  obtain ⟨place, hplace, hentries⟩ := t.exists_bijective_kept source slots leaves lists
  have hall (k : Fin t.spots.length) :
      t.KeepsFunction (t.spots.get k) ↔ (t.spots.get k).node.isFunction = true :=
    ⟨And.left, fun hfunction => ⟨hfunction, kept _ (List.get_mem _ _) hfunction⟩⟩
  exact ⟨Equiv.subtypeEquivRight hall ∘ place,
    (Equiv.subtypeEquivRight hall).bijective.comp hplace, hentries⟩

theorem kept_sampleMethod : ∀ p ∈ sampleMethod.spots, p.node.isFunction = true →
    Relation.ReflTransGen Spot.HasSlot (Spot.root sampleMethod) p := by
  intro p hp hfunction
  have hmem : p ∈ sampleMethod.spots.filter fun q => q.node.isFunction :=
    List.mem_filter.mpr ⟨hp, hfunction⟩
  change p ∈ [_, _, _, _, _] at hmem
  simp only [List.mem_cons, List.not_mem_nil, or_false] at hmem
  rcases hmem with rfl | rfl | rfl | rfl | rfl
  · exact .refl
  · exact .tail (.tail (.tail .refl (.decorator rfl (List.Mem.head _) rfl))
      (.nested rfl (List.Mem.head _))) (.nested rfl (List.Mem.head _))
  · exact .tail (.tail .refl (.computedName rfl rfl rfl)) (.nested rfl (List.Mem.head _))
  · exact .tail .refl (.parameterDefault rfl (List.Mem.head _) rfl)
  · exact .tail (.tail (.tail .refl (.body rfl rfl)) (.nested rfl (List.Mem.head _)))
      (.expression rfl rfl)

theorem outline_sampleMethod_complete :
    (sampleMethod.outline sampleMethodSource).map (fun e => (e.line, e.level)) =
        [(1, 0), (1, 1), (2, 1), (2, 1), (2, 1)] ∧
      ∃ place : Fin (sampleMethod.outline sampleMethodSource).length →
          { k : Fin sampleMethod.spots.length //
            (sampleMethod.spots.get k).node.isFunction = true },
        Function.Bijective place ∧
          ∀ i, ((sampleMethod.outline sampleMethodSource).get i).line =
              (sampleMethod.spots.get (place i)).node.info.row + 1 ∧
            ((sampleMethod.outline sampleMethodSource).get i).level =
              (sampleMethod.spots.get (place i)).above.countP isFunction :=
  ⟨by decide +kernel, outline_complete sampleMethodSource sampleMethod (by decide) (by decide)
    (by decide) kept_sampleMethod⟩

end ScriptOutline.ParseTree
