import ScriptOutline.Proofs.Arrivals

/-!
# The order of slots

Grammars keep the children that fill the slots of a node apart and in source order.
Here this becomes a condition on the children alone, for any relation between their
positions, and is carried over to the slots and to all arrivals.
-/

namespace ScriptOutline.Spot

open Address (Fork Precedes)

/-! ## Children that slots come from -/

/-- The children of a node that its slots come from or lie below, slot by slot. Only
nodes of which two slots need such children have any. -/
def slotChildren (p : Spot) : List Spot :=
  match Construct.ofKind p.node.kind with
  | .function =>
      (p.plainChildren.filter fun c => c.node.kind == "decorator") ++
        ((p.field? .name).toList ++
          (((p.field? .parameters).or (p.field? .parameter)).toList ++ (p.field? .body).toList))
  | .declarator => (p.field? .name).toList ++ (p.field? .value).toList
  | .assignment => (p.field? .left).toList ++ (p.field? .right).toList
  | .property => p.key?.toList ++ (p.field? .value).toList
  | _ =>
      if p.node.kind = "assignment_pattern" then
        (p.field? .left).toList ++ (p.field? .right).toList
      else if p.node.kind = "required_parameter" ∨ p.node.kind = "optional_parameter" then
        (p.field? .pattern).toList ++ (p.field? .value).toList
      else []

/-- The children that fill the slots of a node stand in the order of the slots. -/
def SlotsInOrder (p : Spot) : Prop :=
  p.slotChildren.Pairwise fun c d => c.address < d.address

/-- No child of a node fills two slots. -/
def SlotsDistinct (p : Spot) : Prop :=
  p.slotChildren.Pairwise fun c d => c.address ≠ d.address

instance (p : Spot) : Decidable p.SlotsInOrder :=
  inferInstanceAs (Decidable (p.slotChildren.Pairwise fun c d => c.address < d.address))

instance (p : Spot) : Decidable p.SlotsDistinct :=
  inferInstanceAs (Decidable (p.slotChildren.Pairwise fun c d => c.address ≠ d.address))

/-- The children that slots come from stand to each other as a relation between
positions says. -/
def SlotsApart (R : Nat → Nat → Prop) (p : Spot) : Prop :=
  p.slotChildren.Pairwise fun c d => Fork R c.address d.address

theorem mem_children_of_mem_slotChildren {c p : Spot} (h : c ∈ p.slotChildren) :
    c ∈ p.children := by
  have hfield {f : Field} (hc : p.field? f = some c) : c ∈ p.children := mem_children_of_field? hc
  unfold slotChildren at h
  split at h
  · simp only [List.mem_append, List.mem_filter, Option.mem_toList, Option.or_eq_some_iff] at h
    rcases h with ⟨h, -⟩ | h | (h | ⟨-, h⟩) | h
    · exact mem_children_of_mem_plainChildren h
    all_goals exact hfield h
  · simp only [List.mem_append, Option.mem_toList] at h
    exact h.elim hfield hfield
  · simp only [List.mem_append, Option.mem_toList] at h
    exact h.elim hfield hfield
  · simp only [List.mem_append, Option.mem_toList] at h
    exact h.elim mem_children_of_key? hfield
  · split at h
    · simp only [List.mem_append, Option.mem_toList] at h
      exact h.elim hfield hfield
    · split at h
      · simp only [List.mem_append, Option.mem_toList] at h
        exact h.elim hfield hfield
      · cases h

/-- For children of one node it is enough to compare addresses. -/
theorem slotsApart_of_pairwise {R : Nat → Nat → Prop} {T : Address → Address → Prop}
    (hT : ∀ (a : Address) (i j : Nat), T (a ++ [i]) (a ++ [j]) → R i j) {p : Spot}
    (h : p.slotChildren.Pairwise fun c d => T c.address d.address) : p.SlotsApart R := by
  apply h.imp_of_mem
  intro c d hc hd hcd
  obtain ⟨i, hi⟩ := address_of_mem_children (mem_children_of_mem_slotChildren hc)
  obtain ⟨j, hj⟩ := address_of_mem_children (mem_children_of_mem_slotChildren hd)
  rw [hi, hj] at hcd ⊢
  exact Address.fork_append_singleton (hT _ i j hcd)

theorem SlotsInOrder.apart {p : Spot} (h : p.SlotsInOrder) : p.SlotsApart (· < ·) :=
  slotsApart_of_pairwise (T := (· < ·)) (fun _ _ _ => Address.append_singleton_lt_iff.mp) h

theorem SlotsDistinct.apart {p : Spot} (h : p.SlotsDistinct) : p.SlotsApart (· ≠ ·) :=
  slotsApart_of_pairwise (T := (· ≠ ·))
    (fun a _ _ hne heq => hne (congrArg (fun i => a ++ [i]) heq)) h

/-! ## Spots below spots that are apart -/

/-- Spots that are apart, each at or below one of some other spots. -/
structure Refines (R : Nat → Nat → Prop) (parents spots : List Spot) : Prop where
  covered : ∀ c ∈ spots, ∃ d ∈ parents, d.address <+: c.address
  apart : spots.Pairwise fun c d => Fork R c.address d.address

variable {R : Nat → Nat → Prop} {p : Spot} {parents parents' spots spots' : List Spot}

theorem Refines.of_sublist (h : spots.Sublist parents)
    (hapart : parents.Pairwise fun c d => Fork R c.address d.address) :
    Refines R parents spots where
  covered := fun c hc => ⟨c, h.subset hc, List.prefix_rfl⟩
  apart := hapart.sublist h

theorem Refines.cross (h : Refines R parents spots) (h' : Refines R parents' spots')
    (hcross : ∀ c ∈ parents, ∀ d ∈ parents', Fork R c.address d.address) :
    ∀ c ∈ spots, ∀ d ∈ spots', Fork R c.address d.address := by
  intro c hc d hd
  obtain ⟨c', hc', hleads⟩ := h.covered c hc
  obtain ⟨d', hd', hleads'⟩ := h'.covered d hd
  exact (hcross c' hc' d' hd').mono hleads hleads'

/-- Refining what stands in front and what follows refines the whole. -/
theorem Refines.append (h : Refines R parents spots) (h' : Refines R parents' spots')
    (hcross : ∀ c ∈ parents, ∀ d ∈ parents', Fork R c.address d.address) :
    Refines R (parents ++ parents') (spots ++ spots') where
  covered := by
    intro c hc
    rcases List.mem_append.mp hc with hc | hc
    · obtain ⟨d, hd, hleads⟩ := h.covered c hc
      exact ⟨d, List.mem_append_left _ hd, hleads⟩
    · obtain ⟨d, hd, hleads⟩ := h'.covered c hc
      exact ⟨d, List.mem_append_right _ hd, hleads⟩
  apart := List.pairwise_append.mpr ⟨h.apart, h'.apart, h.cross h' hcross⟩

theorem Refines.flatMap {f : Spot → List Spot}
    (hparents : parents.Pairwise fun c d => Fork R c.address d.address)
    (h : ∀ e ∈ parents, Refines R [e] (f e)) : Refines R parents (parents.flatMap f) where
  covered := by
    intro c hc
    obtain ⟨e, he, hc⟩ := List.mem_flatMap.mp hc
    obtain ⟨d, hd, hleads⟩ := (h e he).covered c hc
    exact ⟨e, he, List.mem_singleton.mp hd ▸ hleads⟩
  apart := by
    rw [List.pairwise_flatMap]
    refine ⟨fun e he => (h e he).apart, ?_⟩
    apply hparents.imp_of_mem
    intro c d hc hd hfork
    apply (h c hc).cross (h d hd)
    intro c' hc' d' hd'
    rw [List.mem_singleton.mp hc', List.mem_singleton.mp hd']
    exact hfork

theorem Refines.of_option {part : Option Spot} {f : Spot → List Spot}
    (hmem : ∀ e, part = some e → ∀ c ∈ f e, c ∈ e.within)
    (hlength : ∀ e, part = some e → (f e).length ≤ 1) :
    Refines R part.toList (part.toList.flatMap f) := by
  cases part with
  | none => exact ⟨fun c hc => (List.not_mem_nil hc).elim, List.Pairwise.nil⟩
  | some e =>
      rw [Option.toList_some, List.flatMap_singleton]
      refine ⟨fun c hc => ?_, ?_⟩
      · exact ⟨e, List.mem_singleton_self e, prefix_of_mem_within (hmem e rfl c hc)⟩
      · have hone := hlength e rfl
        match hf : f e with
        | [] => exact List.Pairwise.nil
        | [c] => exact List.pairwise_singleton _ c
        | _ :: _ :: _ =>
            rw [hf] at hone
            simp at hone

/-! ## The slots of one spot -/

theorem mem_within_step {e : Spot} (q d : Spot) (hq : q ∈ e.within)
    (_ : q.node.kind ∈ passedKinds) (hd : d ∈ q.children) : d ∈ e.within :=
  mem_within_of_mem_children hq hd

theorem pairwise_toList (part : Option Spot) :
    part.toList.Pairwise fun c d => Fork R c.address d.address := by
  cases part with
  | none => exact List.Pairwise.nil
  | some c => exact List.pairwise_singleton _ c

theorem fork_of_pairwise_fields {first second : Option Spot} {c d : Spot}
    (h : (first.toList ++ second.toList).Pairwise fun c d => Fork R c.address d.address)
    (hc : first = some c) (hd : second = some d) : Fork R c.address d.address :=
  (List.pairwise_append.mp h).2.2 c (Option.mem_toList.mpr hc) d (Option.mem_toList.mpr hd)

theorem slotChildren_of_default {e : Spot} (h : e.node.kind = "assignment_pattern") :
    e.slotChildren = (e.field? .left).toList ++ (e.field? .right).toList := by
  rw [slotChildren, h]
  rfl

theorem slotChildren_of_typed {e : Spot}
    (h : e.node.kind = "required_parameter" ∨ e.node.kind = "optional_parameter") :
    e.slotChildren = (e.field? .pattern).toList ++ (e.field? .value).toList := by
  rcases h with h | h <;> (rw [slotChildren, h]; rfl)

/-- The binding of a parameter and its default are apart. -/
theorem fork_binding_default {b d e : Spot} (h : e.SlotsApart R) (hb : e.binding? = some b)
    (hd : e.default? = some d) : Fork R b.address d.address := by
  unfold binding? at hb
  unfold default? at hd
  by_cases hdefault : e.node.kind = "assignment_pattern"
  · rw [if_pos hdefault] at hb hd
    exact fork_of_pairwise_fields (slotChildren_of_default hdefault ▸ h) hb hd
  · rw [if_neg hdefault] at hb hd
    by_cases htyped : e.node.kind = "required_parameter" ∨ e.node.kind = "optional_parameter"
    · rw [if_pos htyped] at hb hd
      exact fork_of_pairwise_fields (slotChildren_of_typed htyped ▸ h) hb hd
    · rw [if_neg htyped] at hd
      cases hd

theorem refines_parameterSlots {e : Spot} (h : e.SlotsApart R) :
    Refines R [e] e.parameterSlots where
  covered := by
    intro c hc
    have hwithin := parameterSlots_closed mem_within_step (self_mem_within e) hc
    exact ⟨e, List.mem_singleton_self e, prefix_of_mem_within hwithin⟩
  apart := by
    refine List.pairwise_append.mpr ⟨pairwise_toList _, pairwise_toList _, ?_⟩
    intro c hc d hd
    obtain ⟨b, hb, hc⟩ := Option.bind_eq_some_iff.mp (Option.mem_toList.mp hc)
    have hwithin := bindingPattern?_closed mem_within_step (self_mem_within b) hc
    have hfork := fork_binding_default h hb (Option.mem_toList.mp hd)
    exact hfork.mono (prefix_of_mem_within hwithin) List.prefix_rfl

theorem refines_formalParameters (hR : ∀ i j, i < j → R i j) (p : Spot)
    (h : ∀ e ∈ p.formalParameters, e.SlotsApart R) :
    Refines R ((p.field? .parameters).or (p.field? .parameter)).toList
      (p.formalParameters.flatMap parameterSlots) := by
  have happart : p.formalParameters.Pairwise fun c d => Fork R c.address d.address := by
    unfold formalParameters
    split
    · rename_i list _
      exact (pairwise_children hR list).sublist List.filter_sublist
    · exact pairwise_toList _
  have hentries := Refines.flatMap happart fun e he => refines_parameterSlots (h e he)
  refine ⟨fun c hc => ?_, hentries.apart⟩
  obtain ⟨e, he, hleads⟩ := hentries.covered c hc
  unfold formalParameters at he
  split at he
  · rename_i list hlist
    obtain ⟨i, hi⟩ := address_of_mem_children (mem_children_of_mem_plainChildren he)
    refine ⟨list, by simp [hlist], (List.prefix_append list.address [i]).trans ?_⟩
    exact hi ▸ hleads
  · rename_i hnone
    exact ⟨e, by simpa [hnone] using he, hleads⟩

theorem targetSlots_length_le (source : ByteArray) (p : Spot) :
    (p.targetSlots source).length ≤ 1 := by
  unfold targetSlots
  split
  · split <;> simp
  · split
    · exact Option.length_toList_le
    · simp

theorem pairwise_functionSlots (hR : ∀ i j, i < j → R i j) {p : Spot}
    (hkind : Construct.ofKind p.node.kind = .function) (h : p.SlotsApart R)
    (hparameters : ∀ e ∈ p.formalParameters, e.SlotsApart R) :
    p.functionSlots.Pairwise fun c d => Fork R c.address d.address := by
  rw [SlotsApart, slotChildren, hkind] at h
  obtain ⟨hdecorators, hrest, hcross⟩ := List.pairwise_append.mp h
  obtain ⟨hname, hrest', hcross'⟩ := List.pairwise_append.mp hrest
  obtain ⟨hlist, hbody, hcross''⟩ := List.pairwise_append.mp hrest'
  have hcomputed : Refines R (p.field? .name).toList
      ((p.field? .name).filter fun c => Code.isComputedName c.node).toList :=
    .of_sublist (by rw [Option.toList_filter]; exact List.filter_sublist) hname
  have hbodies := (refines_formalParameters hR p hparameters).append
    (.of_sublist (List.Sublist.refl _) hbody) hcross''
  have hnames := hcomputed.append hbodies hcross'
  exact ((Refines.of_sublist (List.Sublist.refl _) hdecorators).append hnames hcross).apart

/-- Slots are apart if the children that they come from are. -/
theorem pairwise_slots (hR : ∀ i j, i < j → R i j) (source : ByteArray) {p : Spot}
    (h : p.SlotsApart R) (hparameters : ∀ e ∈ p.formalParameters, e.SlotsApart R) :
    (p.slots source).Pairwise fun c d => Fork R c.address d.address := by
  have hplain : p.plainChildren.Pairwise fun c d => Fork R c.address d.address :=
    (pairwise_children hR p).sublist List.filter_sublist
  rw [slots]
  cases hkind : Construct.ofKind p.node.kind with
  | function => exact pairwise_functionSlots hR hkind h hparameters
  | declarator =>
      rw [SlotsApart, slotChildren, hkind] at h
      refine h.sublist (List.Sublist.append ?_ (List.Sublist.refl _))
      split
      · exact List.nil_sublist _
      · exact List.Sublist.refl _
  | statement => exact pairwise_toList _
  | assignment =>
      rw [SlotsApart, slotChildren, hkind] at h
      obtain ⟨-, hright, hcross⟩ := List.pairwise_append.mp h
      have htarget : Refines R (p.field? .left).toList
          ((p.field? .left).toList.flatMap (targetSlots source)) :=
        .of_option (fun e _ c hc => targetSlots_closed mem_within_step (self_mem_within e) hc)
          fun e _ => targetSlots_length_le source e
      exact (htarget.append (.of_sublist (List.Sublist.refl _) hright) hcross).apart
  | property =>
      rw [SlotsApart, slotChildren, hkind] at h
      refine h.sublist (List.Sublist.append ?_ (List.Sublist.refl _))
      rw [Option.toList_filter]
      exact List.filter_sublist
  | shorthandDefault =>
      dsimp only
      split
      · exact pairwise_toList _
      · exact hplain
  | string => exact List.Pairwise.nil
  | plainLiteral => exact List.Pairwise.nil
  | other => exact hplain

/-! ## All arrivals -/

/-- Arrivals come in preorder, as far as positions are told apart by the relation. -/
theorem pairwise_arrivals (hR : ∀ i j, i < j → R i j) {t : ParseTree}
    (h : ∀ q ∈ t.spots, q.SlotsApart R) (source : ByteArray) (hint : String) (level : Nat)
    {p : Spot} (hp : p ∈ t.spots) :
    (p.arrivals source hint level).Pairwise fun a b =>
      Precedes R a.spot.address b.spot.address := by
  induction p using inductionOnSize generalizing hint level with
  | step p ih =>
      have hleads {c : Spot} {a : Arrival}
          (ha : a ∈ c.arrivals source (p.hintBelow source hint) (p.levelBelow level)) :
          c.address <+: a.spot.address :=
        prefix_of_mem_within (mem_within_of_mem_arrivals ha)
      rw [arrivals_eq, List.pairwise_cons, List.pairwise_flatMap]
      refine ⟨?_, ?_, ?_⟩
      · intro a ha
        obtain ⟨c, hc, ha⟩ := List.mem_flatMap.mp ha
        obtain ⟨i, hi⟩ := (below_of_mem_slots hc).exists_position
        exact .inl ⟨i, hi.trans (hleads ha)⟩
      · intro c hc
        have hbelow := below_of_mem_slots hc
        exact ih c hbelow.size_lt _ _ (hbelow.mem_spots hp)
      · have hslots := pairwise_slots hR source (h p hp) fun e he =>
          h e ((below_of_mem_formalParameters he).mem_spots hp)
        exact hslots.imp fun hfork a ha b hb => .inr (hfork.mono (hleads ha) (hleads hb))

theorem pairwise_functionArrivals (hR : ∀ i j, i < j → R i j) {t : ParseTree}
    (h : ∀ q ∈ t.spots, q.SlotsApart R) (source : ByteArray) :
    (t.functionArrivals source).Pairwise fun a b =>
      Precedes R a.spot.address b.spot.address :=
  (pairwise_arrivals hR h source "" 0 (self_mem_within (root t))).filter _

end ScriptOutline.Spot

/-! ## Trees with functions in their slots -/

namespace ScriptOutline.ParseTree

/-- The tree of `() => 0` at a place in a source. -/
def sampleArrow (start row : Nat) (fields : List Field) : ParseTree :=
  node ⟨"arrow_function", true, false, false, start, start + 7, row, fields⟩
    [node ⟨"formal_parameters", true, false, false, start, start + 2, row, [.parameters]⟩ [],
      node ⟨"number", true, false, false, start + 6, start + 7, row, [.body]⟩ []]

def sampleMethodSource : ByteArray :=
  "@(() => 0)\n[() => 0](a = () => 0) { () => 0 }".toUTF8

/-- A method with a function in its decorator, its name, a default and its body. -/
def sampleMethod : ParseTree :=
  node ⟨"method_definition", true, false, false, 0, 45, 0, []⟩
    [node ⟨"decorator", true, false, false, 0, 10, 0, []⟩
        [node ⟨"parenthesized_expression", true, false, false, 1, 10, 0, []⟩
          [sampleArrow 2 0 []]],
      node ⟨"computed_property_name", true, false, false, 11, 20, 1, [.name]⟩
        [sampleArrow 12 1 []],
      node ⟨"formal_parameters", true, false, false, 20, 33, 1, [.parameters]⟩
        [node ⟨"assignment_pattern", true, false, false, 21, 32, 1, []⟩
          [node ⟨"identifier", true, false, false, 21, 22, 1, [.left]⟩ [],
            sampleArrow 25 1 [.right]]],
      node ⟨"statement_block", true, false, false, 34, 45, 1, [.body]⟩
        [node ⟨"expression_statement", true, false, false, 36, 43, 1, []⟩
          [sampleArrow 36 1 []]]]

def sampleDeclarationSource : ByteArray :=
  "var x = function* f(\x7bcb = function () \x7b\x7d\x7d) \x7b\x7d, y = () => 0".toUTF8

/-- A declaration of three functions on one line, with the keywords and the asterisk that
the parser keeps as nodes. -/
def sampleDeclaration : ParseTree :=
  node ⟨"variable_declaration", true, false, false, 0, 58, 0, []⟩
    [node ⟨"var", false, false, false, 0, 3, 0, []⟩ [],
      node ⟨"variable_declarator", true, false, false, 4, 45, 0, []⟩
        [node ⟨"identifier", true, false, false, 4, 5, 0, [.name]⟩ [],
          node ⟨"generator_function", true, false, false, 8, 45, 0, [.value]⟩
            [node ⟨"function", false, false, false, 8, 16, 0, []⟩ [],
              node ⟨"*", false, false, false, 16, 17, 0, []⟩ [],
              node ⟨"identifier", true, false, false, 18, 19, 0, [.name]⟩ [],
              node ⟨"formal_parameters", true, false, false, 19, 42, 0, [.parameters]⟩
                [node ⟨"object_pattern", true, false, false, 20, 41, 0, []⟩
                  [node ⟨"object_assignment_pattern", true, false, false, 21, 40, 0, []⟩
                    [node ⟨"shorthand_property_identifier_pattern", true, false, false, 21, 23, 0,
                        [.left]⟩ [],
                      node ⟨"function_expression", true, false, false, 26, 40, 0, [.right]⟩
                        [node ⟨"function", false, false, false, 26, 34, 0, []⟩ [],
                          node ⟨"formal_parameters", true, false, false, 35, 37, 0,
                            [.parameters]⟩ [],
                          node ⟨"statement_block", true, false, false, 38, 40, 0, [.body]⟩ []]]]],
              node ⟨"statement_block", true, false, false, 43, 45, 0, [.body]⟩ []]],
      node ⟨"variable_declarator", true, false, false, 47, 58, 0, []⟩
        [node ⟨"identifier", true, false, false, 47, 48, 0, [.name]⟩ [],
          sampleArrow 51 0 [.value]]]

end ScriptOutline.ParseTree
