import ScriptOutline.Proofs.ArgumentTexts
import ScriptOutline.Proofs.Completeness

/-!
# Shapes and texts

Which functions an outline lists and at which levels is decided by the tree: a text only
decides which plain names are usable, and those have nothing below them. The outlines of
a tree on all texts are compared with the one on the empty text, where no name is usable
and every slot is kept. Main statement: `outline_shape_of_any_text`.
-/

namespace ScriptOutline

namespace ParseTree

theorem text_empty (t : ParseTree) : t.text ByteArray.empty = "" := by
  unfold text Text.slice Text.bytesBetween?
  split_ifs
  · have hnothing : ByteArray.empty.extract t.info.start t.info.stop = ByteArray.empty := by simp
    rw [hnothing]
    rfl
  · rfl

theorem identifier?_empty (t : ParseTree) : t.identifier? ByteArray.empty = none := by
  unfold identifier?
  rw [if_neg]
  exact fun h => h.2.2 t.text_empty

end ParseTree

namespace Spot

/-! ## Slots that a text takes away -/

section Slots

variable {β : Type} {F : Spot → List β} (source : ByteArray) {p : Spot}

/-- What a target comes to does not depend on the text, as long as plain names come to
nothing. -/
theorem flatMap_targetSlots (hname : p.unwrap.node.kind = "identifier" → F p.unwrap = []) :
    (p.targetSlots source).flatMap F = (p.targetSlots ByteArray.empty).flatMap F := by
  unfold targetSlots
  split_ifs with hkind husable hempty
  · rfl
  · simp [hname hkind]
  · simp [hname hkind]
  · rfl
  · rfl
  · rfl

theorem flatMap_declaratorSlots
    (hname : ∀ c, p.field? .name = some c → c.node.kind = "identifier" → F c = []) :
    (p.declaratorSlots source).flatMap F = (p.declaratorSlots ByteArray.empty).flatMap F := by
  have hempty : Code.declaredName? ByteArray.empty p.node = none := by
    simp [Code.declaredName?, ParseTree.identifier?_empty]
  have husable : (Code.declaredName? source p.node).isSome = true →
      ∀ c, p.field? .name = some c → F c = [] := by
    intro h c hc
    apply hname c hc
    by_contra hkind
    rw [declaredName?_of_pattern source hc hkind] at h
    cases h
  simp only [declaratorSlots, List.flatMap_append]
  rw [hempty]
  congr 1
  by_cases h : (Code.declaredName? source p.node).isSome = true
  · rw [if_pos h]
    cases hc : p.field? .name with
    | none => rfl
    | some c => simp [husable h c hc]
  · rw [if_neg h]
    rfl

/-- What the slots of a spot come to does not depend on the text, as long as plain names
come to nothing. -/
theorem flatMap_slots {t : ParseTree} (hp : p ∈ t.spots)
    (hname : ∀ c ∈ t.spots, c.node.kind = "identifier" → F c = []) :
    (p.slots source).flatMap F = (p.slots ByteArray.empty).flatMap F := by
  have hfield {f : Field} {c : Spot} (hc : p.field? f = some c) : c ∈ t.spots :=
    mem_within_of_mem_children (q := root t) hp (mem_children_of_field? hc)
  unfold slots
  cases Construct.ofKind p.node.kind with
  | declarator => exact flatMap_declaratorSlots source fun c hc => hname c (hfield hc)
  | assignment =>
      simp only [assignmentSlots, List.flatMap_append, List.flatMap_assoc]
      congr 1
      apply List.flatMap_congr
      intro left hleft
      have hspot : left.unwrap ∈ t.spots :=
        unwrap_closed (S := fun c => c ∈ t.spots)
          (fun _ _ hq _ hd => mem_within_of_mem_children (q := root t) hq hd)
          (hfield (Option.mem_toList.mp hleft))
      exact flatMap_targetSlots source (hname left.unwrap hspot)
  | _ => rfl

end Slots

/-! ## Functions and their levels -/

/-- The functions that the outline comes to, each with the level it brings. -/
def leveledFunctions (source : ByteArray) (hint : String) (level : Nat) (p : Spot) :
    List (Spot × Nat) :=
  ((p.arrivals source hint level).filter Arrival.isFunction).map fun a => (a.spot, a.level)

variable (source : ByteArray) (hint : String) (level : Nat) {p : Spot}

theorem leveledFunctions_eq (p : Spot) :
    p.leveledFunctions source hint level =
      (if p.node.isFunction then [(p, level)] else []) ++
        (p.slots source).flatMap
          (leveledFunctions source (p.hintBelow source hint) (p.levelBelow level)) := by
  rw [leveledFunctions, arrivals_eq, List.filter_cons, List.filter_flatMap, Arrival.isFunction]
  cases p.node.isFunction with
  | true => exact congrArg (List.cons _) List.map_flatMap
  | false => exact List.map_flatMap

theorem leveledFunctions_of_leaf (hkind : p.node.kind = "identifier")
    (hleaf : p.node.children = []) : p.leveledFunctions source hint level = [] := by
  have hconstruct : Construct.ofKind p.node.kind = .other := by
    rw [hkind]
    rfl
  have hslots : p.slots source = [] := by
    rw [slots, hconstruct]
    simp [plainChildren, children, hleaf]
  rw [leveledFunctions_eq, hslots, ParseTree.isFunction, hconstruct]
  rfl

/-- The functions that the outline comes to and their levels are those on the empty text,
whatever the hints. -/
theorem leveledFunctions_eq_empty {t : ParseTree} (hp : p ∈ t.spots)
    (leaves : ∀ c ∈ t.spots, c.node.kind = "identifier" → c.node.children = [])
    (hint' : String) :
    p.leveledFunctions source hint level = p.leveledFunctions ByteArray.empty hint' level := by
  induction p using inductionOnSize generalizing hint hint' level with
  | step p ih =>
      have hslots : ∀ c ∈ p.slots source,
          c.leveledFunctions source (p.hintBelow source hint) (p.levelBelow level) =
            c.leveledFunctions ByteArray.empty (p.hintBelow ByteArray.empty hint')
              (p.levelBelow level) := by
        intro c hc
        have hbelow := below_of_mem_slots hc
        exact ih c hbelow.size_lt _ _ (hbelow.mem_spots hp) _
      have hname : ∀ c ∈ t.spots, c.node.kind = "identifier" →
          c.leveledFunctions ByteArray.empty (p.hintBelow ByteArray.empty hint')
            (p.levelBelow level) = [] :=
        fun c hc hkind => leveledFunctions_of_leaf _ _ _ hkind (leaves c hc hkind)
      rw [leveledFunctions_eq, List.flatMap_congr hslots, flatMap_slots source hp hname,
        ← leveledFunctions_eq]

end Spot

namespace ParseTree

/-! ## Shapes of outlines -/

theorem category_eq_generator_iff (name : String) (generator : Bool) :
    Category.of name generator = .generator ↔ generator = true := by
  cases generator with
  | true => exact iff_of_true rfl rfl
  | false =>
      refine iff_of_false ?_ Bool.false_ne_true
      show Category.ofName name ≠ .generator
      unfold Category.ofName
      split_ifs
      · exact fun h => by cases h
      · split
        · exact fun h => by cases h
        · split_ifs <;> exact fun h => by cases h

/-- If plain names have nothing below them, the outlines of a tree on any two texts have
the same number of entries, and entries at the same place agree on line, level and number
of arguments and on whether they are generators. The texts need not fit the tree. -/
theorem outline_shape_of_any_text (t : ParseTree)
    (leaves : ∀ u ∈ t.preorder, u.kind ∈ identifierKinds → u.children = [])
    (first second : ByteArray) :
    (t.outline first).length = (t.outline second).length ∧
      ∀ (i : Nat) (e f : Entry), (t.outline first)[i]? = some e →
        (t.outline second)[i]? = some f →
          e.line = f.line ∧ e.level = f.level ∧ e.args.length = f.args.length ∧
            (e.category = .generator ↔ f.category = .generator) := by
  have hleaves : ∀ c ∈ t.spots, c.node.kind = "identifier" → c.node.children = [] := by
    intro c hc hkind
    exact leaves c.node (Spot.node_mem_preorder hc) (by rw [hkind]; decide)
  have hsame : (t.functionArrivals first).map (fun a => (a.spot, a.level)) =
      (t.functionArrivals second).map fun a => (a.spot, a.level) := by
    have hempty (source : ByteArray) :=
      Spot.leveledFunctions_eq_empty source "" 0 (Spot.self_mem_within (Spot.root t)) hleaves ""
    exact (hempty first).trans (hempty second).symm
  refine ⟨?_, fun i e f he hf => ?_⟩
  · rw [outline_eq_map_entry, outline_eq_map_entry, List.length_map, List.length_map]
    simpa using congrArg List.length hsame
  · rw [outline_eq_map_entry, List.getElem?_map, Option.map_eq_some_iff] at he hf
    obtain ⟨a, ha, rfl⟩ := he
    obtain ⟨b, hb, rfl⟩ := hf
    have hplace := congrArg (fun reached => reached[i]?) hsame
    simp only [List.getElem?_map, ha, hb, Option.map_some, Option.some.injEq,
      Prod.mk.injEq] at hplace
    obtain ⟨hspot, hlevel⟩ := hplace
    refine ⟨?_, hlevel, ?_, ?_⟩
    · show a.spot.node.info.row + 1 = b.spot.node.info.row + 1
      rw [hspot]
    · rw [Arrival.args_entry, Arrival.args_entry, List.length_map, List.length_map, hspot]
    · show Category.of _ a.spot.node.isGenerator = .generator ↔
        Category.of _ b.spot.node.isGenerator = .generator
      rw [category_eq_generator_iff, category_eq_generator_iff, hspot]

def declaredArrowSource : ByteArray := "f = () => 0".toUTF8

/-- A declarator that names an arrow function, if its text can be read. -/
def declaredArrow : ParseTree :=
  node ⟨"variable_declarator", true, false, false, 0, 11, 0, []⟩
    [node ⟨"identifier", true, false, false, 0, 1, 0, [.name]⟩ [], sampleArrow 4 0 [.value]]

/-- Bytes that are no text change the name of the function and nothing else. -/
theorem outline_shape_declaredArrow :
    (declaredArrow.outline declaredArrowSource).map Entry.name = ["f"] ∧
      (declaredArrow.outline ⟨#[0xFF]⟩).map Entry.name = ["function"] ∧
      (declaredArrow.outline declaredArrowSource).length =
        (declaredArrow.outline ⟨#[0xFF]⟩).length ∧
      ∀ (i : Nat) (e f : Entry), (declaredArrow.outline declaredArrowSource)[i]? = some e →
        (declaredArrow.outline ⟨#[0xFF]⟩)[i]? = some f →
          e.line = f.line ∧ e.level = f.level ∧ e.args.length = f.args.length ∧
            (e.category = .generator ↔ f.category = .generator) :=
  ⟨by decide +kernel, by decide +kernel,
    outline_shape_of_any_text declaredArrow (by decide) declaredArrowSource ⟨#[0xFF]⟩⟩

end ParseTree

end ScriptOutline
