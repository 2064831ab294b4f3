import Mathlib.Data.List.Lex
import Mathlib.Data.List.Pairwise
import Mathlib.Order.Fin.Basic
import ScriptOutline.Proofs.Completeness

/-!
# Source order

The entries of an outline stand in the order of the functions in the tree, each on
the line of its function and at the level of its nesting. Main statement:
`outline_in_source_order`.
-/

namespace ScriptOutline.ParseTree

/-- Positions in preorder increase with addresses. -/
theorem lt_of_address_lt {t : ParseTree} {i j : Fin t.spots.length}
    (h : (t.spots.get i).address < (t.spots.get j).address) : i < j := by
  have hsorted := List.pairwise_iff_get.mp (Spot.pairwise_lt_within (Spot.root t))
  rcases lt_trichotomy i j with hlt | rfl | hgt
  · exact hlt
  · exact (lt_irrefl _ h).elim
  · exact (lt_asymm h (hsorted j i hgt)).elim

/-- If slots stand in order, so do the entries. -/
theorem IsPlacing.strictMono {source : ByteArray} {t : ParseTree}
    {place : Fin (t.outline source).length → Fin t.spots.length}
    (h : t.IsPlacing source place) (slots : ∀ p ∈ t.spots, p.SlotsInOrder) :
    StrictMono place := by
  have happart := Spot.pairwise_functionArrivals (fun _ _ h => h)
    (fun q hq => (slots q hq).apart) source
  intro i j hij
  obtain ⟨a, ha, hspot⟩ := h i
  obtain ⟨b, hb, hspot'⟩ := h j
  apply lt_of_address_lt
  rw [hspot, hspot']
  obtain ⟨hi, rfl⟩ := List.getElem?_eq_some_iff.mp ha
  obtain ⟨hj, rfl⟩ := List.getElem?_eq_some_iff.mp hb
  exact (List.pairwise_iff_getElem.mp happart i.val j.val hi hj hij).lt

/-- If the slots of every node stand in order, the entries of the outline belong to
different functions in preorder. Each has the line of its function and, as long as no
list of parameters is a function itself, for its level the number of functions around
it. So if rows do not decrease in preorder, lines do not decrease in the outline. The
functions are those that are kept, as long as plain names have no children. -/
theorem outline_in_source_order (source : ByteArray) (t : ParseTree)
    (slots : ∀ p ∈ t.spots, p.SlotsInOrder)
    (lists : ∀ u ∈ t.preorder, ∀ l ∈ u.field? .parameters, l.isFunction = false) :
    (∃ place : Fin (t.outline source).length → Fin t.spots.length,
        t.IsPlacing source place ∧
        StrictMono place ∧
          (∀ i, (t.spots.get (place i)).node.isFunction = true ∧
            ((t.outline source).get i).line = (t.spots.get (place i)).node.info.row + 1 ∧
              ((t.outline source).get i).level =
                (t.spots.get (place i)).above.countP isFunction) ∧
          ((∀ u ∈ t.preorder, u.isPlainBinding = true → u.children = []) →
            ∀ k, (∃ i, place i = k) ↔ t.KeepsFunction (t.spots.get k))) ∧
      ((t.preorder.map fun u => u.info.row).Pairwise (· ≤ ·) →
        ((t.outline source).map Entry.line).Pairwise (· ≤ ·)) := by
  obtain ⟨place, hplace⟩ := t.exists_isPlacing source
  have hmono := hplace.strictMono slots
  refine ⟨⟨place, hplace, hmono,
    fun i => ⟨hplace.isFunction i, hplace.line i, hplace.level lists i⟩,
    fun leaves => hplace.exists_eq_iff leaves⟩, fun hrows => ?_⟩
  rw [List.pairwise_map, List.pairwise_iff_get]
  intro i j hij
  rw [hplace.line, hplace.line]
  rw [← Spot.map_node_spots, List.map_map, List.pairwise_map, List.pairwise_iff_get] at hrows
  exact Nat.succ_le_succ (hrows _ _ (hmono hij))

/-- The outline of the method: itself, and then what stands in its decorator, its name,
the default and its body. -/
theorem outline_sampleMethod_in_source_order :
    sampleMethod.outline sampleMethodSource =
        [⟨"function", 1, .unnamed, 0, ["a=() => 0"]⟩, ⟨"function", 1, .unnamed, 1, []⟩,
          ⟨"function", 2, .unnamed, 1, []⟩, ⟨"function", 2, .unnamed, 1, []⟩,
          ⟨"function", 2, .unnamed, 1, []⟩] ∧
      (∃ place : Fin (sampleMethod.outline sampleMethodSource).length →
            Fin sampleMethod.spots.length,
          sampleMethod.IsPlacing sampleMethodSource place ∧
          StrictMono place ∧
            (∀ i, (sampleMethod.spots.get (place i)).node.isFunction = true ∧
              ((sampleMethod.outline sampleMethodSource).get i).line =
                  (sampleMethod.spots.get (place i)).node.info.row + 1 ∧
                ((sampleMethod.outline sampleMethodSource).get i).level =
                  (sampleMethod.spots.get (place i)).above.countP isFunction) ∧
            ∀ k, (∃ i, place i = k) ↔ sampleMethod.KeepsFunction (sampleMethod.spots.get k)) ∧
      ((sampleMethod.outline sampleMethodSource).map Entry.line).Pairwise (· ≤ ·) := by
  obtain ⟨⟨place, hplace, hmono, hentries, hkept⟩, hlines⟩ :=
    outline_in_source_order sampleMethodSource sampleMethod (by decide) (by decide)
  exact ⟨by decide +kernel, ⟨place, hplace, hmono, hentries, hkept (by decide)⟩,
    hlines (by decide)⟩

end ScriptOutline.ParseTree
