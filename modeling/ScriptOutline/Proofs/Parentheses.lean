import Mathlib.Logic.Relation
import ScriptOutline.Proofs.Renditions
import ScriptOutline.Proofs.SlotOrder

/-!
# Parentheses

Where a tree is read as an expression, or as what an assignment writes to, a node can
stand with parentheses around it or without them. Taking them away changes the code in the
recorded sources of defaults at most, and the outline in the arguments at most. Main
statement: `outline_of_unparenthesized`.
-/

namespace ScriptOutline

namespace ParseTree

/-! ## Replacing a node -/

def replaceAt (u : ParseTree) : Address → ParseTree → ParseTree
  | [], _ => u
  | i :: rest, node info children => node info (children.modify i (replaceAt u rest))

@[simp] theorem replaceAt_nil (u t : ParseTree) : replaceAt u [] t = u := rfl

theorem info_replaceAt_cons (u t : ParseTree) (i : Nat) (rest : Address) :
    (replaceAt u (i :: rest) t).info = t.info := by
  cases t
  rfl

theorem children_replaceAt_cons (u t : ParseTree) (i : Nat) (rest : Address) :
    (replaceAt u (i :: rest) t).children = t.children.modify i (replaceAt u rest) := by
  cases t
  rfl

end ParseTree

namespace Spot

def replaced (a : Address) (u : ParseTree) (q : Spot) : ParseTree :=
  if q.address <+: a then u.replaceAt (a.drop q.address.length) q.node else q.node

variable {a : Address} {u : ParseTree} {q : Spot}

theorem replaced_root (a : Address) (u t : ParseTree) : (root t).replaced a u = u.replaceAt a t :=
  if_pos List.nil_prefix

theorem replaced_append (rest : Address) :
    q.replaced (q.address ++ rest) u = u.replaceAt rest q.node := by
  rw [replaced, if_pos (List.prefix_append _ _), List.drop_left]

theorem replaced_of_address_eq (h : q.address = a) : q.replaced a u = u := by
  rw [← h, ← List.append_nil q.address, replaced_append, ParseTree.replaceAt_nil]

theorem replaced_of_not_leads (h : ¬ q.address <+: a) : q.replaced a u = q.node := if_neg h

theorem replaced_child (part : ParseTree × Nat) (i : Nat) (rest : Address) :
    (q.child part).replaced (q.address ++ i :: rest) u =
      if i = part.2 then u.replaceAt rest part.1 else part.1 := by
  split
  · rename_i hi
    have hleads : q.address ++ i :: rest = (q.child part).address ++ rest := by
      rw [hi, child, List.append_assoc]
      rfl
    rw [hleads, replaced_append]
    rfl
  · rename_i hi
    refine replaced_of_not_leads fun hleads => hi ?_
    rw [child, List.prefix_append_right_inj, List.cons_prefix_cons] at hleads
    exact hleads.1.symm

theorem info_replaced (h : q.address ≠ a) : (q.replaced a u).info = q.node.info := by
  by_cases hleads : q.address <+: a
  · obtain ⟨rest, rfl⟩ := hleads
    cases rest with
    | nil => exact (h (List.append_nil _).symm).elim
    | cons i rest => rw [replaced_append, ParseTree.info_replaceAt_cons]
  · rw [replaced_of_not_leads hleads]

theorem children_replaced (h : q.address ≠ a) :
    (q.replaced a u).children = q.children.map (replaced a u) := by
  by_cases hleads : q.address <+: a
  · obtain ⟨rest, rfl⟩ := hleads
    cases rest with
    | nil => exact (h (List.append_nil _).symm).elim
    | cons i rest =>
        rw [replaced_append, ParseTree.children_replaceAt_cons, children, List.map_map]
        apply List.ext_getElem?
        intro j
        rw [List.getElem?_modify, List.getElem?_map, List.getElem?_zipIdx, Option.map_map]
        refine congrArg (fun g => Option.map g _) (funext fun c => ?_)
        rw [Function.comp, Function.comp, replaced_child, Nat.zero_add]
  · have hchildren : ∀ c ∈ q.children, c.replaced a u = c.node := by
      intro c hc
      obtain ⟨i, hi⟩ := address_of_mem_children hc
      refine replaced_of_not_leads fun hbelow => hleads ?_
      exact (hi ▸ List.prefix_append _ _ : q.address <+: c.address).trans hbelow
    rw [replaced_of_not_leads hleads, List.map_congr_left hchildren, map_node_children]

end Spot

namespace ParseTree

/-! ## Expression slots -/

/-- Wherever the node at an address is read, it is as an expression or as what an assignment
writes to. A node that also serves as a name or in a list of parameters is read as such too;
its parentheses count there. -/
def ReadAsExpression (t : ParseTree) (a : Address) : Prop :=
  ∀ x ∈ t.readings, x.spot.address = a → x.role = .expression ∨ x.role = .target

instance (t : ParseTree) (a : Address) : Decidable (t.ReadAsExpression a) :=
  inferInstanceAs (Decidable (∀ x ∈ t.readings, x.spot.address = a → _))

/-- In a tree in which no child serves two places, one such reading is enough. -/
theorem readAsExpression_of_placesDistinct {t : ParseTree}
    (distinct : ∀ y ∈ t.readings, y.PlacesDistinct) {x : Reading} (hx : x ∈ t.readings)
    (hrole : x.role = .expression ∨ x.role = .target) : t.ReadAsExpression x.spot.address := by
  have hnodup : (t.readings.map fun y => y.spot.address).Nodup :=
    List.pairwise_map.mpr (Reading.pairwise_all distinct)
  intro y hy heq
  rwa [List.inj_on_of_nodup_map hnodup hy hx heq]

/-- Parentheses around a single node that is no decorator, in a place where they are read as
an expression. -/
structure Encloses (t : ParseTree) (p : Spot) (e : ParseTree) : Prop where
  mem : p ∈ t.spots
  named : p.node.info.named = true
  plain : p.node.info.extra = false
  enclosed : p.node.enclosed? = some e
  notDecorator : e.kind ≠ "decorator"
  read : t.ReadAsExpression p.address

/-- The second tree is the first with one such pair of parentheses replaced by the node in
them, which fills the fields that they filled. -/
inductive Unparenthesized (t : ParseTree) : ParseTree → Prop
  | step {p : Spot} {e : ParseTree} (h : t.Encloses p e) :
      Unparenthesized t ((e.withFields p.node.info.fields).replaceAt p.address t)

/-! ## The rendition without parentheses -/

theorem kind_of_enclosed? {e t : ParseTree} (h : t.enclosed? = some e) :
    t.kind = "parenthesized_expression" := by
  unfold enclosed? at h
  split at h
  · assumption
  · cases h

theorem mem_plainChildren_of_enclosed? {e t : ParseTree} (h : t.enclosed? = some e) :
    e ∈ t.plainChildren := by
  rw [enclosed?, if_pos (kind_of_enclosed? h), onlyPlain?] at h
  split at h
  · rename_i only heq
    rw [heq, Option.some.inj h]
    exact List.mem_singleton_self e
  · cases h

variable {t e : ParseTree} {p : Spot}

/-- What the parentheses enclose can take their place below the node above them. -/
theorem Encloses.standsFor (h : t.Encloses p e) :
    Spot.StandsFor (e.withFields p.node.info.fields).info p.node.info := by
  have hkind : p.node.info.kind ≠ "decorator" := by
    rw [show p.node.info.kind = _ from kind_of_enclosed? h.enclosed]
    decide
  have hplain := (List.mem_filter.mp (mem_plainChildren_of_enclosed? h.enclosed)).2
  rw [Bool.and_eq_true, Bool.not_eq_true'] at hplain
  have hdecorator := h.notDecorator
  cases e
  exact ⟨rfl, hplain.1.trans h.named.symm, hplain.2.trans h.plain.symm,
    .inr ⟨h.named, hdecorator, hkind⟩⟩

theorem Encloses.faithful (h : t.Encloses p e) {q : Spot} (hq : q ∈ t.spots)
    (hne : q.address ≠ p.address) :
    q.Faithful (Spot.replaced p.address (e.withFields p.node.info.fields)) := by
  -- nothing is left out here, and only the node at the address gets another info
  refine Spot.faithful_of_children (fun _ => true) (Spot.info_replaced hne) ?_ ?_ ?_
  · rw [Spot.children_replaced hne, List.filter_true]
  · intro c hc _
    by_cases hcp : c.address = p.address
    · have hsame : c = p := Spot.eq_of_mem_within (q := Spot.root t)
        (Spot.mem_within_of_mem_children (q := Spot.root t) hq hc) h.mem hcp
      rw [Spot.replaced_of_address_eq hcp, hsame]
      exact h.standsFor
    · rw [Spot.info_replaced hcp]
      exact .refl _
  · intro c _ hdropped
    cases hdropped

theorem Encloses.opened (h : t.Encloses p e) {x : Reading} (hx : x ∈ t.readings)
    (hp : x.spot.address = p.address) :
    x.Opened (Spot.replaced p.address (e.withFields p.node.info.fields)) := by
  have hspot : x.spot = p :=
    Spot.eq_of_mem_within (q := Spot.root t) (mem_spots_of_mem_readings hx) h.mem hp
  obtain ⟨inner, hinner, rfl⟩ := Option.map_eq_some_iff.mp
    ((Spot.map_node_enclosed? p).trans h.enclosed)
  refine ⟨h.read x hx hp, inner, p.node.info.fields, hspot ▸ hinner, ?_⟩
  -- what is enclosed stands below the parentheses, where nothing is replaced
  have hbelow : ¬ inner.address <+: p.address := by
    intro hleads
    obtain ⟨i, hi⟩ := Spot.address_of_mem_children (Spot.mem_children_of_enclosed? hinner)
    have hlength := hleads.length_le
    rw [hi, List.length_append, List.length_singleton] at hlength
    omega
  rw [Spot.replaced_of_address_eq hp, Spot.replaced_of_not_leads hbelow]

/-- Code with one pair of parentheses less is the same but for the sources of defaults. -/
theorem Unparenthesized.withoutSources_eq (source : ByteArray) {u : ParseTree}
    (h : t.Unparenthesized u) :
    (Code.ofTree source u).withoutSources = (Code.ofTree source t).withoutSources := by
  cases h with
  | @step p e h =>
      rw [← Spot.replaced_root]
      refine Spot.mapSources_rendition (fun _ => rfl) fun x hx => ?_
      by_cases hp : x.spot.address = p.address
      · exact .inr (h.opened hx hp)
      · exact .inl (h.faithful (mem_spots_of_mem_readings hx) hp)

/-- However many parentheses are taken away from expressions, the code stays the same but for
the recorded sources of defaults, and the outline keeps its entries, each with its name,
line, category and level. -/
theorem outline_of_unparenthesized (source : ByteArray) {t u : ParseTree}
    (h : Relation.ReflTransGen Unparenthesized t u) :
    (Code.ofTree source u).withoutSources = (Code.ofTree source t).withoutSources ∧
      (u.outline source).length = (t.outline source).length ∧
        ∀ (i : Nat) (d e : Entry), (u.outline source)[i]? = some d →
          (t.outline source)[i]? = some e →
            d.name = e.name ∧ d.line = e.line ∧ d.category = e.category ∧ d.level = e.level := by
  have hcode : (Code.ofTree source u).withoutSources = (Code.ofTree source t).withoutSources := by
    induction h with
    | refl => rfl
    | tail _ hstep ih => exact (hstep.withoutSources_eq source).trans ih
  have houtline : (u.outline source).map Entry.withoutArgs =
      (t.outline source).map Entry.withoutArgs := by
    rw [outline_eq, outline_eq]
    exact Code.outline_eq_of_withoutSources_eq hcode "" 0
  refine ⟨hcode, by simpa using congrArg List.length houtline, fun i d e hd he => ?_⟩
  have hplace := congrArg (fun entries => entries[i]?) houtline
  simp only [List.getElem?_map, hd, he, Option.map_some, Option.some.injEq, Entry.withoutArgs,
    Entry.mk.injEq, and_true] at hplace
  exact hplace

def assignedArrowSource : ByteArray := "(a.b) = (f = (() => 0)) => 0".toUTF8

def inParentheses (start stop : Nat) (fields : List Field) (t : ParseTree) : ParseTree :=
  node ⟨"parenthesized_expression", true, false, false, start, stop, 0, fields⟩ [t]

def assignedMember (fields : List Field) : ParseTree :=
  node ⟨"member_expression", true, false, false, 1, 4, 0, fields⟩
    [node ⟨"identifier", true, false, false, 1, 2, 0, [.object]⟩ [],
      node ⟨"property_identifier", true, false, false, 3, 4, 0, [.property]⟩ []]

/-- A statement that assigns an arrow function with a default to what stands on the left. -/
def assignedArrow (left default : ParseTree) : ParseTree :=
  node ⟨"expression_statement", true, false, false, 0, 28, 0, []⟩
    [node ⟨"assignment_expression", true, false, false, 0, 28, 0, []⟩
      [left,
        node ⟨"arrow_function", true, false, false, 8, 28, 0, [.right]⟩
          [node ⟨"formal_parameters", true, false, false, 8, 23, 0, [.parameters]⟩
              [node ⟨"assignment_pattern", true, false, false, 9, 22, 0, []⟩
                [node ⟨"identifier", true, false, false, 9, 10, 0, [.left]⟩ [], default]],
            node ⟨"number", true, false, false, 27, 28, 0, [.body]⟩ []]]]

def parenthesizedDefault : ParseTree := inParentheses 13 22 [.right] (sampleArrow 14 0 [])

def parenthesizedArrow : ParseTree :=
  assignedArrow (inParentheses 0 5 [.left] (assignedMember [])) parenthesizedDefault

def bareArrow : ParseTree :=
  assignedArrow (assignedMember [.left]) (sampleArrow 14 0 [.right])

/-- The parentheses around the member can go first, then those around the default. -/
theorem unparenthesized_parenthesizedArrow :
    Relation.ReflTransGen Unparenthesized parenthesizedArrow bareArrow := by
  let between := assignedArrow (assignedMember [.left]) parenthesizedDefault
  have hmember : parenthesizedArrow.Unparenthesized between :=
    .step (p := parenthesizedArrow.spots[2]) (e := assignedMember [])
      { mem := List.getElem_mem _
        named := rfl
        plain := rfl
        enclosed := rfl
        notDecorator := by decide
        read := by decide +kernel }
  have hdefault : between.Unparenthesized bareArrow :=
    .step (p := between.spots[9]) (e := sampleArrow 14 0 [])
      { mem := List.getElem_mem _
        named := rfl
        plain := rfl
        enclosed := rfl
        notDecorator := by decide
        read := by decide +kernel }
  exact .tail (.single hmember) hdefault

theorem outline_parenthesizedArrow :
    Relation.ReflTransGen Unparenthesized parenthesizedArrow bareArrow ∧
      (Code.ofTree assignedArrowSource bareArrow).withoutSources =
        (Code.ofTree assignedArrowSource parenthesizedArrow).withoutSources ∧
      (bareArrow.outline assignedArrowSource).length =
        (parenthesizedArrow.outline assignedArrowSource).length ∧
      ∀ (i : Nat) (d e : Entry), (bareArrow.outline assignedArrowSource)[i]? = some d →
        (parenthesizedArrow.outline assignedArrowSource)[i]? = some e →
          d.name = e.name ∧ d.line = e.line ∧ d.category = e.category ∧ d.level = e.level :=
  ⟨unparenthesized_parenthesizedArrow,
    outline_of_unparenthesized assignedArrowSource unparenthesized_parenthesizedArrow⟩

/-- Arguments show a default as it was written. -/
example :
    (parenthesizedArrow.outline assignedArrowSource).map Entry.args = [["f=(() => 0)"], []] ∧
      (bareArrow.outline assignedArrowSource).map Entry.args = [["f=() => 0"], []] := by
  decide +kernel

end ParseTree

end ScriptOutline
