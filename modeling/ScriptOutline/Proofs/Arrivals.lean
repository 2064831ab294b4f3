import ScriptOutline.Proofs.Positions
import ScriptOutline.Proofs.Slots

/-!
# The outline on the parse tree

The outline of a tree, said without the code in between: it comes to a spot and then
to the slots of the spot, carries a hint and a level with it, and makes an entry of
every function it comes to. Main statement: `outline_eq_map_entry`.
-/

namespace ScriptOutline

namespace ParseTree

/-! ## Functions and hints in a parse tree -/

def isFunction (t : ParseTree) : Bool := Construct.ofKind t.kind == .function

def assignedName? (source : ByteArray) (t : ParseTree) : Option String :=
  (t.field? .left).bind fun left =>
    if left.unwrap.kind = "identifier" then left.unwrap.identifier? source
    else if left.unwrap.kind = "member_expression" then
      (left.unwrap.field? .property).bind (identifier? source)
    else none

/-- The hint that a node gives for the functions below it. -/
def givenHint? (source : ByteArray) (t : ParseTree) : Option String :=
  match Construct.ofKind t.kind with
  | .declarator =>
      (t.field? .name).bind fun name =>
        if name.kind = "identifier" then name.identifier? source else none
  | .statement =>
      t.firstPlain?.bind fun expression =>
        if Construct.ofKind expression.unwrap.kind = .assignment then
          expression.unwrap.assignedName? source
        else none
  | .property => (Code.key? t).bind (identifier? source)
  | .shorthandDefault =>
      (t.field? .left).bind fun left =>
        if left.kind = "shorthand_property_identifier_pattern" then left.identifier? source
        else none
  | _ => none

end ParseTree

namespace Code

/-! ## First layers and their nodes -/

/-- A default in an object pattern is a property or nothing special. -/
theorem shorthandDefaultOf_eq (source : ByteArray) (t : ParseTree) :
    (∃ left, t.field? .left = some left ∧
        left.kind = "shorthand_property_identifier_pattern" ∧
        shorthandDefaultOf source t =
          .property (left.identifier? source) none ((t.field? .right).map .tree)) ∨
      ((∀ left, t.field? .left = some left →
          left.kind ≠ "shorthand_property_identifier_pattern") ∧
        shorthandDefaultOf source t = otherOf t) := by
  rw [shorthandDefaultOf]
  cases t.field? .left with
  | none =>
      right
      exact ⟨fun left hleft => (Option.some_ne_none left hleft.symm).elim, rfl⟩
  | some left =>
      by_cases hkind : left.kind = "shorthand_property_identifier_pattern"
      · exact .inl ⟨left, rfl, hkind, if_pos hkind⟩
      · exact .inr ⟨fun other hother => Option.some.inj hother ▸ hkind, if_neg hkind⟩

theorem function?_ofTree {source : ByteArray} {t : ParseTree} (h : t.enclosed? = none) :
    (ofTree source t).function? =
      if t.isFunction then some ((functionOf source t).map (ofOperand source)) else none := by
  rw [ofTree_eq, ParseTree.unwrap_of_enclosed?_eq_none h, function?, shape, bareShapeOf,
    ParseTree.isFunction]
  cases Construct.ofKind t.kind with
  | shorthandDefault =>
      rcases shorthandDefaultOf_eq source t with ⟨_, _, _, heq⟩ | ⟨_, heq⟩ <;>
        simp only [heq] <;> rfl
  | _ => rfl

theorem name?_targetOf (source : ByteArray) (left : ParseTree) :
    (targetOf source left).name? =
      if left.unwrap.kind = "identifier" then left.unwrap.identifier? source
      else if left.unwrap.kind = "member_expression" then
        (left.unwrap.field? .property).bind (ParseTree.identifier? source)
      else none := by
  rw [targetOf]
  split
  · cases left.unwrap.identifier? source <;> rfl
  · split <;> rfl

theorem name?_map {α β : Type} (f : α → β) (target : Target α) :
    (target.map f).name? = target.name? := by
  cases target <;> rfl

def assigned? : Shape Code → Option String
  | .assignment target _ => target.name?
  | _ => none

theorem assigned?_shape_ofTree (source : ByteArray) (t : ParseTree) :
    assigned? (ofTree source t).shape =
      if Construct.ofKind t.unwrap.kind = .assignment then t.unwrap.assignedName? source
      else none := by
  rw [ofTree_eq, shape, bareShapeOf]
  cases Construct.ofKind t.unwrap.kind with
  | assignment =>
      rw [if_pos rfl, ParseTree.assignedName?]
      simp only [assignmentOf, Shape.map, assigned?, name?_map]
      cases t.unwrap.field? .left with
      | none => rfl
      | some left => exact name?_targetOf source left
  | shorthandDefault =>
      rcases shorthandDefaultOf_eq source t.unwrap with ⟨_, _, _, heq⟩ | ⟨_, heq⟩ <;>
        simp only [heq] <;> rfl
  | _ => rfl

theorem hint?_ofTree {source : ByteArray} {t : ParseTree} (h : t.enclosed? = none) :
    (ofTree source t).hint? = t.givenHint? source := by
  rw [ofTree_eq, ParseTree.unwrap_of_enclosed?_eq_none h, hint?, shape, bareShapeOf,
    ParseTree.givenHint?]
  cases Construct.ofKind t.kind with
  | statement =>
      cases t.firstPlain? with
      | none => rfl
      | some expression => exact assigned?_shape_ofTree source expression
  | property =>
      simp only [propertyOf, Shape.map]
      cases key? t with
      | none => rfl
      | some key =>
          rw [Option.bind_some, Option.bind_some]
          split
          · rename_i hcomputed
            have hkind : key.kind = "computed_property_name" := by
              simpa [isComputedName] using hcomputed
            simp [ParseTree.identifier?, hkind, ParseTree.identifierKinds]
          · rfl
  | shorthandDefault =>
      rcases shorthandDefaultOf_eq source t with ⟨left, hleft, hkind, heq⟩ | ⟨hnone, heq⟩
      · simp only [heq, hleft, Option.bind_some, if_pos hkind]
        rfl
      · simp only [heq]
        exact (Option.bind_eq_none_iff.mpr fun left hleft => if_neg (hnone left hleft)).symm
  | _ => rfl

/-- Parts that no tree was given for add nothing. -/
theorem flatMap_outline_ofOperand (source : ByteArray) (hint : String) (level : Nat)
    (parts : List Operand) :
    (parts.map (ofOperand source)).flatMap (outline hint level) =
      (parts.filterMap Operand.tree?).flatMap fun t => (ofTree source t).outline hint level := by
  induction parts with
  | nil => rfl
  | cons part parts ih =>
      cases part with
      | tree t => exact congrArg _ ih
      | absent =>
          have habsent : (ofOperand source .absent).outline hint level = [] := by
            rw [outline_eq_flatMap, ofOperand_eq]
            rfl
          rw [List.map_cons, List.flatMap_cons, habsent, ih]
          rfl

end Code

/-! ## Arrivals -/

/-- A spot that the outline comes to, with the hint and the level it brings. -/
structure Arrival where
  spot : Spot
  hint : String
  level : Nat

namespace Arrival

def isFunction (a : Arrival) : Bool := a.spot.node.isFunction

def entry (source : ByteArray) (a : Arrival) : Entry :=
  ((Code.functionOf source a.spot.node).map (Code.ofOperand source)).entry a.hint a.level

end Arrival

namespace Spot

def hintBelow (source : ByteArray) (hint : String) (p : Spot) : String :=
  (p.node.givenHint? source).getD hint

def levelBelow (level : Nat) (p : Spot) : Nat := level + if p.node.isFunction then 1 else 0

/-- The arrivals at a spot and below it, in the order of the slots. -/
def arrivals (source : ByteArray) (hint : String) (level : Nat) (p : Spot) : List Arrival :=
  ⟨p, hint, level⟩ ::
    (p.slots source).attach.flatMap fun c =>
      arrivals source (p.hintBelow source hint) (p.levelBelow level) c.1
termination_by p.node.size
decreasing_by exact (below_of_mem_slots c.2).size_lt

theorem arrivals_eq (source : ByteArray) (hint : String) (level : Nat) (p : Spot) :
    p.arrivals source hint level =
      ⟨p, hint, level⟩ ::
        (p.slots source).flatMap
          (arrivals source (p.hintBelow source hint) (p.levelBelow level)) := by
  rw [arrivals, List.flatMap_subtype (fun _ _ => rfl), List.unattach_attach]

theorem slots_of_enclosed? (source : ByteArray) {inner p : Spot}
    (h : p.enclosed? = some inner) : p.slots source = [inner] := by
  obtain ⟨hkind, honly⟩ := enclosed?_eq_some_iff.mp h
  rw [slots, hkind]
  exact plainChildren_of_onlyPlain? honly

def entries (source : ByteArray) (hint : String) (level : Nat) (p : Spot) : List Entry :=
  ((p.arrivals source hint level).filter Arrival.isFunction).map (Arrival.entry source)

theorem entries_eq (source : ByteArray) (hint : String) (level : Nat) (p : Spot) :
    p.entries source hint level =
      (if p.node.isFunction then [Arrival.entry source ⟨p, hint, level⟩] else []) ++
        (p.slots source).flatMap
          (entries source (p.hintBelow source hint) (p.levelBelow level)) := by
  rw [entries, arrivals_eq, List.filter_cons, List.filter_flatMap, Arrival.isFunction]
  cases p.node.isFunction with
  | true => exact congrArg (List.cons _) List.map_flatMap
  | false => exact List.map_flatMap

theorem entries_of_enclosed? (source : ByteArray) (hint : String) (level : Nat)
    {inner p : Spot} (h : p.enclosed? = some inner) :
    p.entries source hint level = inner.entries source hint level := by
  have hkind := (enclosed?_eq_some_iff.mp h).1
  have hfunction : p.node.isFunction = false := by
    rw [ParseTree.isFunction, hkind]
    rfl
  have hgiven : p.node.givenHint? source = none := by
    rw [ParseTree.givenHint?, hkind]
    rfl
  rw [entries_eq, slots_of_enclosed? source h, hintBelow, hgiven, levelBelow, hfunction,
    List.flatMap_singleton]
  rfl

/-- The first layer of code that is not in parentheses, and the code in its slots. -/
theorem outline_ofTree_step (source : ByteArray) (hint : String) (level : Nat) {p : Spot}
    (h : p.node.enclosed? = none) :
    (Code.ofTree source p.node).outline hint level =
      (if p.node.isFunction then [Arrival.entry source ⟨p, hint, level⟩] else []) ++
        (p.slots source).flatMap fun c =>
          (Code.ofTree source c.node).outline (p.hintBelow source hint) (p.levelBelow level) := by
  have hchildren (hint : String) (level : Nat) :
      (Code.ofTree source p.node).children.flatMap (Code.outline hint level) =
        (p.slots source).flatMap fun c => (Code.ofTree source c.node).outline hint level := by
    rw [Code.children_ofTree, ParseTree.unwrap_of_enclosed?_eq_none h,
      Code.flatMap_outline_ofOperand, ← map_node_slots, List.flatMap_map]
  rw [Code.outline_eq_flatMap, Code.hint?_ofTree h, hchildren, Code.function?_ofTree h, levelBelow]
  cases p.node.isFunction <;> rfl

/-- The outline of the code of a tree is made at the arrivals in it. -/
theorem outline_ofTree (source : ByteArray) (hint : String) (level : Nat) (p : Spot) :
    (Code.ofTree source p.node).outline hint level = p.entries source hint level := by
  induction p using inductionOnSize generalizing hint level with
  | step p ih =>
      have hnode := map_node_enclosed? p
      cases h : p.enclosed? with
      | some inner =>
          rw [h, Option.map_some] at hnode
          have hsize := size_lt_of_mem_children (mem_children_of_enclosed? h)
          rw [Code.ofTree_of_enclosed? source hnode.symm, ih inner hsize,
            entries_of_enclosed? source hint level h]
      | none =>
          rw [h, Option.map_none] at hnode
          have hslots : ∀ c ∈ p.slots source, ∀ hint level,
              (Code.ofTree source c.node).outline hint level = c.entries source hint level :=
            fun c hc hint level => ih c (below_of_mem_slots hc).size_lt hint level
          rw [outline_ofTree_step source hint level hnode.symm, entries_eq,
            List.flatMap_congr fun c hc => hslots c hc _ _]

/-! ## What holds at every arrival -/

/-- A property that every step to a slot preserves holds at every arrival. -/
theorem arrivals_closed {source : ByteArray} {S : Spot → String → Nat → Prop}
    (hstep : ∀ q hint level c, S q hint level → c ∈ q.slots source →
      S c (q.hintBelow source hint) (q.levelBelow level))
    {hint : String} {level : Nat} {p : Spot} (hp : S p hint level) {a : Arrival}
    (ha : a ∈ p.arrivals source hint level) : S a.spot a.hint a.level := by
  induction p using inductionOnSize generalizing hint level with
  | step p ih =>
      rw [arrivals_eq] at ha
      rcases List.mem_cons.mp ha with rfl | ha
      · exact hp
      · obtain ⟨c, hc, ha⟩ := List.mem_flatMap.mp ha
        exact ih c (below_of_mem_slots hc).size_lt (hstep p hint level c hp hc) ha

theorem self_mem_arrivals (source : ByteArray) (hint : String) (level : Nat) (p : Spot) :
    ⟨p, hint, level⟩ ∈ p.arrivals source hint level := by
  rw [arrivals_eq]
  exact List.mem_cons_self

/-- The outline comes to every slot of a spot that it comes to. -/
theorem exists_arrival_of_mem_slots {source : ByteArray} {hint : String} {level : Nat}
    {a : Arrival} {c p : Spot} (ha : a ∈ p.arrivals source hint level)
    (hc : c ∈ a.spot.slots source) : ∃ b ∈ p.arrivals source hint level, b.spot = c := by
  induction p using inductionOnSize generalizing hint level with
  | step p ih =>
      rw [arrivals_eq] at ha ⊢
      rcases List.mem_cons.mp ha with rfl | ha
      · have hself := self_mem_arrivals source (p.hintBelow source hint) (p.levelBelow level) c
        exact ⟨_, List.mem_cons_of_mem _ (List.mem_flatMap.mpr ⟨c, hc, hself⟩), rfl⟩
      · obtain ⟨d, hd, ha⟩ := List.mem_flatMap.mp ha
        obtain ⟨b, hb, hspot⟩ := ih d (below_of_mem_slots hd).size_lt ha
        exact ⟨b, List.mem_cons_of_mem _ (List.mem_flatMap.mpr ⟨d, hd, hb⟩), hspot⟩

theorem mem_within_of_mem_arrivals {source : ByteArray} {hint : String} {level : Nat}
    {a : Arrival} {p : Spot} (h : a ∈ p.arrivals source hint level) : a.spot ∈ p.within :=
  arrivals_closed (S := fun q _ _ => q ∈ p.within)
    (fun _ _ _ _ hq hc => (below_of_mem_slots hc).mem_within hq) (self_mem_within p) h

def level (p : Spot) : Nat := p.above.countP ParseTree.isFunction

/-- The hint of the nearest node around a spot that gives one. -/
def hint? (source : ByteArray) (p : Spot) : Option String :=
  p.above.findSome? (ParseTree.givenHint? source)

/-- The level that an arrival brings counts the functions around its spot, as long as
no list of parameters is a function itself. -/
theorem level_of_mem_arrivals {source : ByteArray} {t : ParseTree}
    (lists : ∀ u ∈ t.preorder, ∀ l ∈ u.field? .parameters, l.isFunction = false)
    {a : Arrival} (ha : a ∈ (root t).arrivals source "" 0) : a.level = a.spot.level := by
  refine (arrivals_closed (S := fun q _ level => q ∈ t.spots ∧ level = q.level) ?_
    ⟨self_mem_within (root t), rfl⟩ ha).2
  rintro q hint level c ⟨hq, rfl⟩ hc
  have hbelow := below_of_mem_slots hc
  refine ⟨hbelow.mem_spots hq, (hbelow.countP_above ?_).symm⟩
  rintro m (hlist | hkind)
  · exact lists q.node (node_mem_preorder hq) m hlist
  · simp only [passedKinds, List.mem_cons, List.not_mem_nil, or_false] at hkind
    rcases hkind with h | h | h | h | h | h <;> (rw [ParseTree.isFunction, h]; rfl)

end Spot

namespace ParseTree

/-- The arrivals of the outline of a tree at functions. -/
def functionArrivals (source : ByteArray) (t : ParseTree) : List Arrival :=
  ((Spot.root t).arrivals source "" 0).filter Arrival.isFunction

theorem mem_spots_of_mem_functionArrivals {source : ByteArray} {t : ParseTree} {a : Arrival}
    (h : a ∈ t.functionArrivals source) : a.spot ∈ t.spots :=
  Spot.mem_within_of_mem_arrivals (List.mem_filter.mp h).1

/-- The outline has one entry for each function that it comes to, in the order in
which it comes to them. -/
theorem outline_eq_map_entry (source : ByteArray) (t : ParseTree) :
    t.outline source = (t.functionArrivals source).map (Arrival.entry source) := by
  rw [outline_eq]
  exact Spot.outline_ofTree source "" 0 (Spot.root t)

theorem length_outline (source : ByteArray) (t : ParseTree) :
    (t.outline source).length = (t.functionArrivals source).length := by
  rw [outline_eq_map_entry, List.length_map]

/-! ## Places of entries -/

/-- The places in preorder of the functions that the entries of the outline are made at. -/
def IsPlacing (source : ByteArray) (t : ParseTree)
    (place : Fin (t.outline source).length → Fin t.spots.length) : Prop :=
  ∀ i, ∃ a, (t.functionArrivals source)[i.val]? = some a ∧ t.spots.get (place i) = a.spot

theorem exists_isPlacing (source : ByteArray) (t : ParseTree) :
    ∃ place, t.IsPlacing source place := by
  have heach : ∀ i : Fin (t.outline source).length, ∃ (k : Fin t.spots.length) (a : Arrival),
      (t.functionArrivals source)[i.val]? = some a ∧ t.spots.get k = a.spot := by
    intro i
    have hbound : i.val < (t.functionArrivals source).length := length_outline source t ▸ i.isLt
    have ha := List.getElem?_eq_getElem hbound
    have hmem := mem_spots_of_mem_functionArrivals (List.mem_of_getElem? ha)
    obtain ⟨k, hk⟩ := List.get_of_mem hmem
    exact ⟨k, _, ha, hk⟩
  choose place hplace using heach
  exact ⟨place, hplace⟩

namespace IsPlacing

variable {source : ByteArray} {t : ParseTree}
  {place : Fin (t.outline source).length → Fin t.spots.length}

/-- An entry has the place of the arrival that it is made at. -/
theorem exists_arrival (h : t.IsPlacing source place) (i : Fin (t.outline source).length) :
    ∃ a ∈ t.functionArrivals source, t.spots.get (place i) = a.spot ∧
      (t.outline source).get i = a.entry source := by
  obtain ⟨a, ha, hspot⟩ := h i
  have hentry : ((t.functionArrivals source).map (Arrival.entry source))[i.val]? =
      some (a.entry source) := by
    rw [List.getElem?_map, ha, Option.map_some]
  rw [← outline_eq_map_entry] at hentry
  exact ⟨a, List.mem_of_getElem? ha, hspot, (List.getElem?_eq_some_iff.mp hentry).2⟩

theorem isFunction (h : t.IsPlacing source place) (i : Fin (t.outline source).length) :
    (t.spots.get (place i)).node.isFunction = true := by
  obtain ⟨a, ha, hspot, -⟩ := h.exists_arrival i
  rw [hspot]
  exact (List.mem_filter.mp ha).2

theorem line (h : t.IsPlacing source place) (i : Fin (t.outline source).length) :
    ((t.outline source).get i).line = (t.spots.get (place i)).node.info.row + 1 := by
  obtain ⟨a, -, hspot, hentry⟩ := h.exists_arrival i
  rw [hspot, hentry]
  rfl

theorem level (h : t.IsPlacing source place)
    (lists : ∀ u ∈ t.preorder, ∀ l ∈ u.field? .parameters, l.isFunction = false)
    (i : Fin (t.outline source).length) :
    ((t.outline source).get i).level = (t.spots.get (place i)).above.countP
      ParseTree.isFunction := by
  obtain ⟨a, ha, hspot, hentry⟩ := h.exists_arrival i
  rw [hspot, hentry]
  exact Spot.level_of_mem_arrivals lists (List.mem_filter.mp ha).1

end IsPlacing

end ParseTree

end ScriptOutline
