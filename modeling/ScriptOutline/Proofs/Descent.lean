import ScriptOutline.Proofs.Spots

/-!
# Spots below a spot

All spots of a tree in preorder, and the ways down on which nothing but nodes of
certain kinds is passed. What such a way passes decides what it adds to the nodes
above a spot.
-/

namespace ScriptOutline

/-! ## All spots in preorder -/

mutual

def ParseTree.spotsFrom (address : Address) (above : List ParseTree) : ParseTree → List Spot
  | node info children =>
      ⟨address, above, node info children⟩ ::
        spotsFromAll address (node info children :: above) 0 children

def ParseTree.spotsFromAll (address : Address) (above : List ParseTree) (position : Nat) :
    List ParseTree → List Spot
  | [] => []
  | t :: rest =>
      t.spotsFrom (address ++ [position]) above ++
        spotsFromAll address above (position + 1) rest

end

/-- The nodes of a tree in preorder, each with the way to it. -/
def ParseTree.spots (t : ParseTree) : List Spot := t.spotsFrom [] []

theorem ParseTree.spotsFromAll_eq (address : Address) (above : List ParseTree) (position : Nat)
    (trees : List ParseTree) :
    spotsFromAll address above position trees =
      (trees.zipIdx position).flatMap fun part =>
        part.1.spotsFrom (address ++ [part.2]) above := by
  induction trees generalizing position with
  | nil => rfl
  | cons t rest ih => rw [spotsFromAll, ih, List.zipIdx_cons, List.flatMap_cons]

namespace Spot

def within (p : Spot) : List Spot := p.node.spotsFrom p.address p.above

theorem within_eq (p : Spot) : p.within = p :: p.children.flatMap within := by
  rw [children, List.flatMap_map]
  cases p with
  | mk address above node =>
      cases node with
      | node info children => exact congrArg (List.cons _) (ParseTree.spotsFromAll_eq _ _ _ _)

@[elab_as_elim]
theorem inductionOnSize {motive : Spot → Prop} (p : Spot)
    (step : ∀ q, (∀ c : Spot, c.node.size < q.node.size → motive c) → motive q) : motive p :=
  step p fun c _ => inductionOnSize c step
termination_by p.node.size

theorem map_node_within (p : Spot) : p.within.map node = p.node.preorder := by
  induction p using inductionOnSize with
  | step p ih =>
      have hchildren : p.children.flatMap (fun c => c.within.map node) =
          p.children.flatMap fun c => c.node.preorder :=
        List.flatMap_congr fun c hc => ih c (size_lt_of_mem_children hc)
      rw [within_eq, List.map_cons, List.map_flatMap, hchildren, ParseTree.preorder_eq,
        ← map_node_children, List.flatMap_map]

theorem map_node_spots (t : ParseTree) : t.spots.map node = t.preorder :=
  map_node_within (root t)

theorem node_mem_preorder {p : Spot} {t : ParseTree} (h : p ∈ t.spots) : p.node ∈ t.preorder :=
  map_node_spots t ▸ List.mem_map_of_mem h

theorem self_mem_within (p : Spot) : p ∈ p.within := by
  rw [within_eq]
  exact List.mem_cons_self

theorem mem_within_of_mem_children {c p q : Spot} (hp : p ∈ q.within) (hc : c ∈ p.children) :
    c ∈ q.within := by
  induction q using inductionOnSize with
  | step q ih =>
      rw [within_eq] at hp ⊢
      rcases List.mem_cons.mp hp with rfl | hp
      · exact List.mem_cons_of_mem _
          (List.mem_flatMap.mpr ⟨c, hc, self_mem_within c⟩)
      · obtain ⟨d, hd, hp⟩ := List.mem_flatMap.mp hp
        have hwithin := ih d (size_lt_of_mem_children hd) hp
        exact List.mem_cons_of_mem _ (List.mem_flatMap.mpr ⟨d, hd, hwithin⟩)

theorem prefix_of_mem_within {c p : Spot} (h : c ∈ p.within) : p.address <+: c.address := by
  induction p using inductionOnSize with
  | step p ih =>
      rw [within_eq] at h
      rcases List.mem_cons.mp h with rfl | h
      · exact List.prefix_rfl
      · obtain ⟨d, hd, hc⟩ := List.mem_flatMap.mp h
        obtain ⟨i, hi⟩ := address_of_mem_children hd
        have hleads := ih d (size_lt_of_mem_children hd) hc
        exact (hi ▸ List.prefix_append _ _).trans hleads

/-- No two spots of a tree have the same address, and preorder is the order of the
addresses. -/
theorem pairwise_lt_within (p : Spot) : p.within.Pairwise fun a b => a.address < b.address := by
  induction p using inductionOnSize with
  | step p ih =>
      rw [within_eq, List.pairwise_cons, List.pairwise_flatMap]
      refine ⟨?_, fun c hc => ih c (size_lt_of_mem_children hc), ?_⟩
      · intro c hc
        obtain ⟨d, hd, hc⟩ := List.mem_flatMap.mp hc
        obtain ⟨i, hi⟩ := address_of_mem_children hd
        exact Address.lt_of_leads (hi ▸ prefix_of_mem_within hc)
      · apply (pairwise_children (fun _ _ h => h) p).imp
        intro c' d' hfork c hc d hd
        exact (hfork.mono (prefix_of_mem_within hc) (prefix_of_mem_within hd)).lt

theorem nodup_spots (t : ParseTree) : t.spots.Nodup := by
  apply (pairwise_lt_within (root t)).imp
  rintro a b hlt rfl
  exact List.lt_irrefl a.address hlt

/-! ## Ways down -/

/-- A spot below another, with a condition on every node between the two. -/
inductive Below (passes : ParseTree → Prop) (p : Spot) : Spot → Prop
  | child {c : Spot} (hc : c ∈ p.children) : Below passes p c
  | step {q c : Spot} (hq : Below passes p q) (hpasses : passes q.node) (hc : c ∈ q.children) :
      Below passes p c

section Below

variable {passes : ParseTree → Prop} {c p q : Spot}

theorem Below.mem_within (h : Below passes p c) (hp : p ∈ q.within) : c ∈ q.within := by
  induction h with
  | child hc => exact mem_within_of_mem_children hp hc
  | step _ _ hc ih => exact mem_within_of_mem_children ih hc

theorem Below.mem_spots {t : ParseTree} (h : Below passes p c) (hp : p ∈ t.spots) :
    c ∈ t.spots :=
  h.mem_within (q := root t) hp

theorem Below.size_lt (h : Below passes p c) : c.node.size < p.node.size := by
  induction h with
  | child hc => exact size_lt_of_mem_children hc
  | step _ _ hc ih => exact Nat.lt_trans (size_lt_of_mem_children hc) ih

theorem Below.exists_position (h : Below passes p c) : ∃ i, p.address ++ [i] <+: c.address := by
  induction h with
  | child hc =>
      obtain ⟨i, hi⟩ := address_of_mem_children hc
      exact ⟨i, hi ▸ List.prefix_rfl⟩
  | step _ _ hc ih =>
      obtain ⟨i, hleads⟩ := ih
      obtain ⟨j, hj⟩ := address_of_mem_children hc
      exact ⟨i, hleads.trans (hj ▸ List.prefix_append _ _)⟩

/-- The nodes above a spot below: those passed on the way, the node where the way
starts, and those above that. -/
theorem Below.exists_above (h : Below passes p c) :
    ∃ passed, c.above = passed ++ p.node :: p.above ∧ ∀ m ∈ passed, passes m := by
  induction h with
  | child hc => exact ⟨[], above_of_mem_children hc, fun m hm => by cases hm⟩
  | @step q _ _ hpasses hc ih =>
      obtain ⟨passed, habove, hpassed⟩ := ih
      refine ⟨q.node :: passed, ?_, ?_⟩
      · rw [above_of_mem_children hc, habove, List.cons_append]
      · intro m hm
        rcases List.mem_cons.mp hm with rfl | hm
        · exact hpasses
        · exact hpassed m hm

theorem Below.countP_above (h : Below passes p c) {counts : ParseTree → Bool}
    (hpasses : ∀ m, passes m → counts m = false) :
    c.above.countP counts = p.above.countP counts + if counts p.node then 1 else 0 := by
  obtain ⟨passed, habove, hpassed⟩ := h.exists_above
  have hnone : passed.countP counts = 0 :=
    List.countP_eq_zero.mpr fun m hm => by rw [hpasses m (hpassed m hm)]; exact Bool.false_ne_true
  rw [habove, List.countP_append, hnone, List.countP_cons, Nat.zero_add]

theorem Below.findSome?_above (h : Below passes p c) {α : Type} {gives : ParseTree → Option α}
    (hpasses : ∀ m, passes m → gives m = none) :
    c.above.findSome? gives = (gives p.node).or (p.above.findSome? gives) := by
  obtain ⟨passed, habove, hpassed⟩ := h.exists_above
  have hnone : passed.findSome? gives = none :=
    List.findSome?_eq_none_iff.mpr fun m hm => hpasses m (hpassed m hm)
  rw [habove, List.findSome?_append, hnone, Option.none_or, List.findSome?_cons]
  cases gives p.node <;> rfl

end Below

end Spot

end ScriptOutline
