import ScriptOutline.Proofs.Readings
import ScriptOutline.Proofs.Views

/-!
# Renditions of a tree

A rendition gives a tree for every spot of a tree. It is faithful at a spot if what it
gives there has the renditions of the children where the node has the children. What is
read at a spot where a rendition is faithful comes to the same in both, provided that what
is read below does; so it comes to the same everywhere. Main statement:
`mapSources_rendition`.
-/

namespace ScriptOutline

namespace Code

section Agree

variable (source : ByteArray) (f : String → String)

/-- Two trees come to the same when they are read in a role. -/
def Agree (role : Role) (u t : ParseTree) : Prop :=
  match role with
  | .expression => treeView source f u = treeView source f t
  | .target => targetView source f u = targetView source f t
  | .name => u.info = t.info ∧ treeView source f u = treeView source f t
  | .parameters =>
      u.plainChildren.map (paramView source f) = t.plainChildren.map (paramView source f) ∧
        u.plainChildren.map (defaultView source f) = t.plainChildren.map (defaultView source f)
  | .parameter =>
      paramView source f u = paramView source f t ∧ defaultView source f u = defaultView source f t
  | .binding => bindingView source f u = bindingView source f t

variable {source f}

theorem computedView?_congr {u t : ParseTree} (h : Agree source f .name u t) :
    computedView? source f u = computedView? source f t := by
  rw [computedView?, computedView?, isComputedName, isComputedName, ParseTree.kind,
    ParseTree.kind, h.1, h.2]

end Agree

end Code

namespace Spot

/-! ## Faithful renditions -/

/-- The rendition of a spot is its node with the renditions of the children. -/
structure Faithful (r : Spot → ParseTree) (p : Spot) : Prop where
  info : (r p).info = p.node.info
  field? : ∀ g, (r p).field? g = (p.field? g).map r
  plainChildren : (r p).plainChildren = p.plainChildren.map r
  decorator_iff : ∀ c ∈ p.plainChildren, (r c).kind = "decorator" ↔ c.node.kind = "decorator"
  isGenerator : (r p).isGenerator = p.node.isGenerator

/-- One node can take the place of another below the same node: the fields it fills and the
kinds that are told apart there are the same. -/
structure StandsFor (i j : NodeInfo) : Prop where
  fields : i.fields = j.fields
  named : i.named = j.named
  extra : i.extra = j.extra
  kind : i.kind = j.kind ∨ j.named = true ∧ i.kind ≠ "decorator" ∧ j.kind ≠ "decorator"

theorem StandsFor.refl (i : NodeInfo) : StandsFor i i := ⟨rfl, rfl, rfl, .inl rfl⟩

theorem find?_filter_of_imp {α : Type} {keeps finds : α → Bool} {items : List α}
    (h : ∀ a, items.find? finds = some a → keeps a = true) :
    (items.filter keeps).find? finds = items.find? finds := by
  induction items with
  | nil => rfl
  | cons a rest ih =>
      by_cases ha : finds a = true
      · have hkept := h a (List.find?_cons_of_pos ha)
        rw [List.filter_cons_of_pos hkept, List.find?_cons_of_pos ha, List.find?_cons_of_pos ha]
      · rw [List.find?_cons_of_neg ha] at h ⊢
        rw [List.filter_cons]
        split
        · rw [List.find?_cons_of_neg ha, ih h]
        · exact ih h

/-- A rendition that only leaves out extras which no field leads to, and puts what stands
for them in the place of the other children, is faithful. -/
theorem faithful_of_children {r : Spot → ParseTree} {p : Spot} (keeps : Spot → Bool)
    (hinfo : (r p).info = p.node.info)
    (hchildren : (r p).children = (p.children.filter keeps).map r)
    (hkept : ∀ c ∈ p.children, keeps c = true → StandsFor (r c).info c.node.info)
    (hdropped : ∀ c ∈ p.children, keeps c = false →
      c.node.info.named = true ∧ c.node.info.extra = true ∧ ∀ g, p.field? g ≠ some c) :
    Faithful r p := by
  have hstands : ∀ c ∈ p.children.filter keeps, StandsFor (r c).info c.node.info :=
    fun c hc => hkept c (List.mem_filter.mp hc).1 (List.mem_filter.mp hc).2
  have hplain : p.plainChildren =
      (p.children.filter keeps).filter fun c => c.node.info.named && !c.node.info.extra := by
    rw [List.filter_filter, plainChildren]
    refine List.filter_congr fun c hc => ?_
    cases hkeeps : keeps c with
    | true => rw [Bool.and_true]
    | false => simp [(hdropped c hc hkeeps).2.1]
  refine ⟨hinfo, fun g => ?_, ?_, fun c hc => ?_, ?_⟩
  · have hfields : (p.children.filter keeps).filter
          ((fun c => c.info.fields.contains g) ∘ r) =
        (p.children.filter keeps).filter fun c => c.node.info.fields.contains g :=
      List.filter_congr fun c hc => by simp [(hstands c hc).fields]
    rw [ParseTree.field?, hchildren, List.find?_map, ← List.head?_filter, hfields,
      List.head?_filter, find?_filter_of_imp, field?]
    intro c hc
    by_contra hkeeps
    exact (hdropped c (List.mem_of_find?_eq_some hc) (Bool.eq_false_iff.mpr hkeeps)).2.2 g hc
  · rw [ParseTree.plainChildren, hchildren, List.filter_map, hplain]
    congr 1
    exact List.filter_congr fun c hc => by simp [(hstands c hc).named, (hstands c hc).extra]
  · rw [hplain] at hc
    rcases (hstands c (List.mem_filter.mp hc).1).kind with h | ⟨-, hrendered, hnode⟩
    · rw [ParseTree.kind, h]
      rfl
    · exact iff_of_false hrendered hnode
  · have hasterisks : ((r p).children.any fun c => !c.info.named && c.kind == "*") =
        p.node.children.any fun c => !c.info.named && c.kind == "*" := by
      rw [hchildren, ← map_node_children, List.any_map, List.any_map, List.any_filter,
        Bool.eq_iff_iff, List.any_eq_true, List.any_eq_true]
      refine exists_congr fun c => and_congr_right fun hc => ?_
      cases hkeeps : keeps c with
      | true =>
          have hstands := hkept c hc hkeeps
          rcases hstands.kind with h | ⟨hnamed, -, -⟩
          · simp [hstands.named, ParseTree.kind, h]
          · simp [hstands.named, hnamed]
      | false => simp [(hdropped c hc hkeeps).1]
    rw [ParseTree.isGenerator, ParseTree.isGenerator, ParseTree.kind, hinfo, hasterisks]
    rfl

namespace Faithful

variable {r : Spot → ParseTree} {p : Spot} (hr : Faithful r p)
include hr

theorem kind : (r p).kind = p.node.kind := congrArg NodeInfo.kind hr.info

theorem firstPlain? : (r p).firstPlain? = p.firstPlain?.map r := by
  rw [ParseTree.firstPlain?, hr.plainChildren, List.head?_map]
  rfl

theorem key? : Code.key? (r p) = p.key?.map r := by
  rw [Code.key?, Spot.key?, hr.field?, hr.field?, hr.field?]
  simp only [Option.map_or]

theorem enclosed? : (r p).enclosed? = p.enclosed?.map r := by
  rw [ParseTree.enclosed?, Spot.enclosed?, hr.kind, ParseTree.onlyPlain?, Spot.onlyPlain?,
    hr.plainChildren]
  split
  · cases p.plainChildren with
    | nil => rfl
    | cons c rest => cases rest <;> rfl
  · rfl

theorem isPlainBinding : (r p).isPlainBinding = p.node.isPlainBinding := by
  rw [ParseTree.isPlainBinding, ParseTree.isPlainBinding, hr.kind]

end Faithful

end Spot

/-- What is read at a spot comes to the same in the rendition. -/
def Reading.Kept (source : ByteArray) (f : String → String) (r : Spot → ParseTree)
    (x : Reading) : Prop :=
  Code.Agree source f x.role (r x.spot) x.spot.node

namespace Spot.Faithful

open Code

/-! ## Reading a faithful rendition -/

section Parts

variable {β : Type} {r : Spot → ParseTree}

theorem map_part {F : ParseTree → β} {part : Option Spot}
    (h : ∀ c, part = some c → F (r c) = F c.node) :
    (part.map r).map F = (part.map node).map F := by
  rw [Option.map_map, Option.map_map]
  exact Option.map_congr h

theorem bind_part {F : ParseTree → Option β} {part : Option Spot}
    (h : ∀ c, part = some c → F (r c) = F c.node) :
    (part.map r).bind F = (part.map node).bind F := by
  rw [Option.bind_map, Option.bind_map]
  exact Option.bind_congr h

theorem map_parts {F : ParseTree → β} {parts : List Spot}
    (h : ∀ c ∈ parts, F (r c) = F c.node) :
    (parts.map r).map F = (parts.map node).map F := by
  rw [List.map_map, List.map_map]
  exact List.map_congr_left h

end Parts

section Layers

variable {source : ByteArray} {f : String → String} {r : Spot → ParseTree} {p : Spot}

theorem agree_of_toList {role : Role} {part : Option Spot}
    (h : ∀ x ∈ (part.map (readAs role)).toList, x.Kept source f r) (c : Spot)
    (hc : part = some c) : Agree source f role (r c) c.node :=
  h (c.readAs role) (by rw [hc]; exact List.mem_singleton_self _)

theorem agree_of_map {role : Role} {parts : List Spot}
    (h : ∀ x ∈ parts.map (readAs role), x.Kept source f r) (c : Spot) (hc : c ∈ parts) :
    Agree source f role (r c) c.node :=
  h (c.readAs role) (List.mem_map_of_mem hc)

variable (hr : Faithful r p)
include hr

theorem map_field? {β : Type} {F : ParseTree → β} {g : Field}
    (h : ∀ c, p.field? g = some c → F (r c) = F c.node) :
    ((r p).field? g).map F = (p.node.field? g).map F := by
  rw [hr.field?, ← map_node_field?]
  exact map_part h

theorem bind_field? {β : Type} {F : ParseTree → Option β} {g : Field}
    (h : ∀ c, p.field? g = some c → F (r c) = F c.node) :
    ((r p).field? g).bind F = (p.node.field? g).bind F := by
  rw [hr.field?, ← map_node_field?]
  exact bind_part h

theorem map_plainChildren {β : Type} {F : ParseTree → β}
    (h : ∀ c ∈ p.plainChildren, F (r c) = F c.node) :
    (r p).plainChildren.map F = p.node.plainChildren.map F := by
  rw [hr.plainChildren, ← map_node_plainChildren]
  exact map_parts h

theorem map_formalParameters {β : Type} {F : ParseTree → β}
    (hlist : ∀ c, Agree source f .parameters (r c) c.node →
      (r c).plainChildren.map F = c.node.plainChildren.map F)
    (hsingle : ∀ c, Agree source f .parameter (r c) c.node → F (r c) = F c.node)
    (h : ∀ x ∈ p.formalReadings, x.Kept source f r) :
    (r p).formalParameters.map F = p.node.formalParameters.map F := by
  have hparameters := hr.field? .parameters
  have hnode := map_node_field? p .parameters
  unfold formalReadings at h
  unfold ParseTree.formalParameters
  cases hfield : p.field? .parameters with
  | some list =>
      rw [hfield] at hparameters hnode h
      rw [hparameters, ← hnode]
      exact hlist list (h _ (List.mem_singleton_self _))
  | none =>
      rw [hfield] at hparameters hnode h
      rw [hparameters, ← hnode]
      simp only [Option.map_none, ← Option.toList_map]
      exact congrArg _ (hr.map_field? fun c hc => hsingle c (agree_of_toList h c hc))

/-! ### Layers -/

theorem otherOf_view
    (h : ∀ c ∈ p.plainChildren, treeView source f (r c) = treeView source f c.node) :
    ((otherOf (r p)).mapSources f).map (viewOf source f) =
      ((otherOf p.node).mapSources f).map (viewOf source f) := by
  rw [Code.otherOf_view, Code.otherOf_view, hr.kind, hr.map_plainChildren h]

theorem functionOf_view
    (hdecorators : ∀ x ∈ (p.plainChildren.filter fun c => c.node.kind == "decorator").map
      (readAs .expression), x.Kept source f r)
    (hname : ∀ x ∈ ((p.field? .name).map (readAs .name)).toList, x.Kept source f r)
    (hformal : ∀ x ∈ p.formalReadings, x.Kept source f r)
    (hbody : ∀ x ∈ ((p.field? .body).map (readAs .expression)).toList, x.Kept source f r) :
    ((functionOf source (r p)).mapSources f).map (viewOf source f) =
      ((functionOf source p.node).mapSources f).map (viewOf source f) := by
  have hid := hr.bind_field? fun c hc =>
    ParseTree.identifier?_of_info_eq source (agree_of_toList hname c hc).1
  have hcomputed := hr.bind_field? fun c hc => computedView?_congr (agree_of_toList hname c hc)
  have hkinds : p.plainChildren.filter ((fun c => c.kind == "decorator") ∘ r) =
      p.plainChildren.filter fun c => c.node.kind == "decorator" :=
    List.filter_congr fun c hc => by simp [hr.decorator_iff c hc]
  have hdecorated : ((r p).plainChildren.filter fun c => c.kind == "decorator").map
        (treeView source f) =
      (p.node.plainChildren.filter fun c => c.kind == "decorator").map (treeView source f) := by
    rw [hr.plainChildren, ← map_node_plainChildren, List.filter_map, List.filter_map, hkinds]
    exact map_parts (agree_of_map hdecorators)
  rw [Code.functionOf_view, Code.functionOf_view, hid, hdecorated, hcomputed, hr.isGenerator,
    hr.info, hr.map_formalParameters (fun _ h => h.1) (fun _ h => h.1) hformal,
    hr.map_formalParameters (fun _ h => h.2) (fun _ h => h.2) hformal,
    hr.map_field? (agree_of_toList hbody)]

theorem declaratorOf_view
    (hname : ∀ x ∈ ((p.field? .name).map (readAs .name)).toList, x.Kept source f r)
    (hvalue : ∀ x ∈ ((p.field? .value).map (readAs .expression)).toList, x.Kept source f r) :
    ((declaratorOf source (r p)).mapSources f).map (viewOf source f) =
      ((declaratorOf source p.node).mapSources f).map (viewOf source f) := by
  have hdeclared : declaredName? source (r p) = declaredName? source p.node :=
    hr.bind_field? fun c hc => by
      have hinfo := (agree_of_toList hname c hc).1
      rw [ParseTree.identifier?_of_info_eq source hinfo, ParseTree.kind, ParseTree.kind, hinfo]
  rw [Code.declaratorOf_view, Code.declaratorOf_view, hdeclared,
    hr.map_field? fun c hc => (agree_of_toList hname c hc).2,
    hr.map_field? (agree_of_toList hvalue)]

theorem assignmentOf_view
    (hleft : ∀ x ∈ ((p.field? .left).map (readAs .target)).toList, x.Kept source f r)
    (hright : ∀ x ∈ ((p.field? .right).map (readAs .expression)).toList, x.Kept source f r) :
    ((assignmentOf source (r p)).mapSources f).map (viewOf source f) =
      ((assignmentOf source p.node).mapSources f).map (viewOf source f) := by
  rw [Code.assignmentOf_view, Code.assignmentOf_view, hr.map_field? (agree_of_toList hleft),
    hr.map_field? (agree_of_toList hright)]

theorem propertyOf_view
    (hkey : ∀ x ∈ (p.key?.map (readAs .name)).toList, x.Kept source f r)
    (hvalue : ∀ x ∈ ((p.field? .value).map (readAs .expression)).toList, x.Kept source f r) :
    ((propertyOf source (r p)).mapSources f).map (viewOf source f) =
      ((propertyOf source p.node).mapSources f).map (viewOf source f) := by
  have hplain : (Code.key? (r p)).bind
        (fun key => if isComputedName key then none else key.identifier? source) =
      (Code.key? p.node).bind
        (fun key => if isComputedName key then none else key.identifier? source) := by
    rw [hr.key?, ← map_node_key?]
    refine bind_part fun c hc => ?_
    have hinfo := (agree_of_toList hkey c hc).1
    rw [ParseTree.identifier?_of_info_eq source hinfo, isComputedName, isComputedName,
      ParseTree.kind, ParseTree.kind, hinfo]
  have hcomputed : (Code.key? (r p)).bind (computedView? source f) =
      (Code.key? p.node).bind (computedView? source f) := by
    rw [hr.key?, ← map_node_key?]
    exact bind_part fun c hc => computedView?_congr (agree_of_toList hkey c hc)
  rw [Code.propertyOf_view, Code.propertyOf_view, hplain, hcomputed,
    hr.map_field? (agree_of_toList hvalue)]

/-- A default in an object pattern names its value, or is nothing special. -/
theorem shorthandDefaultOf_view
    (hleft : ∀ x ∈ ((p.field? .left).map (readAs .name)).toList, x.Kept source f r)
    (hrest : ∀ x ∈ (if p.isShorthand then ((p.field? .right).map (readAs .expression)).toList
      else p.plainChildrenBesideLeft.map (readAs .expression)), x.Kept source f r) :
    ((shorthandDefaultOf source (r p)).mapSources f).map (viewOf source f) =
      ((shorthandDefaultOf source p.node).mapSources f).map (viewOf source f) := by
  have hrendered := hr.field? .left
  have hnode := map_node_field? p .left
  rw [isShorthand, ← hnode] at hrest
  rw [shorthandDefaultOf, shorthandDefaultOf, hrendered, ← hnode]
  cases hfield : p.field? .left with
  | none =>
      rw [hfield] at hrest
      refine hr.otherOf_view fun c hc => agree_of_map hrest c ?_
      simp [plainChildrenBesideLeft, hfield, hc]
  | some left =>
      obtain ⟨hinfo, hview⟩ := agree_of_toList hleft left hfield
      have hkind : (r left).kind = left.node.kind := congrArg NodeInfo.kind hinfo
      rw [hfield] at hrest
      simp only [Option.map_some, Option.any_some, beq_iff_eq] at hrest ⊢
      rw [hkind, ParseTree.identifier?_of_info_eq source hinfo]
      split
      · rename_i hshorthand
        rw [if_pos hshorthand] at hrest
        have hright := hr.map_field? (F := treeView source f) (agree_of_toList hrest)
        simp only [Shape.mapSources, Shape.map, Option.map_map]
        exact congrArg _ hright
      · rename_i hshorthand
        rw [if_neg hshorthand] at hrest
        refine hr.otherOf_view fun c hc => ?_
        -- the node on the left is read as a name, which gives its code as well
        by_cases heq : left.address = c.address
        · have hsame : left = c := eq_of_mem_children (mem_children_of_field? hfield)
            (mem_children_of_mem_plainChildren hc) heq
          exact hsame ▸ hview
        · exact agree_of_map hrest c (by simp [plainChildrenBesideLeft, hfield, hc, heq])

theorem layerView_eq (h : ∀ x ∈ p.codeReadings, x.Kept source f r) :
    layerView source f (r p) = layerView source f p.node := by
  rw [codeReadings] at h
  rw [layerView, layerView, bareShapeOf, bareShapeOf, hr.kind]
  cases hconstruct : Construct.ofKind p.node.kind <;>
    simp only [hconstruct, List.forall_mem_append] at h ⊢
  case function =>
    obtain ⟨hdecorators, hname, hformal, hbody⟩ := h
    exact congrArg Shape.function (hr.functionOf_view hdecorators hname hformal hbody)
  case declarator => exact hr.declaratorOf_view h.1 h.2
  case statement =>
    have hexpression : (r p).firstPlain?.map (treeView source f) =
        p.node.firstPlain?.map (treeView source f) := by
      rw [hr.firstPlain?, ← map_node_firstPlain?]
      exact map_part (agree_of_toList h)
    simp only [Shape.mapSources, Shape.map, Option.map_map]
    exact congrArg Shape.statement hexpression
  case assignment => exact hr.assignmentOf_view h.1 h.2
  case property => exact hr.propertyOf_view h.1 h.2
  case shorthandDefault => exact hr.shorthandDefaultOf_view h.1 h.2
  case string => rw [ParseTree.text_of_info_eq source hr.info]
  case plainLiteral => rw [ParseTree.text_of_info_eq source hr.info]
  case other => exact hr.otherOf_view (agree_of_map h)

/-! ### Readings -/

theorem treeView_eq (h : ∀ x ∈ p.codeReadings, x.Kept source f r) :
    treeView source f (r p) = treeView source f p.node := by
  have hrendered := hr.enclosed?
  have hnode := map_node_enclosed? p
  cases hinner : p.enclosed? with
  | some inner =>
      rw [hinner] at hrendered hnode
      rw [treeView_of_enclosed? source f hrendered, treeView_of_enclosed? source f hnode.symm]
      exact h _ (mem_codeReadings_of_enclosed? hinner)
  | none =>
      rw [hinner] at hrendered hnode
      rw [Code.treeView_eq, Code.treeView_eq, ParseTree.unwrap_of_enclosed?_eq_none hrendered,
        ParseTree.unwrap_of_enclosed?_eq_none hnode.symm, hr.layerView_eq h]

theorem targetView_eq (h : ∀ x ∈ p.targetReadings, x.Kept source f r) :
    targetView source f (r p) = targetView source f p.node := by
  have hrendered := hr.enclosed?
  have hnode := map_node_enclosed? p
  unfold targetReadings at h
  cases hinner : p.enclosed? with
  | some inner =>
      rw [hinner] at hrendered hnode h
      rw [targetView_of_enclosed? source f hrendered, targetView_of_enclosed? source f hnode.symm]
      exact h _ (List.mem_singleton_self _)
  | none =>
      rw [hinner] at hrendered hnode h
      rw [Code.targetView_eq source f hrendered, Code.targetView_eq source f hnode.symm, hr.kind]
      by_cases hmember : p.node.kind = "member_expression"
      · simp only [if_pos hmember, List.forall_mem_append] at h
        have hproperty := hr.bind_field? fun c hc =>
          ParseTree.identifier?_of_info_eq source (agree_of_toList h.2 c hc).1
        rw [if_pos hmember, if_pos hmember, hr.map_field? (agree_of_toList h.1), hproperty]
        simp only [hmember, String.reduceEq, if_false]
      · rw [if_neg hmember, if_neg hmember, ParseTree.identifier?_of_info_eq source hr.info]
        simp only [if_neg hmember] at h
        rw [hr.treeView_eq h]

theorem bindingView_eq (h : ∀ x ∈ p.bindingReadings, x.Kept source f r) :
    bindingView source f (r p) = bindingView source f p.node := by
  have htext := ParseTree.text_of_info_eq source hr.info
  have hcompact : compactText source (r p) = compactText source p.node := by
    rw [compactText, compactText, htext]
  unfold bindingReadings at h
  by_cases hplain : p.node.isPlainBinding = true
  · have hrendered : (r p).isPlainBinding = true := hr.isPlainBinding ▸ hplain
    rw [bindingView_of_plain source f hplain, bindingView_of_plain source f hrendered, htext]
  · rw [if_neg hplain] at h
    by_cases hrest : p.node.kind = "rest_pattern"
    · have hrendered : (r p).kind = "rest_pattern" := hr.kind.trans hrest
      rw [if_pos hrest] at h
      rw [bindingView_of_rest source f hrest, bindingView_of_rest source f hrendered, hcompact,
        hr.firstPlain?, ← map_node_firstPlain?, map_part (agree_of_toList h)]
    · have hrendered : (r p).kind ≠ "rest_pattern" := hr.kind ▸ hrest
      rw [if_neg hrest] at h
      rw [bindingView_of_pattern source f hplain hrest,
        bindingView_of_pattern source f (hr.isPlainBinding ▸ hplain) hrendered, hcompact,
        hr.treeView_eq h]

theorem parameter_agree (htext : ∀ q, f ((r q).text source) = f (q.node.text source))
    (h : ∀ x ∈ p.parameterReadings, x.Kept source f r) :
    Agree source f .parameter (r p) p.node := by
  have hsource {q : Spot} (hq : treeView source f (r q) = treeView source f q.node) :
      sourceView source f (r q) = sourceView source f q.node := by
    rw [sourceView, sourceView, hq, htext]
  have hfields {b d : Field}
      (hb : ∀ x ∈ ((p.field? b).map (readAs .binding)).toList, x.Kept source f r)
      (hd : ∀ x ∈ ((p.field? d).map (readAs .expression)).toList, x.Kept source f r) :
      ((r p).field? b).map (bindingView source f) =
          (p.node.field? b).map (bindingView source f) ∧
        ((r p).field? d).map (sourceView source f) =
          (p.node.field? d).map (sourceView source f) :=
    ⟨hr.map_field? (agree_of_toList hb),
      hr.map_field? fun c hc => hsource (agree_of_toList hd c hc)⟩
  unfold parameterReadings at h
  unfold Agree
  simp only [paramView_eq, defaultView, ParseTree.binding?, ParseTree.default?, hr.kind]
  split_ifs at h ⊢
  · obtain ⟨hb, hd⟩ := List.forall_mem_append.mp h
    rw [(hfields hb hd).1, (hfields hb hd).2]
    exact ⟨rfl, rfl⟩
  · obtain ⟨hb, hd⟩ := List.forall_mem_append.mp h
    rw [(hfields hb hd).1, (hfields hb hd).2]
    exact ⟨rfl, rfl⟩
  · exact ⟨congrArg (fun b => (some b).getD _) (hr.bindingView_eq h), rfl⟩

/-- What is read where a rendition is faithful is kept if what is read below is. -/
theorem kept (role : Role) (htext : ∀ q, f ((r q).text source) = f (q.node.text source))
    (h : ∀ x ∈ (p.readAs role).next, x.Kept source f r) : (p.readAs role).Kept source f r := by
  cases role with
  | expression => exact hr.treeView_eq h
  | target => exact hr.targetView_eq h
  | name => exact ⟨hr.info, hr.treeView_eq h⟩
  | parameters =>
      exact ⟨hr.map_plainChildren fun c hc => (agree_of_map h c hc).1,
        hr.map_plainChildren fun c hc => (agree_of_map h c hc).2⟩
  | parameter => exact hr.parameter_agree htext h
  | binding => exact hr.bindingView_eq h

end Layers

end Spot.Faithful

/-! ## Parentheses taken away -/

namespace Reading

variable {source : ByteArray} {f : String → String} {r : Spot → ParseTree}

/-- What is read is in parentheses, and its rendition is that of what they enclose. -/
def Opened (r : Spot → ParseTree) (x : Reading) : Prop :=
  (x.role = .expression ∨ x.role = .target) ∧
    ∃ inner fields, x.spot.enclosed? = some inner ∧ r x.spot = (r inner).withFields fields

theorem kept_of_opened {x : Reading} (hx : x.Opened r) (h : ∀ y ∈ x.next, y.Kept source f r) :
    x.Kept source f r := by
  obtain ⟨role, p⟩ := x
  obtain ⟨hrole, inner, fields, hinner, hr⟩ := hx
  have hnode : p.node.enclosed? = some inner.node := by
    rw [← Spot.map_node_enclosed?, hinner]
    rfl
  rcases hrole with hrole | hrole
  · cases hrole
    have hkept := h _ (Spot.mem_codeReadings_of_enclosed? hinner)
    show Code.treeView source f (r p) = Code.treeView source f p.node
    rw [hr, Code.treeView_withFields, Code.treeView_of_enclosed? source f hnode]
    exact hkept
  · cases hrole
    have hkept := h (inner.readAs .target) (by
      show _ ∈ p.targetReadings
      rw [Spot.targetReadings, hinner]
      exact List.mem_singleton_self _)
    show Code.targetView source f (r p) = Code.targetView source f p.node
    rw [hr, Code.targetView_withFields, Code.targetView_of_enclosed? source f hnode]
    exact hkept

/-- The readings are kept from the leaves up: at each, by what it is read as. -/
theorem kept_of_forall_mem_all {x : Reading}
    (htext : ∀ q, f ((r q).text source) = f (q.node.text source))
    (hr : ∀ y ∈ x.all, Spot.Faithful r y.spot ∨ y.Opened r) : x.Kept source f r := by
  have hnext : ∀ y ∈ x.next, y.Kept source f r := by
    intro y hy
    have hsmaller := size_lt_of_mem_next hy
    exact kept_of_forall_mem_all htext fun z hz => hr z (mem_all_of_mem_next hy hz)
  rcases hr x (self_mem_all x) with hx | hx
  · exact hx.kept x.role htext hnext
  · exact kept_of_opened hx hnext
termination_by x.spot.node.size

end Reading

namespace Spot

/-- A rendition that is faithful wherever a tree is read, but for parentheses taken away
from expressions and targets, makes the same code but for the sources of defaults. -/
theorem mapSources_rendition {source : ByteArray} {f : String → String} {r : Spot → ParseTree}
    {t : ParseTree} (htext : ∀ q, f ((r q).text source) = f (q.node.text source))
    (hr : ∀ x ∈ t.readings, Faithful r x.spot ∨ x.Opened r) :
    (Code.ofTree source (r (root t))).mapSources f = (Code.ofTree source t).mapSources f :=
  Reading.kept_of_forall_mem_all htext hr

end Spot

end ScriptOutline
