import ScriptOutline.ParseTree.Table
import ScriptOutline.Proofs.DefaultSources

/-!
# Views of trees

The code of a tree, and the parts that its layers are made of, with the recorded sources of
defaults replaced. Every view is put together from the views of the children that it looks
for; the fields that a node fills in the node above it do not show in it.
-/

namespace ScriptOutline

namespace ParseTree

theorem text_of_info_eq (source : ByteArray) {u t : ParseTree} (h : u.info = t.info) :
    u.text source = t.text source := by
  rw [text, text, h]

theorem identifier?_of_info_eq (source : ByteArray) {u t : ParseTree} (h : u.info = t.info) :
    u.identifier? source = t.identifier? source := by
  rw [identifier?, identifier?, text_of_info_eq source h, kind, kind, h]

theorem enclosed?_withFields (fields : List Field) (t : ParseTree) :
    (t.withFields fields).enclosed? = t.enclosed? := by
  cases t
  rfl

end ParseTree

namespace Code

section Views

variable (source : ByteArray) (f : String → String)

def viewOf (part : Operand) : Code := (ofOperand source part).mapSources f

def treeView (t : ParseTree) : Code := viewOf source f (.tree t)

def layerView (t : ParseTree) : Shape Code :=
  ((bareShapeOf source t).mapSources f).map (viewOf source f)

def targetView (t : ParseTree) : Target Code := (targetOf source t).map (viewOf source f)

def bindingView (t : ParseTree) : Param Code where
  name := bindingName source t
  pattern := t.bindingPattern?.map (treeView source f)

def paramView (t : ParseTree) : Param Code := (paramOf source t).map (viewOf source f)

def sourceView (t : ParseTree) : Default Code where
  node := treeView source f t
  source := f (t.text source)

def defaultView (t : ParseTree) : Option (Default Code) := t.default?.map (sourceView source f)

theorem treeView_eq (t : ParseTree) :
    treeView source f t = node (layerView source f t.unwrap) := by
  show (ofTree source t).mapSources f = _
  rw [mapSources_eq, ofTree_eq, shape, Shape.mapSources_map, Shape.map_map]
  rfl

theorem treeView_of_enclosed? {inner t : ParseTree} (h : t.enclosed? = some inner) :
    treeView source f t = treeView source f inner := by
  rw [treeView_eq, treeView_eq, ParseTree.unwrap_of_enclosed? h]

theorem targetView_of_enclosed? {inner t : ParseTree} (h : t.enclosed? = some inner) :
    targetView source f t = targetView source f inner := by
  rw [targetView, targetView, targetOf, targetOf, ParseTree.unwrap_of_enclosed? h]

theorem bindingView_of_plain {t : ParseTree} (h : t.isPlainBinding = true) :
    bindingView source f t = { name := t.text source, pattern := none } := by
  rw [bindingView, bindingName, ParseTree.bindingPattern?, if_pos h, if_pos h]
  rfl

/-- The parameter that collects what is left into a binding. -/
def Param.collecting (b : Param Code) : Param Code := { b with name := "..." ++ b.name }

theorem bindingView_of_rest {t : ParseTree} (h : t.kind = "rest_pattern") :
    bindingView source f t =
      ((t.firstPlain?.map (bindingView source f)).map Param.collecting).getD
        { name := compactText source t, pattern := none } := by
  have hplain : t.isPlainBinding = false := by simp [ParseTree.isPlainBinding, h]
  rw [bindingView, bindingName, ParseTree.bindingPattern?_of_rest h, hplain,
    if_neg Bool.false_ne_true, if_pos h]
  cases t.firstPlain? <;> rfl

theorem bindingView_of_pattern {t : ParseTree} (h : ¬ t.isPlainBinding = true)
    (hrest : t.kind ≠ "rest_pattern") :
    bindingView source f t =
      { name := compactText source t, pattern := some (treeView source f t) } := by
  rw [bindingView, bindingName, ParseTree.bindingPattern?, if_neg h, if_neg h, if_neg hrest,
    if_neg hrest]
  rfl

theorem paramView_eq (t : ParseTree) :
    paramView source f t =
      (t.binding?.map (bindingView source f)).getD { name := "", pattern := none } := by
  rw [paramView, paramOf]
  cases t.binding? with
  | none => rfl
  | some b =>
      simp only [Param.map, Option.map_map]
      rfl

def computedView? (t : ParseTree) : Option Code :=
  if isComputedName t then some (treeView source f t) else none

theorem map_filter_isComputedName (part : Option ParseTree) :
    (part.filter isComputedName).map (treeView source f) =
      part.bind (computedView? source f) := by
  cases part with
  | none => rfl
  | some t => by_cases ht : isComputedName t = true <;> simp [Option.filter, computedView?, ht]

/-- What a target that is not in parentheses comes to. -/
theorem targetView_eq {t : ParseTree} (h : t.enclosed? = none) :
    targetView source f t =
      if t.kind = "identifier" then
        ((t.identifier? source).map Target.identifier).getD (.pattern (treeView source f t))
      else if t.kind = "member_expression" then
        .member (((t.field? .object).map (treeView source f)).getD (viewOf source f .absent))
          ((t.field? .property).bind (ParseTree.identifier? source))
      else .pattern (treeView source f t) := by
  rw [targetView, targetOf, ParseTree.unwrap_of_enclosed?_eq_none h]
  split
  · cases t.identifier? source <;> rfl
  · split
    · cases t.field? .object <;> rfl
    · rfl

/-! ## Layers -/

theorem functionOf_view (t : ParseTree) :
    ((functionOf source t).mapSources f).map (viewOf source f) =
      { id := (t.field? .name).bind (ParseTree.identifier? source)
        decorators :=
          (t.plainChildren.filter fun c => c.kind == "decorator").map (treeView source f)
        computedName := (t.field? .name).bind (computedView? source f)
        params := t.formalParameters.map (paramView source f)
        defaults := t.formalParameters.map (defaultView source f)
        generator := t.isGenerator
        line := t.info.row + 1
        body := (t.field? .body).map (treeView source f) } := by
  simp only [functionOf, FunctionDef.mapSources, FunctionDef.map, List.map_map, Option.map_map,
    ← map_filter_isComputedName]
  congr 1
  apply List.map_congr_left
  intro p _
  simp only [Function.comp, defaultOf, defaultView, Option.map_map]
  rfl

theorem declaratorOf_view (t : ParseTree) :
    ((declaratorOf source t).mapSources f).map (viewOf source f) =
      .declarator (declaredName? source t)
        (if (declaredName? source t).isSome then none
          else (t.field? .name).map (treeView source f))
        ((t.field? .value).map (treeView source f)) := by
  simp only [declaratorOf, Shape.mapSources, Shape.map]
  split <;> simp only [Option.map_map] <;> rfl

theorem assignmentOf_view (t : ParseTree) :
    ((assignmentOf source t).mapSources f).map (viewOf source f) =
      .assignment
        (((t.field? .left).map (targetView source f)).getD (.pattern (viewOf source f .absent)))
        ((t.field? .right).map (treeView source f)) := by
  simp only [assignmentOf, Shape.mapSources, Shape.map, Option.map_map]
  cases t.field? .left <;> rfl

theorem propertyOf_view (t : ParseTree) :
    ((propertyOf source t).mapSources f).map (viewOf source f) =
      .property
        ((key? t).bind fun key => if isComputedName key then none else key.identifier? source)
        ((key? t).bind (computedView? source f))
        ((t.field? .value).map (treeView source f)) := by
  simp only [propertyOf, Shape.mapSources, Shape.map, Option.map_map,
    ← map_filter_isComputedName]
  rfl

theorem otherOf_view (t : ParseTree) :
    ((otherOf t).mapSources f).map (viewOf source f) =
      .other t.kind (t.plainChildren.map (treeView source f)) := by
  simp only [otherOf, Shape.mapSources, Shape.map, List.map_map]
  rfl

/-! ## Fields of the node itself -/

theorem treeView_withFields (fields : List Field) (t : ParseTree) :
    treeView source f (t.withFields fields) = treeView source f t := by
  have hfields := ParseTree.enclosed?_withFields fields t
  cases hinner : t.enclosed? with
  | some inner =>
      rw [treeView_of_enclosed? source f hinner,
        treeView_of_enclosed? source f (hfields.trans hinner)]
  | none =>
      rw [treeView_eq, treeView_eq, ParseTree.unwrap_of_enclosed?_eq_none hinner,
        ParseTree.unwrap_of_enclosed?_eq_none (hfields.trans hinner)]
      cases t
      rfl

theorem targetView_withFields (fields : List Field) (t : ParseTree) :
    targetView source f (t.withFields fields) = targetView source f t := by
  have hfields := ParseTree.enclosed?_withFields fields t
  cases hinner : t.enclosed? with
  | some inner =>
      rw [targetView_of_enclosed? source f hinner,
        targetView_of_enclosed? source f (hfields.trans hinner)]
  | none =>
      rw [targetView_eq source f hinner, targetView_eq source f (hfields.trans hinner),
        treeView_withFields]
      cases t
      rfl

end Views

end Code

end ScriptOutline
