import ScriptOutline.Proofs.Arrivals
import ScriptOutline.Proofs.Parts

/-!
# The recorded sources of defaults

A default keeps the text it was written as beside its code. These texts can be replaced
everywhere in code without a change to anything else; an outline shows them in arguments
and nowhere else. Main statement: `outline_mapSources`.
-/

namespace ScriptOutline

def Entry.withoutArgs (e : Entry) : Entry := { e with args := [] }

namespace Code

variable {α β γ : Type}

/-! ## Layers -/

theorem FunctionDef.map_map (g : β → γ) (f : α → β) (d : FunctionDef α) :
    (d.map f).map g = d.map (g ∘ f) := by
  have hdefault : Option.map (Default.map g) ∘ Option.map (Default.map f) =
      Option.map (Default.map (g ∘ f)) := by
    funext d
    cases d <;> rfl
  simp [FunctionDef.map, Param.map, hdefault, Function.comp_def]

theorem Target.map_map (g : β → γ) (f : α → β) (t : Target α) :
    (t.map f).map g = t.map (g ∘ f) := by
  cases t <;> rfl

theorem Shape.map_map (g : β → γ) (f : α → β) (s : Shape α) :
    (s.map f).map g = s.map (g ∘ f) := by
  cases s <;> simp [Shape.map, FunctionDef.map_map, Target.map_map]

private theorem option_map_eq_self {f : α → α} {part : Option α}
    (h : ∀ a, part = some a → f a = a) : part.map f = part := by
  cases part with
  | none => rfl
  | some a => exact congrArg some (h a rfl)

private theorem list_map_eq_self {f : α → α} {parts : List α} (h : ∀ a ∈ parts, f a = a) :
    parts.map f = parts := by
  rw [List.map_congr_left h, List.map_id']

theorem FunctionDef.map_eq_self {f : α → α} {d : FunctionDef α} (h : d.All fun a => f a = a) :
    d.map f = d := by
  obtain ⟨hdecorators, hname, hparams, hdefaults, hbody⟩ := h
  have hparam : ∀ q ∈ d.params, q.map f = q := fun q hq =>
    congrArg (Param.mk q.name) (option_map_eq_self (hparams q hq))
  have hdefault : ∀ e ∈ d.defaults, e.map (Default.map f) = e := fun e he =>
    option_map_eq_self fun v hv =>
      congrArg (fun node => Default.mk node v.source) (hdefaults e he v hv)
  rw [FunctionDef.map, list_map_eq_self hdecorators, option_map_eq_self hname,
    list_map_eq_self hparam, list_map_eq_self hdefault, option_map_eq_self hbody]

theorem Target.map_eq_self {f : α → α} {t : Target α} (h : t.All fun a => f a = a) :
    t.map f = t := by
  cases t with
  | identifier name => rfl
  | member object property => exact congrArg (Target.member · property) h
  | pattern binding => exact congrArg Target.pattern h

theorem Shape.map_eq_self {f : α → α} {s : Shape α} (h : s.All fun a => f a = a) :
    s.map f = s := by
  cases s with
  | function d => exact congrArg Shape.function (FunctionDef.map_eq_self h)
  | declarator id pattern init =>
      rw [Shape.map, option_map_eq_self h.1, option_map_eq_self h.2]
  | statement expression => exact congrArg Shape.statement (option_map_eq_self h)
  | assignment target value =>
      rw [Shape.map, Target.map_eq_self h.1, option_map_eq_self h.2]
  | property key computed value =>
      rw [Shape.map, option_map_eq_self h.1, option_map_eq_self h.2]
  | literal value => rfl
  | other kind children => exact congrArg (Shape.other kind) (list_map_eq_self h)

def Default.mapSource (f : String → String) (d : Default α) : Default α :=
  { d with source := f d.source }

def FunctionDef.mapSources (f : String → String) (d : FunctionDef α) : FunctionDef α :=
  { d with defaults := d.defaults.map (Option.map (Default.mapSource f)) }

def Shape.mapSources (f : String → String) : Shape α → Shape α
  | .function d => .function (d.mapSources f)
  | s => s

variable (f : String → String)

theorem Shape.mapSources_map (g : α → β) (s : Shape α) :
    (s.map g).mapSources f = (s.mapSources f).map g := by
  cases s with
  | function d =>
      simp [Shape.map, Shape.mapSources, FunctionDef.map, FunctionDef.mapSources, Default.map,
        Default.mapSource, Function.comp_def]
  | _ => rfl

theorem Shape.parts_mapSources (s : Shape α) : (s.mapSources f).parts = s.parts := by
  cases s with
  | function d =>
      simp [Shape.mapSources, Shape.parts, FunctionDef.parts, FunctionDef.mapSources,
        List.filterMap_map, Default.mapSource, Function.comp_def]
  | _ => rfl

theorem paramSlots_mapSources (params : List (Param α)) (defaults : List (Option (Default α))) :
    paramSlots params (defaults.map (Option.map (Default.mapSource f))) =
      paramSlots params defaults := by
  induction params generalizing defaults with
  | nil => rfl
  | cons p params ih =>
      cases defaults with
      | nil => rfl
      | cons d defaults => cases d <;> simp [paramSlots, ih, Default.mapSource]

theorem Shape.slots_mapSources (s : Shape α) : (s.mapSources f).slots = s.slots := by
  cases s with
  | function d =>
      simp [Shape.mapSources, Shape.slots, FunctionDef.slots, FunctionDef.mapSources,
        paramSlots_mapSources]
  | _ => rfl

theorem Shape.mapSources_id (s : Shape α) : s.mapSources id = s := by
  cases s with
  | function d =>
      have hid : Default.mapSource (α := α) id = id := rfl
      simp [Shape.mapSources, FunctionDef.mapSources, hid]
  | _ => rfl

/-! ## Code -/

theorem all_mapSources (c : Code) :
    (c.shape.mapSources f).All fun part => sizeOf part < sizeOf c := by
  rw [Shape.all_iff, Shape.parts_mapSources]
  exact fun part hpart => sizeOf_lt_of_mem_shape_parts hpart

/-- Code with the recorded sources of its defaults replaced, at whatever depth. -/
def mapSources : Code → Code :=
  unfold (fun c => c.shape.mapSources f) sizeOf (all_mapSources f)

def withoutSources : Code → Code := mapSources fun _ => ""

theorem mapSources_eq (c : Code) :
    c.mapSources f = node ((c.shape.mapSources f).map (mapSources f)) :=
  unfold_eq _ _ _ _

theorem mapSources_id (c : Code) : c.mapSources id = c := by
  rw [mapSources_eq, Shape.mapSources_id, Shape.map_eq_self]
  · cases c
    rfl
  · rw [Shape.all_iff]
    intro part hpart
    have := sizeOf_lt_of_mem_shape_parts hpart
    exact mapSources_id part
termination_by sizeOf c

theorem children_mapSources (c : Code) :
    (c.mapSources f).children = c.children.map (mapSources f) := by
  rw [mapSources_eq, children, shape, Shape.slots_map, Shape.slots_mapSources]
  rfl

theorem function?_mapSources (c : Code) :
    (c.mapSources f).function? = c.function?.map fun d => (d.mapSources f).map (mapSources f) := by
  rw [mapSources_eq, function?, function?, shape]
  cases c.shape <;> rfl

theorem assigned?_mapSources (c : Code) :
    assigned? (c.mapSources f).shape = assigned? c.shape := by
  rw [mapSources_eq, shape]
  cases c.shape with
  | assignment target value => exact name?_map _ target
  | _ => rfl

theorem hint?_mapSources (c : Code) : (c.mapSources f).hint? = c.hint? := by
  rw [mapSources_eq, hint?, hint?, shape]
  cases c.shape with
  | statement expression =>
      cases expression with
      | none => rfl
      | some expression => exact assigned?_mapSources f expression
  | _ => rfl

/-- The recorded sources show in the arguments of an outline and nowhere else. -/
theorem outline_mapSources (hint : String) (level : Nat) (c : Code) :
    ((c.mapSources f).outline hint level).map Entry.withoutArgs =
      (c.outline hint level).map Entry.withoutArgs := by
  induction c using inductionOnChildren generalizing hint level with
  | step c ih =>
      have hchildren (hint : String) (level : Nat) :
          ((c.mapSources f).children.flatMap (outline hint level)).map Entry.withoutArgs =
            (c.children.flatMap (outline hint level)).map Entry.withoutArgs := by
        rw [children_mapSources, List.flatMap_map, List.map_flatMap, List.map_flatMap]
        exact List.flatMap_congr fun child hchild => ih child hchild hint level
      rw [outline_eq_flatMap, outline_eq_flatMap, function?_mapSources, hint?_mapSources,
        List.map_append, List.map_append, hchildren]
      cases c.function? <;> rfl

/-- Code with the same parts but for the recorded sources of defaults has the same outline
but for the arguments. -/
theorem outline_eq_of_withoutSources_eq {c d : Code}
    (h : c.withoutSources = d.withoutSources) (hint : String) (level : Nat) :
    (c.outline hint level).map Entry.withoutArgs =
      (d.outline hint level).map Entry.withoutArgs := by
  rw [← outline_mapSources (fun _ => ""), ← outline_mapSources (fun _ => "") hint level d]
  exact congrArg (fun c => (c.outline hint level).map Entry.withoutArgs) h

end Code

end ScriptOutline
