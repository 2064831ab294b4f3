import ScriptOutline.Code.Basic

/-!
# Code unfolded from a seed

A step that turns a seed into a layer over smaller seeds determines code. The
main statements say that the code is what the step says layer by layer, and that
its children come from the seeds in the slots of the first layer.
-/

namespace ScriptOutline.Code

variable {α β : Type}

/-! ## Properties of every part -/

def Param.All (p : α → Prop) (q : Param α) : Prop := ∀ a, q.pattern = some a → p a

def FunctionDef.All (p : α → Prop) (f : FunctionDef α) : Prop :=
  (∀ a, a ∈ f.decorators → p a) ∧ (∀ a, f.computedName = some a → p a) ∧
    (∀ q, q ∈ f.params → q.All p) ∧
      (∀ d, d ∈ f.defaults → ∀ e, d = some e → p e.node) ∧ ∀ a, f.body = some a → p a

def Target.All (p : α → Prop) : Target α → Prop
  | .identifier _ => True
  | .member object _ => p object
  | .pattern binding => p binding

/-- A property that every part of a layer has, defaults without a parameter
included. -/
def Shape.All (p : α → Prop) : Shape α → Prop
  | .function f => f.All p
  | .declarator _ pattern init => (∀ a, pattern = some a → p a) ∧ ∀ a, init = some a → p a
  | .statement expression => ∀ a, expression = some a → p a
  | .assignment target value => target.All p ∧ ∀ a, value = some a → p a
  | .property _ computed value => (∀ a, computed = some a → p a) ∧ ∀ a, value = some a → p a
  | .literal _ => True
  | .other _ children => ∀ a, a ∈ children → p a

theorem FunctionDef.All.imp {p q : α → Prop} {f : FunctionDef α} (h : f.All p)
    (hpq : ∀ a, p a → q a) : f.All q :=
  ⟨fun a ha => hpq a (h.1 a ha), fun a ha => hpq a (h.2.1 a ha),
    fun r hr a ha => hpq a (h.2.2.1 r hr a ha),
    fun d hd e he => hpq e.node (h.2.2.2.1 d hd e he), fun a ha => hpq a (h.2.2.2.2 a ha)⟩

theorem Target.All.imp {p q : α → Prop} {t : Target α} (h : t.All p)
    (hpq : ∀ a, p a → q a) : t.All q := by
  cases t with
  | identifier name => trivial
  | member object property => exact hpq _ h
  | pattern binding => exact hpq _ h

theorem Shape.All.imp {p q : α → Prop} {s : Shape α} (h : s.All p)
    (hpq : ∀ a, p a → q a) : s.All q := by
  cases s with
  | function f => exact FunctionDef.All.imp h hpq
  | declarator id pattern init =>
      exact ⟨fun a ha => hpq a (h.1 a ha), fun a ha => hpq a (h.2 a ha)⟩
  | statement expression => exact fun a ha => hpq a (h a ha)
  | assignment target value => exact ⟨Target.All.imp h.1 hpq, fun a ha => hpq a (h.2 a ha)⟩
  | property key computed value =>
      exact ⟨fun a ha => hpq a (h.1 a ha), fun a ha => hpq a (h.2 a ha)⟩
  | literal value => trivial
  | other kind children => exact fun a ha => hpq a (h a ha)

/-! ## Replacing parts with a property -/

variable {p : α → Prop}

def Param.pmap (f : ∀ a, p a → β) (q : Param α) (h : q.All p) : Param β :=
  { name := q.name, pattern := q.pattern.pmap f h }

def Default.pmap (f : ∀ a, p a → β) (d : Default α) (h : p d.node) : Default β :=
  { node := f d.node h, source := d.source }

def FunctionDef.pmap (g : ∀ a, p a → β) (f : FunctionDef α) (h : f.All p) : FunctionDef β where
  id := f.id
  decorators := f.decorators.pmap g h.1
  computedName := f.computedName.pmap g h.2.1
  params := f.params.pmap (Param.pmap g) h.2.2.1
  defaults := f.defaults.pmap (fun d hd => d.pmap (Default.pmap g) hd) h.2.2.2.1
  generator := f.generator
  line := f.line
  body := f.body.pmap g h.2.2.2.2

def Target.pmap (f : ∀ a, p a → β) : (t : Target α) → t.All p → Target β
  | .identifier name, _ => .identifier name
  | .member object property, h => .member (f object h) property
  | .pattern binding, h => .pattern (f binding h)

def Shape.pmap (f : ∀ a, p a → β) : (s : Shape α) → s.All p → Shape β
  | .function g, h => .function (g.pmap f h)
  | .declarator id pattern init, h => .declarator id (pattern.pmap f h.1) (init.pmap f h.2)
  | .statement expression, h => .statement (expression.pmap f h)
  | .assignment target value, h => .assignment (target.pmap f h.1) (value.pmap f h.2)
  | .property key computed value, h => .property key (computed.pmap f h.1) (value.pmap f h.2)
  | .literal value, _ => .literal value
  | .other kind children, h => .other kind (children.pmap f h)

theorem FunctionDef.pmap_eq_map (g : α → β) (f : FunctionDef α) (h : f.All p) :
    f.pmap (fun a _ => g a) h = f.map g := by
  have hparam : (fun (q : Param α) (hq : q.All p) => q.pmap (fun a _ => g a) hq) =
      fun q _ => q.map g := by
    funext q hq
    exact congrArg (Param.mk q.name) (Option.pmap_eq_map _ _ _ hq)
  have hdefault : (fun (d : Option (Default α)) (hd : ∀ e, d = some e → p e.node) =>
      d.pmap (Default.pmap fun a _ => g a) hd) = fun d _ => d.map (Default.map g) := by
    funext d hd
    cases d <;> rfl
  simp only [FunctionDef.pmap, FunctionDef.map, hparam, hdefault]
  simp

theorem Target.pmap_eq_map (f : α → β) (t : Target α) (h : t.All p) :
    t.pmap (fun a _ => f a) h = t.map f := by
  cases t <;> rfl

theorem Shape.pmap_eq_map (f : α → β) (s : Shape α) (h : s.All p) :
    s.pmap (fun a _ => f a) h = s.map f := by
  cases s with
  | function g => exact congrArg Shape.function (g.pmap_eq_map f h)
  | declarator id pattern init =>
      exact congr (congrArg (Shape.declarator id) (Option.pmap_eq_map _ _ _ h.1))
        (Option.pmap_eq_map _ _ _ h.2)
  | statement expression =>
      exact congrArg Shape.statement (Option.pmap_eq_map _ _ _ h)
  | assignment target value =>
      exact congr (congrArg Shape.assignment (target.pmap_eq_map f h.1))
        (Option.pmap_eq_map _ _ _ h.2)
  | property key computed value =>
      exact congr (congrArg (Shape.property key) (Option.pmap_eq_map _ _ _ h.1))
        (Option.pmap_eq_map _ _ _ h.2)
  | literal value => rfl
  | other kind children => exact congrArg (Shape.other kind) (List.pmap_eq_map h)

/-! ## Unfolding -/

/-- The code that a step builds from a seed, given that the seeds in a layer are
smaller than the seed of the layer. -/
def unfold (step : α → Shape α) (size : α → Nat)
    (smaller : ∀ seed, (step seed).All fun part => size part < size seed) (seed : α) : Code :=
  node ((step seed).pmap (fun part _ => unfold step size smaller part) (smaller seed))
termination_by size seed

variable (step : α → Shape α) (size : α → Nat)
  (smaller : ∀ seed, (step seed).All fun part => size part < size seed)

/-- Unfolded code is what the step says, with every seed in it unfolded. -/
theorem unfold_eq (seed : α) :
    unfold step size smaller seed = node ((step seed).map (unfold step size smaller)) := by
  rw [unfold, Shape.pmap_eq_map]

theorem children_unfold (seed : α) :
    (unfold step size smaller seed).children =
      (step seed).slots.map (unfold step size smaller) := by
  rw [unfold_eq]
  exact Shape.slots_map _ _

end ScriptOutline.Code
