import Mathlib.Data.List.Basic
import ScriptOutline.Outline.Walk
import ScriptOutline.Proofs.Address

/-!
# The outline by positions

What the walk adds, said without the walk: one entry for each address in the code
that holds a function, in the order of the addresses. The level counts the
functions above an address, the name comes from the nearest hint above it. Main
statement: `walk_eq_entries_at_functions`.
-/

namespace ScriptOutline.Code

/-! ## What stands at an address -/

def at? (c : Code) : Address → Option Code
  | [] => some c
  | i :: rest => c.children[i]?.bind fun child => child.at? rest

def function? (c : Code) : Option (FunctionDef Code) :=
  match c.shape with
  | .function f => some f
  | _ => none

def functionAt? (c : Code) (a : Address) : Option (FunctionDef Code) := (c.at? a).bind function?

def functionsAbove (c : Code) (a : Address) : Nat :=
  a.above.countP fun b => (c.functionAt? b).isSome

/-- The hint of the nearest node above an address that gives one, be it empty. -/
def hintAbove? (c : Code) (a : Address) : Option String :=
  a.above.reverse.findSome? fun b => (c.at? b).bind hint?

def nameAt (c : Code) (hint : String) (a : Address) (f : FunctionDef Code) : String :=
  match f.id with
  | some id => id
  | none =>
      if (c.hintAbove? a).getD hint = "" then placeholder else (c.hintAbove? a).getD hint

/-- The entry of the function at an address, with the hint and the level that hold
around the code. -/
def entryAt? (c : Code) (hint : String) (level : Nat) (a : Address) : Option Entry :=
  (c.functionAt? a).map fun f =>
    { name := c.nameAt hint a f
      line := f.line
      category := Category.of (c.nameAt hint a f) f.generator
      level := level + c.functionsAbove a
      args := arguments f.params f.defaults }

/-! ## One step down -/

section Step

variable {c child : Code} {i : Nat} (h : c.children[i]? = some child) (rest : Address)
include h

theorem at?_cons : c.at? (i :: rest) = child.at? rest := by
  rw [at?, h, Option.bind_some]

theorem functionAt?_cons : c.functionAt? (i :: rest) = child.functionAt? rest := by
  rw [functionAt?, at?_cons h, functionAt?]

theorem functionsAbove_cons :
    c.functionsAbove (i :: rest) =
      (if c.function?.isSome then 1 else 0) + child.functionsAbove rest := by
  have hbelow : (fun b => (c.functionAt? b).isSome) ∘ (i :: ·) =
      fun b => (child.functionAt? b).isSome := by
    funext b
    simp only [Function.comp, functionAt?_cons h]
  rw [functionsAbove, Address.above, List.countP_cons, List.countP_map, hbelow, functionsAbove,
    Nat.add_comm]
  rfl

theorem hintAbove?_cons : c.hintAbove? (i :: rest) = (child.hintAbove? rest).or c.hint? := by
  have hbelow : (fun b => (c.at? b).bind hint?) ∘ (i :: ·) = fun b => (child.at? b).bind hint? := by
    funext b
    simp only [Function.comp, at?_cons h]
  rw [hintAbove?, Address.above, List.reverse_cons, List.findSome?_append, ← List.map_reverse,
    List.findSome?_map, hbelow, hintAbove?]
  simp [at?]

end Step

/-! ## What a visit hands down -/

theorem shape_of_function? {c : Code} {f : FunctionDef Code} (h : c.function? = some f) :
    c.shape = .function f := by
  unfold function? at h
  split at h
  · rename_i hshape
    rw [hshape, Option.some.inj h]
  · cases h

theorem visit_of_function? {c : Code} {f : FunctionDef Code} (h : c.function? = some f)
    (hint : String) (level : Nat) : c.visit hint level = .declaration (f.entry hint level) := by
  rw [visit, shape_of_function? h]

theorem hint?_of_function? {c : Code} {f : FunctionDef Code} (h : c.function? = some f) :
    c.hint? = none := by
  rw [hint?, shape_of_function? h]

theorem visit_of_function?_eq_none {c : Code} (h : c.function? = none) (hint : String)
    (level : Nat) : c.visit hint level = (c.hint?.map Visit.hint).getD .nothing := by
  unfold visit
  split
  · rename_i f hshape
    simp [function?, hshape] at h
  · cases c.hint? <;> rfl

theorem declared?_visit (c : Code) (hint : String) (level : Nat) :
    (c.visit hint level).declared? = c.function?.map fun f => f.entry hint level := by
  cases hf : c.function? with
  | some f => rw [visit_of_function? hf]; rfl
  | none => rw [visit_of_function?_eq_none hf]; cases c.hint? <;> rfl

theorem levelBelow_visit (c : Code) (hint : String) (level : Nat) :
    (c.visit hint level).levelBelow level = level + if c.function?.isSome then 1 else 0 := by
  cases hf : c.function? with
  | some f => rw [visit_of_function? hf]; rfl
  | none => rw [visit_of_function?_eq_none hf]; cases c.hint? <;> rfl

theorem hintBelow_visit (c : Code) (hint : String) (level : Nat) :
    (c.visit hint level).hintBelow hint = c.hint?.getD hint := by
  cases hf : c.function? with
  | some f => rw [visit_of_function? hf, hint?_of_function? hf]; rfl
  | none => rw [visit_of_function?_eq_none hf]; cases c.hint? <;> rfl

/-- The outline of code with everything that a visit hands down said outright. -/
theorem outline_eq_flatMap (hint : String) (level : Nat) (c : Code) :
    c.outline hint level =
      (c.function?.map fun f => f.entry hint level).toList ++
        c.children.flatMap
          (outline (c.hint?.getD hint) (level + if c.function?.isSome then 1 else 0)) := by
  rw [outline_eq, declared?_visit, levelBelow_visit, hintBelow_visit]

/-! ## All addresses -/

def addresses (c : Code) : List Address :=
  [] :: c.children.zipIdx.attach.flatMap fun part => (addresses part.1.1).map (part.1.2 :: ·)
termination_by sizeOf c
decreasing_by exact sizeOf_lt_of_mem_children (List.fst_mem_of_mem_zipIdx part.2)

theorem addresses_eq (c : Code) :
    c.addresses =
      [] :: c.children.zipIdx.flatMap fun part => part.1.addresses.map (part.2 :: ·) := by
  rw [addresses, List.flatMap_subtype (g := fun part : Code × Nat =>
    part.1.addresses.map (part.2 :: ·)) fun _ _ => rfl, List.unattach_attach]

theorem cons_mem_addresses_iff {c : Code} {i : Nat} {rest : Address} :
    i :: rest ∈ c.addresses ↔ ∃ child, c.children[i]? = some child ∧ rest ∈ child.addresses := by
  rw [addresses_eq]
  simp only [List.mem_cons, reduceCtorEq, false_or, List.mem_flatMap, List.mem_map,
    List.cons.injEq, Prod.exists, List.mem_zipIdx_iff_getElem?]
  constructor
  · rintro ⟨child, _, hchild, rest, hrest, rfl, rfl⟩
    exact ⟨child, hchild, hrest⟩
  · rintro ⟨child, hchild, hrest⟩
    exact ⟨child, i, hchild, rest, hrest, rfl, rfl⟩

theorem mem_addresses_iff {c : Code} {a : Address} : a ∈ c.addresses ↔ (c.at? a).isSome := by
  induction a generalizing c with
  | nil => rw [addresses_eq]; simp [at?]
  | cons i rest ih =>
      rw [cons_mem_addresses_iff]
      cases hchild : c.children[i]? with
      | none => simp [at?, hchild]
      | some child => simp [at?_cons hchild, ih]

theorem pairwise_lt_addresses (c : Code) : c.addresses.Pairwise (· < ·) := by
  induction c using inductionOnChildren with
  | step c ih =>
      rw [addresses_eq, List.pairwise_cons, List.pairwise_flatMap]
      refine ⟨?_, ?_, ?_⟩
      · intro a ha
        obtain ⟨part, -, ha⟩ := List.mem_flatMap.mp ha
        obtain ⟨rest, -, rfl⟩ := List.mem_map.mp ha
        exact List.nil_lt_cons _ _
      · intro part hpart
        rw [List.pairwise_map]
        exact (ih part.1 (List.fst_mem_of_mem_zipIdx hpart)).imp fun h =>
          List.cons_lt_cons_iff.mpr (.inr ⟨rfl, h⟩)
      · apply (Address.pairwise_snd_lt_zipIdx c.children).imp
        intro first second hlt a ha b hb
        obtain ⟨left, -, rfl⟩ := List.mem_map.mp ha
        obtain ⟨right, -, rfl⟩ := List.mem_map.mp hb
        exact List.cons_lt_cons_iff.mpr (.inl hlt)

/-! ## The outline -/

theorem entryAt?_nil (c : Code) (hint : String) (level : Nat) :
    c.entryAt? hint level [] = c.function?.map fun f => f.entry hint level := rfl

theorem entryAt?_cons {c child : Code} {i : Nat} (h : c.children[i]? = some child)
    (hint : String) (level : Nat) (rest : Address) :
    c.entryAt? hint level (i :: rest) =
      child.entryAt? (c.hint?.getD hint) (level + if c.function?.isSome then 1 else 0) rest := by
  have hname (f : FunctionDef Code) :
      c.nameAt hint (i :: rest) f = child.nameAt (c.hint?.getD hint) rest f := by
    rw [nameAt, hintAbove?_cons h, Option.getD_or, nameAt]
  simp only [entryAt?, functionAt?_cons h, hname, functionsAbove_cons h, Nat.add_assoc]

theorem outline_eq_filterMap (c : Code) (hint : String) (level : Nat) :
    c.outline hint level = c.addresses.filterMap (c.entryAt? hint level) := by
  induction c using inductionOnChildren generalizing hint level with
  | step c ih =>
      have hparts : ∀ part ∈ c.children.zipIdx,
          (part.1.addresses.map (part.2 :: ·)).filterMap (c.entryAt? hint level) =
            part.1.outline (c.hint?.getD hint)
              (level + if c.function?.isSome then 1 else 0) := by
        intro part hpart
        rw [List.filterMap_map, ih part.1 (List.fst_mem_of_mem_zipIdx hpart)]
        apply List.filterMap_congr
        intro rest _
        exact entryAt?_cons (List.mem_zipIdx_iff_getElem?.mp hpart) hint level rest
      have hroot : [[]].filterMap (c.entryAt? hint level) =
          (c.function?.map fun f => f.entry hint level).toList := by
        rw [List.filterMap_cons, entryAt?_nil]
        cases c.function? <;> rfl
      have hchildren : c.children.zipIdx.flatMap (fun part => part.1.outline (c.hint?.getD hint)
            (level + if c.function?.isSome then 1 else 0)) =
          c.children.flatMap (outline (c.hint?.getD hint)
            (level + if c.function?.isSome then 1 else 0)) := by
        rw [← List.flatMap_map, List.zipIdx_map_fst]
      rw [outline_eq_flatMap, addresses_eq, ← List.singleton_append, List.filterMap_append,
        List.filterMap_flatMap, List.flatMap_congr hparts, hchildren, hroot]

/-- A walk adds one entry for each function, in the order of the addresses: its level
counts the functions above it, its name is its own, else the nearest hint above it,
else the hint from around the code. -/
theorem walk_eq_entries_at_functions (c : Code) (found : List Entry) (hint : String)
    (level : Nat) :
    ∃ addresses : List Address,
      addresses.Pairwise (· < ·) ∧
        (∀ a, a ∈ addresses ↔ (c.functionAt? a).isSome) ∧
          c.walk found hint level = found ++ addresses.filterMap (c.entryAt? hint level) := by
  refine ⟨c.addresses.filter fun a => (c.functionAt? a).isSome, ?_, ?_, ?_⟩
  · exact c.pairwise_lt_addresses.filter _
  · intro a
    rw [List.mem_filter, mem_addresses_iff]
    refine ⟨fun h => h.2, fun h => ⟨?_, h⟩⟩
    exact Option.isSome_of_isSome_bind h
  · rw [walk_eq_append, outline_eq_filterMap, List.filterMap_filter]
    congr 1
    apply List.filterMap_congr
    intro a _
    cases hf : c.functionAt? a <;> simp [entryAt?, hf]

end ScriptOutline.Code
