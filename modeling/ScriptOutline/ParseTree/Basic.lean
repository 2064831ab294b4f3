import ScriptOutline.Text.Slice

/-!
# Parse trees

The concrete tree that a grammar assigns to a source. A node has a kind, a span
of the source and children; a child may fill fields of its parent. Nodes that a
grammar names carry the structure, the others are punctuation and keywords.
Extras, such as comments, may stand anywhere; missing nodes were put in by the
recovery from an error and cover no text.
-/

namespace ScriptOutline

inductive Field where
  | body | key | left | name | object | parameter | parameters | pattern | property
  | right | value
deriving DecidableEq, Repr

/-- What is known of a node without its children. Positions count bytes, rows
count from zero. -/
structure NodeInfo where
  kind : String
  named : Bool
  extra : Bool
  missing : Bool
  start : Nat
  stop : Nat
  row : Nat
  /-- The fields of its parent that the node fills. -/
  fields : List Field
deriving DecidableEq, Repr

inductive ParseTree where
  | node (info : NodeInfo) (children : List ParseTree)

namespace ParseTree

def info : ParseTree → NodeInfo
  | node info _ => info

def children : ParseTree → List ParseTree
  | node _ children => children

def kind (t : ParseTree) : String := t.info.kind

/-! ## Size -/

mutual

def size : ParseTree → Nat
  | node _ children => 1 + sizeAll children

def sizeAll : List ParseTree → Nat
  | [] => 0
  | t :: rest => t.size + sizeAll rest

end

theorem size_pos (t : ParseTree) : 0 < t.size := by
  cases t with
  | node info children =>
      rw [size]
      omega

theorem size_le_sizeAll_of_mem {t : ParseTree} {trees : List ParseTree} (h : t ∈ trees) :
    t.size ≤ sizeAll trees := by
  induction trees with
  | nil => cases h
  | cons first rest ih =>
      rw [sizeAll]
      rcases List.mem_cons.mp h with rfl | hrest
      · omega
      · have := ih hrest
        omega

theorem size_lt_of_mem_children {c t : ParseTree} (h : c ∈ t.children) : c.size < t.size := by
  cases t with
  | node info children =>
      have := size_le_sizeAll_of_mem (show c ∈ children from h)
      rw [size]
      omega

/-! ## Children with a part to play -/

def field? (t : ParseTree) (f : Field) : Option ParseTree :=
  t.children.find? fun c => c.info.fields.contains f

def plainChildren (t : ParseTree) : List ParseTree :=
  t.children.filter fun c => c.info.named && !c.info.extra

def firstPlain? (t : ParseTree) : Option ParseTree := t.plainChildren.head?

def onlyPlain? (t : ParseTree) : Option ParseTree :=
  match t.plainChildren with
  | [c] => some c
  | _ => none

theorem mem_children_of_field? {c t : ParseTree} {f : Field} (h : t.field? f = some c) :
    c ∈ t.children :=
  List.mem_of_find?_eq_some h

theorem mem_children_of_mem_plainChildren {c t : ParseTree} (h : c ∈ t.plainChildren) :
    c ∈ t.children :=
  (List.mem_filter.mp h).1

theorem mem_children_of_firstPlain? {c t : ParseTree} (h : t.firstPlain? = some c) :
    c ∈ t.children :=
  mem_children_of_mem_plainChildren (List.mem_of_head? h)

theorem mem_children_of_onlyPlain? {c t : ParseTree} (h : t.onlyPlain? = some c) :
    c ∈ t.children := by
  unfold onlyPlain? at h
  split at h
  · rename_i only heq
    cases h
    exact mem_children_of_mem_plainChildren (heq ▸ List.mem_singleton_self _)
  · cases h

/-! ## Parentheses -/

def enclosed? (t : ParseTree) : Option ParseTree :=
  if t.kind = "parenthesized_expression" then t.onlyPlain? else none

theorem mem_children_of_enclosed? {c t : ParseTree} (h : t.enclosed? = some c) :
    c ∈ t.children := by
  unfold enclosed? at h
  split at h
  · exact mem_children_of_onlyPlain? h
  · cases h

theorem size_lt_of_enclosed? {c t : ParseTree} (h : t.enclosed? = some c) :
    c.size < t.size :=
  size_lt_of_mem_children (mem_children_of_enclosed? h)

/-- The node inside all parentheses around it. -/
def unwrap (t : ParseTree) : ParseTree :=
  match _h : t.enclosed? with
  | some inner => inner.unwrap
  | none => t
termination_by t.size
decreasing_by exact size_lt_of_enclosed? _h

theorem unwrap_of_enclosed? {c t : ParseTree} (h : t.enclosed? = some c) :
    t.unwrap = c.unwrap := by
  rw [unwrap]
  split
  · simp_all
  · simp_all

theorem unwrap_of_enclosed?_eq_none {t : ParseTree} (h : t.enclosed? = none) :
    t.unwrap = t := by
  rw [unwrap]
  split
  · simp_all
  · rfl

theorem size_unwrap_le (t : ParseTree) : t.unwrap.size ≤ t.size := by
  fun_induction unwrap t with
  | case1 t inner h ih => exact Nat.le_trans ih (Nat.le_of_lt (size_lt_of_enclosed? h))
  | case2 t h => exact Nat.le_refl _

/-! ## Text -/

def text (source : ByteArray) (t : ParseTree) : String :=
  String.ofList (Text.slice source t.info.start t.info.stop)

mutual

def preorder : ParseTree → List ParseTree
  | node info children => node info children :: preorderAll children

def preorderAll : List ParseTree → List ParseTree
  | [] => []
  | t :: rest => t.preorder ++ preorderAll rest

end

theorem preorder_eq (t : ParseTree) : t.preorder = t :: t.children.flatMap preorder := by
  have hall (trees : List ParseTree) : preorderAll trees = trees.flatMap preorder := by
    induction trees with
    | nil => rfl
    | cons t rest ih => rw [preorderAll, ih, List.flatMap_cons]
  cases t with
  | node info trees => rw [preorder, hall, ParseTree.children]

theorem self_mem_preorder (t : ParseTree) : t ∈ t.preorder := by
  rw [preorder_eq]
  exact List.mem_cons_self

theorem preorder_subset_of_mem_children {c t : ParseTree} (h : c ∈ t.children) :
    c.preorder ⊆ t.preorder := by
  intro u hu
  rw [preorder_eq t]
  exact List.mem_cons_of_mem _ (List.mem_flatMap.mpr ⟨c, h, hu⟩)

theorem mem_preorder_of_mem_children {c t : ParseTree} (h : c ∈ t.children) :
    c ∈ t.preorder :=
  preorder_subset_of_mem_children h c.self_mem_preorder

theorem preorder_subset_of_mem {t u : ParseTree} (h : u ∈ t.preorder) :
    u.preorder ⊆ t.preorder := by
  rw [preorder_eq] at h
  rcases List.mem_cons.mp h with rfl | h
  · exact List.Subset.refl _
  · obtain ⟨c, hc, hu⟩ := List.mem_flatMap.mp h
    exact List.Subset.trans (preorder_subset_of_mem hu) (preorder_subset_of_mem_children hc)
termination_by t.size
decreasing_by exact size_lt_of_mem_children hc

theorem preorder_unwrap_subset (t : ParseTree) : t.unwrap.preorder ⊆ t.preorder := by
  fun_induction unwrap t with
  | case1 t inner h ih =>
      have hinner := mem_children_of_enclosed? h
      exact List.Subset.trans ih (preorder_subset_of_mem_children hinner)
  | case2 t h => exact List.Subset.refl _

end ParseTree

end ScriptOutline
