/-!
# File trees

A tree of files, symbolic links and directories. A directory lists its entries
by name; `insert` keeps the names in increasing order, each once, so that the
order of entries is the order of their paths.
-/

namespace ScriptOutline

inductive FileTree where
  | file (bytes : ByteArray)
  | link (target : String)
  | directory (entries : List (String × FileTree))

namespace FileTree

def empty : FileTree := directory []

def entries : FileTree → List (String × FileTree)
  | directory entries => entries
  | _ => []

def child? (tree : FileTree) (name : String) : Option FileTree := tree.entries.lookup name

/-! ## Entries of one directory -/

def setEntry (name : String) (value : FileTree) :
    List (String × FileTree) → List (String × FileTree)
  | [] => [(name, value)]
  | (other, tree) :: rest =>
      if name < other then (name, value) :: (other, tree) :: rest
      else if name = other then (name, value) :: rest
      else (other, tree) :: setEntry name value rest

/-- Each name stands before the greater ones, so none stands twice. -/
def NamesSorted (list : List (String × FileTree)) : Prop :=
  list.Pairwise fun left right => left.1 < right.1

theorem mem_setEntry {name : String} {value : FileTree} {list : List (String × FileTree)}
    {entry : String × FileTree} (h : entry ∈ setEntry name value list) :
    entry = (name, value) ∨ entry ∈ list := by
  induction list with
  | nil => exact Or.inl (List.mem_singleton.mp h)
  | cons first rest ih =>
      obtain ⟨other, tree⟩ := first
      rw [setEntry] at h
      split at h
      · exact List.mem_cons.mp h
      · split at h
        · rcases List.mem_cons.mp h with h | h
          · exact Or.inl h
          · exact Or.inr (List.mem_cons_of_mem _ h)
        · rcases List.mem_cons.mp h with h | h
          · exact Or.inr (h ▸ List.mem_cons_self)
          · exact (ih h).imp_right (List.mem_cons_of_mem _)

theorem namesSorted_setEntry (name : String) (value : FileTree)
    {list : List (String × FileTree)} (h : NamesSorted list) :
    NamesSorted (setEntry name value list) := by
  induction list with
  | nil => exact List.pairwise_singleton _ _
  | cons first rest ih =>
      obtain ⟨other, tree⟩ := first
      obtain ⟨hbefore, hrest⟩ := List.pairwise_cons.mp h
      rw [setEntry]
      split
      · rename_i hlt
        refine List.pairwise_cons.mpr ⟨?_, h⟩
        intro entry hmem
        rcases List.mem_cons.mp hmem with rfl | hmem
        · exact hlt
        · exact String.lt_trans hlt (hbefore entry hmem)
      · split
        · rename_i heq
          exact List.pairwise_cons.mpr ⟨fun entry hmem => heq ▸ hbefore entry hmem, hrest⟩
        · rename_i hnot hne
          refine List.pairwise_cons.mpr ⟨?_, ih hrest⟩
          intro entry hmem
          rcases mem_setEntry hmem with rfl | hmem
          · exact String.not_le.mp fun hle =>
              hne (String.le_antisymm hle (String.not_lt.mp hnot))
          · exact hbefore entry hmem

/-! ## Whole trees -/

/-- The tree with a leaf put at a path. What lies in the way of the path becomes a
directory, and an empty directory leaves an existing one as it is. -/
def insert (leaf : FileTree) : List String → FileTree → FileTree
  | [], tree =>
      match leaf, tree with
      | directory [], directory entries => directory entries
      | _, _ => leaf
  | name :: path, tree =>
      directory (setEntry name (insert leaf path ((tree.child? name).getD empty)) tree.entries)

def erase : List String → FileTree → FileTree
  | [], _ => empty
  | [name], tree => directory (tree.entries.filter fun entry => entry.1 != name)
  | name :: path, tree =>
      match tree.child? name with
      | some inner => directory (setEntry name (erase path inner) tree.entries)
      | none => tree

end FileTree

end ScriptOutline
