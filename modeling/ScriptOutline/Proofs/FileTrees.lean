import ScriptOutline.Project.Lookup
import ScriptOutline.Proofs.PathOrder

/-!
# Well-formed file trees

In a well-formed tree every directory lists proper names in increasing order. Putting and
erasing files keeps a tree well formed, and every place that a path leads to is in a
well-formed tree again. The files of a tree are listed in the order of the names that lead
to them. Main statements: `wellFormed_insert`, `wellFormed_erase`, `wellFormed_of_locate`,
`mem_files_iff` and `pairwise_files`.
-/

namespace ScriptOutline

namespace FileTree

/-! ## Well-formed trees -/

inductive WellFormed : FileTree → Prop where
  | file (bytes : ByteArray) : WellFormed (.file bytes)
  | link (target : String) : WellFormed (.link target)
  | directory {entries : List (String × FileTree)} (sorted : NamesSorted entries)
      (named : ∀ entry ∈ entries, Path.IsName entry.1)
      (inner : ∀ entry ∈ entries, WellFormed entry.2) : WellFormed (.directory entries)

variable {t : FileTree} {entries : List (String × FileTree)}

theorem wellFormed_empty : empty.WellFormed :=
  .directory List.Pairwise.nil (List.forall_mem_nil _) (List.forall_mem_nil _)

theorem WellFormed.sorted_entries (h : t.WellFormed) : NamesSorted t.entries := by
  cases h with
  | directory sorted => exact sorted
  | _ => exact List.Pairwise.nil

theorem WellFormed.of_mem_entries (h : t.WellFormed) {entry : String × FileTree}
    (hentry : entry ∈ t.entries) : Path.IsName entry.1 ∧ entry.2.WellFormed := by
  cases h with
  | directory _ named inner => exact ⟨named entry hentry, inner entry hentry⟩
  | _ => cases hentry

theorem mem_of_lookup {α : Type} {name : String} {value : α} {list : List (String × α)}
    (h : list.lookup name = some value) : (name, value) ∈ list := by
  obtain ⟨before, after, rfl, -⟩ := List.lookup_eq_some_iff.mp h
  exact List.mem_append_right _ List.mem_cons_self

/-- Where names are sorted, an entry is found by its name. -/
theorem lookup_of_mem {name : String} {node : FileTree} (h : NamesSorted entries)
    (hmem : (name, node) ∈ entries) : entries.lookup name = some node := by
  induction entries with
  | nil => cases hmem
  | cons first rest ih =>
      obtain ⟨other, found⟩ := first
      obtain ⟨hbefore, hrest⟩ := List.pairwise_cons.mp h
      rcases List.mem_cons.mp hmem with heq | hmem
      · cases heq
        rw [List.lookup_cons, beq_self_eq_true]
      · have hlt : other < name := hbefore _ hmem
        have hne : (name == other) = false := beq_false_of_ne (String.ne_of_lt hlt).symm
        rw [List.lookup_cons, hne]
        exact ih hrest hmem

theorem WellFormed.child? (h : t.WellFormed) {name : String} {node : FileTree}
    (hchild : t.child? name = some node) : Path.IsName name ∧ node.WellFormed :=
  h.of_mem_entries (mem_of_lookup hchild)

theorem WellFormed.setEntry (h : t.WellFormed) {name : String} (hname : Path.IsName name)
    {value : FileTree} (hvalue : value.WellFormed) :
    (FileTree.directory (FileTree.setEntry name value t.entries)).WellFormed := by
  have hentry (entry : String × FileTree) (hmem : entry ∈ FileTree.setEntry name value t.entries) :
      Path.IsName entry.1 ∧ entry.2.WellFormed := by
    rcases mem_setEntry hmem with rfl | hmem
    · exact ⟨hname, hvalue⟩
    · exact h.of_mem_entries hmem
  exact .directory (namesSorted_setEntry name value h.sorted_entries)
    (fun entry hmem => (hentry entry hmem).1) fun entry hmem => (hentry entry hmem).2

theorem wellFormed_insert {leaf : FileTree} (hleaf : leaf.WellFormed) {names : List String}
    (hnames : ∀ name ∈ names, Path.IsName name) (h : t.WellFormed) :
    (insert leaf names t).WellFormed := by
  induction names generalizing t with
  | nil =>
      unfold insert
      split
      · exact h
      · exact hleaf
  | cons name rest ih =>
      obtain ⟨hname, hrest⟩ := List.forall_mem_cons.mp hnames
      rw [insert]
      refine h.setEntry hname (ih hrest ?_)
      cases hchild : t.child? name with
      | none => exact wellFormed_empty
      | some node => exact (h.child? hchild).2

theorem wellFormed_erase {names : List String} (h : t.WellFormed) :
    (erase names t).WellFormed := by
  fun_induction erase names t with
  | case1 => exact wellFormed_empty
  | case2 name tree =>
      have hmem (entry : String × FileTree)
          (hentry : entry ∈ tree.entries.filter fun entry => entry.1 != name) :
          Path.IsName entry.1 ∧ entry.2.WellFormed := h.of_mem_entries (List.mem_filter.mp hentry).1
      exact .directory (h.sorted_entries.filter _) (fun entry hentry => (hmem entry hentry).1)
        fun entry hentry => (hmem entry hentry).2
  | case3 name path tree _ inner hchild ih =>
      exact h.setEntry (h.child? hchild).1 (ih (h.child? hchild).2)
  | case4 => exact h

end FileTree

/-! ## Places -/

/-- A place in a well-formed tree: its node and the directories around it are well formed. -/
structure Place.WellFormed (place : Place) : Prop where
  node : place.node.WellFormed
  trail : ∀ step ∈ place.trail, step.2.WellFormed

namespace Place

theorem wellFormed_outside : outside.WellFormed :=
  ⟨FileTree.wellFormed_empty, List.forall_mem_nil _⟩

theorem WellFormed.above {place : Place} (h : place.WellFormed) : place.above.WellFormed := by
  unfold Place.above
  split
  · exact wellFormed_outside
  · rename_i name node trail htrail
    have hsteps := h.trail
    rw [htrail] at hsteps
    obtain ⟨hnode, hrest⟩ := List.forall_mem_cons.mp hsteps
    exact ⟨hnode, hrest⟩

theorem WellFormed.enter {place : Place} (h : place.WellFormed) (name : String) {node : FileTree}
    (hnode : node.WellFormed) : (place.enter name node).WellFormed :=
  ⟨hnode, List.forall_mem_cons.mpr ⟨h.node, h.trail⟩⟩

theorem WellFormed.startOf {place : Place} (h : place.WellFormed) (path : String) :
    (place.startOf path).WellFormed := by
  unfold Place.startOf
  split
  · exact wellFormed_outside
  · exact h

theorem wellFormed_of_followWith {onLink : Place → List String → Except ReadError Place}
    (hlink : ∀ place pieces found, place.WellFormed → onLink place pieces = .ok found →
      found.WellFormed)
    {place found : Place} {pieces : List String} (h : place.WellFormed)
    (hfound : followWith onLink place pieces = .ok found) : found.WellFormed := by
  induction pieces generalizing place with
  | nil =>
      cases hfound
      exact h
  | cons piece rest ih =>
      rw [followWith] at hfound
      split at hfound
      · rename_i entries hnode
        split at hfound
        · exact ih h hfound
        · split at hfound
          · exact ih h.above hfound
          · split at hfound
            · split at hfound
              · cases hfound
              · exact hlink _ _ _ (h.startOf _) hfound
            · rename_i node _ hlookup
              have hinner := h.node
              rw [hnode] at hinner
              exact ih (h.enter piece (hinner.child? hlookup).2) hfound
            · cases hfound
      · cases hfound

theorem wellFormed_of_follow {links : Nat} {place found : Place} {pieces : List String}
    (h : place.WellFormed) (hfound : follow links place pieces = .ok found) :
    found.WellFormed := by
  induction links generalizing place found pieces with
  | zero => exact wellFormed_of_followWith (fun _ _ _ _ hlink => by cases hlink) h hfound
  | succ links ih =>
      exact wellFormed_of_followWith (fun _ _ _ hplace hlink => ih hplace hlink) h hfound

end Place

namespace FileTree

theorem wellFormed_of_locate {root : FileTree} (h : root.WellFormed) {path : String}
    {place : Place} (hplace : root.locate path = .ok place) : place.WellFormed := by
  rw [locate] at hplace
  split at hplace
  · cases hplace
  · have hstart : (Place.mk root []).WellFormed := ⟨h, List.forall_mem_nil _⟩
    exact Place.wellFormed_of_follow (hstart.startOf path) hplace

/-! ## Files -/

/-- What names lead to from entry to entry; links are not followed. -/
def at? : List String → FileTree → Option FileTree
  | [], t => some t
  | name :: names, t => (t.child? name).bind (at? names)

def HoldsFile (t : FileTree) (names : List String) : Prop :=
  ∃ bytes, t.at? names = some (.file bytes)

mutual

/-- The files in a tree, each by the names that lead to it. -/
def files : FileTree → List (List String)
  | .file _ => [[]]
  | .link _ => []
  | .directory entries => filesAmong entries

def filesAmong : List (String × FileTree) → List (List String)
  | [] => []
  | (name, tree) :: entries => tree.files.map (fun names => name :: names) ++ filesAmong entries

end

variable {t : FileTree} {entries : List (String × FileTree)}

theorem filesAmong_eq (entries : List (String × FileTree)) :
    filesAmong entries =
      entries.flatMap fun entry => entry.2.files.map fun names => entry.1 :: names := by
  induction entries with
  | nil => rfl
  | cons entry rest ih => rw [filesAmong, ih, List.flatMap_cons]

theorem cons_mem_filesAmong_iff {name : String} {names : List String} :
    name :: names ∈ filesAmong entries ↔ ∃ node, (name, node) ∈ entries ∧ names ∈ node.files := by
  rw [filesAmong_eq, List.mem_flatMap]
  constructor
  · rintro ⟨⟨other, node⟩, hentry, hmem⟩
    obtain ⟨inner, hinner, heq⟩ := List.mem_map.mp hmem
    cases heq
    exact ⟨node, hentry, hinner⟩
  · rintro ⟨node, hentry, hinner⟩
    exact ⟨(name, node), hentry, List.mem_map.mpr ⟨names, hinner, rfl⟩⟩

theorem nil_not_mem_filesAmong : [] ∉ filesAmong entries := by
  rw [filesAmong_eq, List.mem_flatMap]
  rintro ⟨entry, -, hmem⟩
  obtain ⟨inner, -, heq⟩ := List.mem_map.mp hmem
  cases heq

/-- Where names are sorted, the files are listed by just the names that lead to one. -/
theorem mem_files_iff (h : t.WellFormed) {names : List String} :
    names ∈ t.files ↔ t.HoldsFile names := by
  induction names generalizing t with
  | nil =>
      cases t with
      | file bytes => exact iff_of_true (List.mem_singleton_self _) ⟨bytes, rfl⟩
      | link target => exact iff_of_false List.not_mem_nil (by rintro ⟨bytes, hfile⟩; cases hfile)
      | directory entries =>
          exact iff_of_false nil_not_mem_filesAmong (by rintro ⟨bytes, hfile⟩; cases hfile)
  | cons name rest ih =>
      cases t with
      | file bytes => simp [files, HoldsFile, at?, child?, FileTree.entries]
      | link target => simp [files, HoldsFile, at?, child?, FileTree.entries]
      | directory entries =>
          rw [files, cons_mem_filesAmong_iff]
          constructor
          · rintro ⟨node, hentry, hrest⟩
            have hlookup := lookup_of_mem h.sorted_entries hentry
            obtain ⟨bytes, hfile⟩ := (ih (h.of_mem_entries hentry).2).mp hrest
            exact ⟨bytes, (congrArg (Option.bind · (at? rest)) hlookup).trans hfile⟩
          · rintro ⟨bytes, hfile⟩
            obtain ⟨node, hchild, hfile⟩ := Option.bind_eq_some_iff.mp hfile
            exact ⟨node, mem_of_lookup hchild, (ih (h.child? hchild).2).mpr ⟨bytes, hfile⟩⟩

theorem isName_of_mem_files (h : t.WellFormed) {names : List String} (hnames : names ∈ t.files) :
    ∀ name ∈ names, Path.IsName name := by
  induction names generalizing t with
  | nil => exact List.forall_mem_nil _
  | cons name rest ih =>
      obtain ⟨bytes, hfile⟩ := (mem_files_iff h).mp hnames
      obtain ⟨node, hchild, hfile⟩ := Option.bind_eq_some_iff.mp hfile
      obtain ⟨hname, hnode⟩ := h.child? hchild
      exact List.forall_mem_cons.mpr ⟨hname, ih hnode ((mem_files_iff hnode).mpr ⟨bytes, hfile⟩)⟩

/-- Files are listed in the order of their names. -/
theorem pairwise_files (h : t.WellFormed) : t.files.Pairwise (· < ·) := by
  induction h with
  | file bytes => exact List.pairwise_singleton _ _
  | link target => exact List.Pairwise.nil
  | directory sorted named inner ih =>
      rw [files, filesAmong_eq, List.pairwise_flatMap]
      constructor
      · intro entry hentry
        exact List.pairwise_map.mpr ((ih entry hentry).imp fun h => .cons h)
      · refine sorted.imp fun {left right} hlt => ?_
        intro names hnames others hothers
        obtain ⟨_, -, rfl⟩ := List.mem_map.mp hnames
        obtain ⟨_, -, rfl⟩ := List.mem_map.mp hothers
        exact .rel hlt

end FileTree

end ScriptOutline
