import ScriptOutline.Project.Sources
import ScriptOutline.Proofs.FileTrees

/-!
# What a scan finds

A scan of a directory finds the files below it whose way passes: every entry on the way has
to be admitted, and the file has to be in some dialect. So the sources of a directory are its
files, filtered and written behind its path, and they stand in the order of their paths.
Main statement: `sources_below_directory`.
-/

namespace ScriptOutline

/-! ## Scopes without rules -/

def Scope.IsRuleless (scope : Scope) : Prop :=
  scope.projectRules.rules = [] ∧ scope.repositoryRules.rules = [] ∧ scope.excludeRules.rules = []

namespace Scopes

theorem mem_of_mem_inRepository {scopes : Scopes} {scope : Scope}
    (h : scope ∈ scopes.inRepository) : scope ∈ scopes := by
  fun_induction inRepository scopes with
  | case1 => exact h
  | case2 first outer hrepository =>
      rw [List.mem_singleton.mp h]
      exact List.mem_cons_self
  | case3 => cases h
  | case4 first outer hrepository hfound ih =>
      rcases List.mem_cons.mp h with rfl | h
      · exact List.mem_cons_self
      · exact List.mem_cons_of_mem _ (ih h)

theorem judge?_eq_none {scopes : Scopes} {file : Scope → RuleFile}
    (h : ∀ scope ∈ scopes, (file scope).rules = []) (isDirectory : Bool) (route : Route) :
    scopes.judge? file isDirectory route = none := by
  refine List.findSome?_eq_none_iff.mpr fun scope hscope => ?_
  rw [Scope.judge?, h scope hscope]
  rfl

/-- Where there are no rules, nothing is said of any entry. -/
theorem verdict?_eq_none {scopes : Scopes} (h : ∀ scope ∈ scopes, scope.IsRuleless)
    (isDirectory : Bool) (route : Route) : scopes.verdict? isDirectory route = none := by
  have hinner (scope : Scope) (hscope : scope ∈ scopes.inRepository) : scope.IsRuleless :=
    h scope (mem_of_mem_inRepository hscope)
  rw [verdict?, judge?_eq_none fun scope hscope => (h scope hscope).1,
    judge?_eq_none fun scope hscope => (hinner scope hscope).2.1,
    judge?_eq_none fun scope hscope => (hinner scope hscope).2.2]
  rfl

end Scopes

/-! ## The way to a file -/

/-- An entry on the way of a scan, with what the scan knows of it. -/
structure Waypoint where
  scopes : Scopes
  route : Route
  name : String
  isDirectory : Bool

namespace Waypoint

def isAdmitted (w : Waypoint) : Bool :=
  ScriptOutline.isAdmitted w.scopes w.route w.name w.isDirectory

def verdict? (w : Waypoint) : Option Verdict := w.scopes.verdict? w.isDirectory w.route

end Waypoint

/-- The entries on the way from a place to the file that names lead to. -/
def waypoints : Scopes → Place → Route → List String → List Waypoint
  | _, _, _, [] => []
  | scopes, place, route, name :: names =>
      let there := route.enter name
      let inner := place.enter name ((place.node.child? name).getD .empty)
      { scopes, route := there, name, isDirectory := !names.isEmpty } ::
        waypoints (Scope.ofPlace (.within there.path) inner :: scopes) inner there names

def takes (scopes : Scopes) (place : Place) (route : Route) (names : List String) : Bool :=
  (waypoints scopes place route names).all Waypoint.isAdmitted &&
    (Dialect.ofPath? (Path.joinAll route.path names)).isSome

def found (scopes : Scopes) (place : Place) (route : Route) (files : List (List String)) :
    List String :=
  (files.filter (takes scopes place route)).map (Path.joinAll route.path)

section Scan

variable {scopes : Scopes} {place : Place} {route : Route}

theorem found_flatMap {α : Type} (list : List α) (files : α → List (List String)) :
    found scopes place route (list.flatMap files) =
      list.flatMap fun a => found scopes place route (files a) := by
  simp only [found, List.filter_flatMap, List.map_flatMap]

/-- Behind a directory a file is taken exactly if the directory is admitted and the file is
taken from there. -/
theorem takes_cons {name : String} {node : FileTree} (h : place.node.child? name = some node)
    {names : List String} (hnames : names ≠ []) :
    takes scopes place route (name :: names) =
      (isAdmitted scopes (route.enter name) name true &&
        takes (Scope.ofPlace (.within (route.enter name).path) (place.enter name node) :: scopes)
          (place.enter name node) (route.enter name) names) := by
  have hdirectory : (!names.isEmpty) = true := by simpa using hnames
  rw [takes, waypoints, h, hdirectory, List.all_cons, Bool.and_assoc]
  rfl

theorem scanEntries_eq_flatMap (scopes : Scopes) (place : Place) (route : Route)
    (entries : List (String × FileTree)) :
    scanEntries scopes place route entries =
      entries.flatMap fun entry =>
        scanEntry scopes place (route.enter entry.1) entry.1 entry.2 := by
  induction entries with
  | nil => rfl
  | cons entry rest ih =>
      obtain ⟨name, tree⟩ := entry
      rw [scanEntries, ih, List.flatMap_cons]

theorem scanEntries_eq_found {entries : List (String × FileTree)}
    (h : ∀ entry ∈ entries, scanEntry scopes place (route.enter entry.1) entry.1 entry.2 =
      found scopes place route (entry.2.files.map fun names => entry.1 :: names)) :
    scanEntries scopes place route entries =
      found scopes place route (FileTree.filesAmong entries) := by
  rw [scanEntries_eq_flatMap, FileTree.filesAmong_eq, found_flatMap]
  exact List.flatMap_congr h

/-- At an entry of a directory a scan finds the files that it takes. -/
theorem scanEntry_eq_found {name : String} {node : FileTree} (h : node.WellFormed)
    (hchild : place.node.child? name = some node) :
    scanEntry scopes place (route.enter name) name node =
      found scopes place route (node.files.map fun names => name :: names) := by
  induction h generalizing scopes place route name with
  | file bytes =>
      have htakes : takes scopes place route [name] =
          (isAdmitted scopes (route.enter name) name false &&
            (Dialect.ofPath? (route.enter name).path).isSome) := by
        rw [takes, waypoints, waypoints, List.all_cons, List.all_nil, Bool.and_true]
        rfl
      rw [scanEntry, FileTree.files, List.map_singleton, found, List.filter_singleton, htakes]
      cases isAdmitted scopes (route.enter name) name false &&
        (Dialect.ofPath? (route.enter name).path).isSome <;> rfl
  | link target => rfl
  | directory sorted named inner ih =>
      rename_i entries
      let there := route.enter name
      let inside := place.enter name (.directory entries)
      let around := Scope.ofPlace (.within there.path) inside :: scopes
      have hinside : scanEntries around inside there entries =
          found around inside there (FileTree.filesAmong entries) :=
        scanEntries_eq_found fun entry hentry =>
          ih entry hentry (FileTree.lookup_of_mem sorted hentry)
      have hfilter : (FileTree.filesAmong entries).filter
            (takes scopes place route ∘ fun names => name :: names) =
          (FileTree.filesAmong entries).filter fun names =>
            isAdmitted scopes there name true && takes around inside there names := by
        refine List.filter_congr fun names hnames => takes_cons hchild ?_
        rintro rfl
        exact FileTree.nil_not_mem_filesAmong hnames
      rw [scanEntry, FileTree.files, found, List.filter_map, List.map_map, hfilter]
      cases hadmitted : isAdmitted scopes there name true with
      | true => exact (if_pos rfl).trans hinside
      | false => simp

/-- Below a directory a scan finds the files that it takes. -/
theorem scanEntries_eq_found_files {entries : List (String × FileTree)}
    (hnode : place.node = .directory entries) (h : place.node.WellFormed) :
    scanEntries scopes place route entries = found scopes place route place.node.files := by
  have hsorted := h.sorted_entries
  have hmem {entry : String × FileTree} (hentry : entry ∈ place.node.entries) :=
    h.of_mem_entries hentry
  rw [hnode] at hsorted hmem
  rw [hnode, FileTree.files]
  refine scanEntries_eq_found fun entry hentry => scanEntry_eq_found (hmem hentry).2 ?_
  rw [hnode]
  exact FileTree.lookup_of_mem hsorted hentry

/-! ## What is found -/

theorem mem_found_iff {files : List (List String)} {source : String} :
    source ∈ found scopes place route files ↔
      ∃ names ∈ files, takes scopes place route names ∧
        source = Path.joinAll route.path names := by
  rw [found, List.mem_map]
  constructor
  · rintro ⟨names, hnames, rfl⟩
    obtain ⟨hfiles, htakes⟩ := List.mem_filter.mp hnames
    exact ⟨names, hfiles, htakes, rfl⟩
  · rintro ⟨names, hfiles, htakes, rfl⟩
    exact ⟨names, List.mem_filter.mpr ⟨hfiles, htakes⟩, rfl⟩

theorem pairwise_found {t : FileTree} (h : t.WellFormed) :
    (found scopes place route t.files).Pairwise Path.Before := by
  rw [found, List.pairwise_map]
  refine ((FileTree.pairwise_files h).filter _).imp_of_mem fun {left right} hleft hright hlt => ?_
  exact Path.before_joinAll (FileTree.isName_of_mem_files h (List.mem_filter.mp hleft).1)
    (FileTree.isName_of_mem_files h (List.mem_filter.mp hright).1) hlt route.path

theorem not_mem_barred_of_isAdmitted {name : String}
    (h : isAdmitted scopes route name true = true) : name ∉ barredDirectories := by
  rw [isAdmitted, Bool.and_eq_true] at h
  simpa using h.1

theorem isAdmitted_iff_of_verdict?_eq_none {w : Waypoint} (h : w.verdict? = none) :
    w.isAdmitted ↔
      isHidden w.name = false ∧ (w.isDirectory = true → w.name ∉ barredDirectories) := by
  have hverdict : w.scopes.verdict? w.isDirectory w.route = none := h
  rw [Waypoint.isAdmitted, ScriptOutline.isAdmitted, hverdict]
  cases w.isDirectory <;> simp [and_comm]

theorem forall_mem_dropLast_cons {α : Type} {p : α → Prop} {first : α} {rest : List α} :
    (∀ a ∈ (first :: rest).dropLast, p a) ↔
      ((!rest.isEmpty) = true → p first) ∧ ∀ a ∈ rest.dropLast, p a := by
  cases rest with
  | nil => simp
  | cons next more =>
      rw [List.dropLast_cons_cons, List.forall_mem_cons]
      simp only [List.isEmpty_cons, Bool.not_false, forall_const]

/-- Barred directories are nowhere on a way that passes. -/
theorem not_mem_barred_of_forall_isAdmitted {names : List String}
    (h : ∀ w ∈ waypoints scopes place route names, w.isAdmitted) :
    ∀ name ∈ names.dropLast, name ∉ barredDirectories := by
  induction names generalizing scopes place route with
  | nil => exact List.forall_mem_nil _
  | cons name rest ih =>
      obtain ⟨hfirst, hrest⟩ := List.forall_mem_cons.mp h
      refine forall_mem_dropLast_cons.mpr ⟨fun hdirectory => ?_, ih hrest⟩
      rw [Waypoint.isAdmitted, hdirectory] at hfirst
      exact not_mem_barred_of_isAdmitted hfirst

/-- Where no rule speaks, a way passes unless it has a hidden name or a barred directory. -/
theorem forall_isAdmitted_iff {names : List String}
    (h : ∀ w ∈ waypoints scopes place route names, w.verdict? = none) :
    (∀ w ∈ waypoints scopes place route names, w.isAdmitted) ↔
      (∀ name ∈ names, isHidden name = false) ∧
        ∀ name ∈ names.dropLast, name ∉ barredDirectories := by
  induction names generalizing scopes place route with
  | nil => simp [waypoints]
  | cons name rest ih =>
      rw [waypoints, List.forall_mem_cons] at h ⊢
      rw [isAdmitted_iff_of_verdict?_eq_none h.1, ih h.2, List.forall_mem_cons,
        forall_mem_dropLast_cons, and_and_and_comm]

end Scan

/-! ## Sources -/

def Place.scopesFor (place : Place) (path : String) : Scopes :=
  Scope.ofPlace (.within path) place :: outerScopes [] place.trail

def Place.wayTo (place : Place) (path : String) (names : List String) : List Waypoint :=
  waypoints (place.scopesFor path) place { path, names := [] } names

namespace FileTree

/-- Whether no rule file says anything of the files below a directory or of the directories
on the way to them. -/
def Unruled (root : FileTree) (path : String) : Prop :=
  ∀ place, root.locate path = .ok place →
    ∀ names, place.node.HoldsFile names → ∀ w ∈ place.wayTo path names, w.verdict? = none

/-- So it is where no directory around or on the way sets rules. -/
theorem unruled_of_ruleless {root : FileTree} {path : String}
    (h : ∀ place, root.locate path = .ok place → ∀ names, place.node.HoldsFile names →
      ∀ w ∈ place.wayTo path names, ∀ scope ∈ w.scopes, scope.IsRuleless) :
    root.Unruled path := fun place hplace names hnames w hw =>
  Scopes.verdict?_eq_none (h place hplace names hnames w hw) w.isDirectory w.route

theorem unruled_of_files {root : FileTree} (hroot : root.WellFormed) {path : String} {place : Place}
    (hplace : root.locate path = .ok place)
    (h : ∀ names ∈ place.node.files, ∀ w ∈ place.wayTo path names, w.verdict? = none) :
    root.Unruled path := by
  rintro found hfound names hnames
  cases hplace.symm.trans hfound
  exact h names ((mem_files_iff (wellFormed_of_locate hroot hplace).node).mpr hnames)

/-- The sources below a directory are the files that a scan of it takes. -/
theorem sources_eq_found {root : FileTree} (hroot : root.WellFormed) {path : String}
    (hpath : root.isFile path = false) {place : Place} (hplace : root.locate path = .ok place) :
    root.sources path =
      if isStandardInput path then []
      else found (place.scopesFor path) place { path, names := [] } place.node.files := by
  have hwell := (wellFormed_of_locate hroot hplace).node
  obtain ⟨node, trail⟩ := place
  rw [isFile, hplace] at hpath
  rw [sources, hplace]
  cases node with
  | file bytes => cases hpath
  | link target => exact (ite_self _).symm
  | directory entries => exact if_congr Iff.rfl rfl (scanEntries_eq_found_files rfl hwell)

/-- Whether names lead from the directory at a path to a file that could be a source of it: in
some dialect, and with no barred directory on the way. -/
structure Candidate (root : FileTree) (path : String) (names : List String) (source : String) :
    Prop where
  held : ∃ place, root.locate path = .ok place ∧ place.node.HoldsFile names
  written : source = Path.joinAll path names
  supported : (Dialect.ofPath? source).isSome
  unbarred : ∀ name ∈ names.dropLast, name ∉ barredDirectories

theorem sources_eq_nil_of_error {root : FileTree} {path : String} {error : ReadError}
    (h : root.locate path = .error error) : root.sources path = [] := by
  rw [sources, h]

theorem pairwise_sources {root : FileTree} (hroot : root.WellFormed) {path : String}
    (hpath : root.isFile path = false) : (root.sources path).Pairwise Path.Before := by
  cases hplace : root.locate path with
  | error error =>
      rw [sources_eq_nil_of_error hplace]
      exact .nil
  | ok place =>
      rw [sources_eq_found hroot hpath hplace]
      split
      · exact .nil
      · exact pairwise_found (wellFormed_of_locate hroot hplace).node

theorem mem_sources_iff {root : FileTree} (hroot : root.WellFormed) {path : String}
    (hpath : root.isFile path = false) (hinput : isStandardInput path = false) {source : String} :
    source ∈ root.sources path ↔
      ∃ place names, root.locate path = .ok place ∧ place.node.HoldsFile names ∧
        source = Path.joinAll path names ∧ (Dialect.ofPath? source).isSome ∧
          ∀ w ∈ place.wayTo path names, w.isAdmitted := by
  cases hplace : root.locate path with
  | error error => simp [sources_eq_nil_of_error hplace]
  | ok place =>
      have hwell := (wellFormed_of_locate hroot hplace).node
      rw [sources_eq_found hroot hpath hplace, hinput, if_neg Bool.false_ne_true, mem_found_iff]
      constructor
      · rintro ⟨names, hnames, htakes, rfl⟩
        obtain ⟨hway, hdialect⟩ := (Bool.and_eq_true _ _).mp htakes
        exact ⟨place, names, rfl, (mem_files_iff hwell).mp hnames, rfl, hdialect,
          List.all_eq_true.mp hway⟩
      · rintro ⟨_, names, ⟨⟩, hnames, rfl, hdialect, hway⟩
        exact ⟨names, (mem_files_iff hwell).mpr hnames,
          (Bool.and_eq_true _ _).mpr ⟨List.all_eq_true.mpr hway, hdialect⟩, rfl⟩

/-- The sources of a directory stand in the order of their paths, and each is a file below it,
in some dialect and with no barred directory on the way. Where no rule speaks, all such files
are sources whose way has no hidden name. The path that stands for standard input has no
sources, whatever the directory holds. -/
theorem sources_below_directory {root : FileTree} (hroot : root.WellFormed) {path : String}
    (hpath : root.isFile path = false) :
    (root.sources path).Pairwise Path.Before ∧
      (∀ source ∈ root.sources path, ∃ names, root.Candidate path names source) ∧
      (root.Unruled path → isStandardInput path = false → ∀ source,
        source ∈ root.sources path ↔
          ∃ names, root.Candidate path names source ∧ ∀ name ∈ names, isHidden name = false) ∧
      (isStandardInput path = true → root.sources path = []) := by
  have hnone (hinput : isStandardInput path = true) : root.sources path = [] := by
    cases hplace : root.locate path with
    | error error => exact sources_eq_nil_of_error hplace
    | ok place => rw [sources_eq_found hroot hpath hplace, hinput, if_pos rfl]
  refine ⟨pairwise_sources hroot hpath, fun source hsource => ?_, fun hrules hinput source => ?_,
    hnone⟩
  · have hinput : isStandardInput path = false := by
      refine Bool.eq_false_iff.mpr fun hinput => ?_
      rw [hnone hinput] at hsource
      cases hsource
    obtain ⟨place, names, hplace, hnames, hwritten, hdialect, hway⟩ :=
      (mem_sources_iff hroot hpath hinput).mp hsource
    exact ⟨names, ⟨place, hplace, hnames⟩, hwritten, hdialect,
      not_mem_barred_of_forall_isAdmitted hway⟩
  · rw [mem_sources_iff hroot hpath hinput]
    constructor
    · rintro ⟨place, names, hplace, hnames, hwritten, hdialect, hway⟩
      have hunruled := hrules place hplace names hnames
      obtain ⟨hvisible, hbarred⟩ := (forall_isAdmitted_iff hunruled).mp hway
      exact ⟨names, ⟨⟨place, hplace, hnames⟩, hwritten, hdialect, hbarred⟩, hvisible⟩
    · rintro ⟨names, ⟨⟨place, hplace, hnames⟩, hwritten, hdialect, hbarred⟩, hvisible⟩
      exact ⟨place, names, hplace, hnames, hwritten, hdialect,
        (forall_isAdmitted_iff (hrules place hplace names hnames)).mpr ⟨hvisible, hbarred⟩⟩

/-- The tree with empty files where names lead. -/
def ofEmptyFiles (files : List (List String)) : FileTree :=
  files.foldl (fun tree names => insert (.file .empty) names tree) empty

theorem wellFormed_ofEmptyFiles {files : List (List String)}
    (h : ∀ names ∈ files, ∀ name ∈ names, Path.IsName name) : (ofEmptyFiles files).WellFormed := by
  refine List.foldlRecOn files _ wellFormed_empty fun tree htree names hnames => ?_
  exact wellFormed_insert (.file _) (h names hnames) htree

def sampleProject : FileTree :=
  ofEmptyFiles
    [["lib", "a.ts"], ["lib", "notes.txt"], ["build", "b.js"], ["build.js"], [".c.js"]]

theorem sources_of_sampleProject :
    sampleProject.WellFormed ∧ sampleProject.isFile "." = false ∧ sampleProject.Unruled "." ∧
      isStandardInput "." = false ∧ sampleProject.sources "." = ["./build.js", "./lib/a.ts"] ∧
      (sampleProject.sources ".").Pairwise Path.Before ∧
      ∀ source, source ∈ sampleProject.sources "." ↔
        ∃ names, sampleProject.Candidate "." names source ∧
          ∀ name ∈ names, isHidden name = false := by
  have hwell : sampleProject.WellFormed := wellFormed_ofEmptyFiles (by decide)
  have hfile : sampleProject.isFile "." = false := by decide
  have hinput : isStandardInput "." = false := by decide
  have hplace : sampleProject.locate "." = .ok ⟨sampleProject, []⟩ := rfl
  have hrules : sampleProject.Unruled "." := unruled_of_files hwell hplace (by decide)
  obtain ⟨hordered, -, hexact, -⟩ := sources_below_directory hwell hfile
  exact ⟨hwell, hfile, hrules, hinput, by decide, hordered, hexact hrules hinput⟩

def hyphenProject : FileTree := ofEmptyFiles [["-", "a.js"]]

/-- The directory of a hyphen is taken for standard input, and its sources are lost. -/
theorem sources_of_hyphenProject :
    hyphenProject.WellFormed ∧ hyphenProject.isFile "-" = false ∧ hyphenProject.Unruled "-" ∧
      hyphenProject.Candidate "-" ["a.js"] "-/a.js" ∧ isHidden "a.js" = false ∧
      "-/a.js" ∉ hyphenProject.sources "-" := by
  have hwell : hyphenProject.WellFormed := wellFormed_ofEmptyFiles (by decide)
  have hplace : hyphenProject.locate "-" =
      .ok ⟨ofEmptyFiles [["a.js"]], [("-", hyphenProject)]⟩ := rfl
  have hheld : (ofEmptyFiles [["a.js"]]).HoldsFile ["a.js"] := ⟨.empty, rfl⟩
  exact ⟨hwell, by decide, unruled_of_files hwell hplace (by decide),
    ⟨⟨_, hplace, hheld⟩, by decide, by decide, by decide⟩, by decide, by decide⟩

end FileTree

end ScriptOutline
