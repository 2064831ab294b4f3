import ScriptOutline.Proofs.Batch

/-!
# Forced dialects

A forced dialect changes how files are parsed and not which are taken, but for the files that
are named with an extension of no dialect. Without a forced dialect these are left out, so that
no source fails for its extension. Main statement: `run_in_forced_dialect`.
-/

namespace ScriptOutline

namespace FileTree

variable {root : FileTree} {path : String}

/-! ## Unsupported files -/

def isUnsupportedFile (root : FileTree) (path : String) : Bool :=
  root.isFile path && !(Dialect.ofPath? path).isSome

theorem sources_of_isFile (h : root.isFile path = true) :
    root.sources path = if (Dialect.ofPath? path).isSome then [path] else [] := by
  unfold isFile at h
  split at h
  · rename_i hplace
    rw [sources, hplace]
  · cases h

theorem sources_of_isUnsupportedFile (h : root.isUnsupportedFile path = true) :
    root.sources path = [] := by
  obtain ⟨hfile, hdialect⟩ := (Bool.and_eq_true _ _).mp h
  rw [sources_of_isFile hfile, if_neg (by simpa using hdialect)]

/-- A file that is taken as it is, and not for its sources, makes a difference only if it is
unsupported. -/
theorem self_or_sources (root : FileTree) (path : String) :
    (if root.isFile path then [path] else root.sources path) =
      if root.isUnsupportedFile path then [path] else root.sources path := by
  cases hfile : root.isFile path with
  | false => simp [isUnsupportedFile, hfile]
  | true =>
      rw [sources_of_isFile hfile]
      cases hdialect : Dialect.ofPath? path <;> simp [isUnsupportedFile, hfile, hdialect]

/-- Going through some paths, `all` has the same sources as `sources` at every path but the
unsupported files, each of which it has itself. -/
inductive AddsUnsupported (root : FileTree) : (paths sources all : List String) → Prop
  | nil : AddsUnsupported root [] [] []
  | added {path : String} {paths sources all : List String}
      (unsupported : root.isUnsupportedFile path = true)
      (rest : AddsUnsupported root paths sources all) :
      AddsUnsupported root (path :: paths) sources (path :: all)
  | kept {path : String} {paths sources all : List String}
      (supported : root.isUnsupportedFile path = false)
      (rest : AddsUnsupported root paths sources all) :
      AddsUnsupported root (path :: paths) (root.sources path ++ sources)
        (root.sources path ++ all)

theorem addsUnsupported_flatMap (root : FileTree) (paths : List String) :
    root.AddsUnsupported paths (paths.flatMap root.sources)
      (paths.flatMap fun path => if root.isFile path then [path] else root.sources path) := by
  induction paths with
  | nil => exact .nil
  | cons path rest ih =>
      rw [List.flatMap_cons, List.flatMap_cons, self_or_sources]
      cases hunsupported : root.isUnsupportedFile path with
      | true =>
          rw [sources_of_isUnsupportedFile hunsupported]
          exact .added hunsupported ih
      | false => exact .kept hunsupported ih

namespace AddsUnsupported

variable {paths sources all : List String}

theorem filter_supported (h : root.AddsUnsupported paths sources all) :
    (all.filter fun source => (Dialect.ofPath? source).isSome) = sources := by
  induction h with
  | nil => rfl
  | added unsupported rest ih =>
      have hdialect := ((Bool.and_eq_true _ _).mp unsupported).2
      rw [List.filter_cons_of_neg (by simpa using hdialect), ih]
  | kept supported rest ih =>
      rw [List.filter_append, ih,
        List.filter_eq_self.mpr fun source hsource => supported_of_mem_sources hsource]

theorem filter_unsupported (h : root.AddsUnsupported paths sources all) :
    (all.filter fun source => !(Dialect.ofPath? source).isSome) =
      paths.filter root.isUnsupportedFile := by
  induction h with
  | nil => rfl
  | added unsupported rest ih =>
      have hdialect := ((Bool.and_eq_true _ _).mp unsupported).2
      rw [List.filter_cons_of_pos unsupported, ← ih]
      exact List.filter_cons_of_pos hdialect
  | @kept path _ _ _ supported rest ih =>
      have hsources : (root.sources path).filter (fun source => !(Dialect.ofPath? source).isSome) =
          [] := by
        refine List.filter_eq_nil_iff.mpr fun source hsource => ?_
        rw [supported_of_mem_sources hsource]
        exact Bool.false_ne_true
      rw [List.filter_append, hsources, List.nil_append, ih,
        List.filter_cons_of_neg (Bool.eq_false_iff.mp supported)]

/-- Without unsupported files there is no difference. -/
theorem eq_of_forall (h : root.AddsUnsupported paths sources all)
    (hpaths : ∀ path ∈ paths, root.isUnsupportedFile path = false) : all = sources := by
  induction h with
  | nil => rfl
  | added unsupported rest ih =>
      rw [hpaths _ List.mem_cons_self] at unsupported
      cases unsupported
  | kept supported rest ih =>
      rw [ih fun path hpath => hpaths path (List.mem_cons_of_mem _ hpath)]

end AddsUnsupported

/-! ## Outlines -/

variable {parse : Parser} {forced : Option Dialect} {source : String}

theorem isOk_outlineIn (hdialect : (forced.or (Dialect.ofPath? source)).isSome) :
    (root.outlineIn parse forced source).isOk = root.isReadable source := by
  have hsome : (root.outlineIn parse forced source).toOption.isSome = root.isReadable source :=
    isSome_toOption_outlineIn hdialect
  rw [← hsome]
  cases root.outlineIn parse forced source <;> rfl

/-- A file in some dialect has an outline or cannot be read. -/
theorem outlineIn_eq_ok_or_unreadable (hdialect : (forced.or (Dialect.ofPath? source)).isSome) :
    (∃ outline, root.outlineIn parse forced source = .ok outline) ∨
      ∃ cause, root.outlineIn parse forced source = .error (.unreadable source cause) := by
  obtain ⟨dialect, hdialect⟩ := Option.isSome_iff_exists.mp hdialect
  rw [outlineIn_eq_outlineAs hdialect, outlineAs]
  cases root.read source with
  | ok text => exact Or.inl ⟨_, rfl⟩
  | error cause => exact Or.inr ⟨cause, rfl⟩

theorem mem_outlineFiles_iff {paths : List String} {result : Except FileError FileOutline} :
    (source, result) ∈ root.outlineFiles parse forced paths ↔
      source ∈ paths ∧ result = root.outlineIn parse forced source := by
  rw [outlineFiles, List.mem_map]
  constructor
  · rintro ⟨path, hpath, heq⟩
    cases heq
    exact ⟨hpath, rfl⟩
  · rintro ⟨hpath, rfl⟩
    exact ⟨source, hpath, rfl⟩

theorem map_path_of_isOutline {sources : List String} {outlines : List FileOutline}
    (h : List.Forall₂ (root.IsOutline parse forced) sources outlines) :
    outlines.map FileOutline.path = sources := by
  rw [← List.forall₂_eq_eq_eq, List.forall₂_map_left_iff]
  exact (h.imp fun source outline houtline => houtline.path).flip

end FileTree

namespace CommandLine

/-! ## Runs in a forced dialect -/

namespace Options

variable {options : Options} {root : FileTree} {dialect : Dialect}

def force (options : Options) (dialect : Dialect) : Options :=
  { options with dialect := some dialect }

theorem addsUnsupported_allSources (hplain : options.dialect = none) :
    root.AddsUnsupported options.paths (options.allSources root)
      ((options.force dialect).allSources root) := by
  have h := FileTree.addsUnsupported_flatMap root options.paths
  simpa only [allSources, force, hplain, Option.isSome_none, Option.isSome_some, true_and,
    Bool.false_eq_true, false_and, if_false] using h

end Options

/-- Suppose all paths of a command line without a dialect exist. Then no source fails for its
extension. In a forced dialect the sources are the same at every path but the unsupported files,
which are taken too, and what has an outline without it has one with it. So where no path is an
unsupported file, a run prints the same paths in the same order and ends with the same code. -/
theorem run_in_forced_dialect (parse : Parser) (root : FileTree) (input : ByteArray)
    {arguments forcedArguments : List String} {options : Options} (dialect : Dialect)
    (hread : Options.ofArguments arguments = .ok options)
    (hforced : Options.ofArguments forcedArguments = .ok (options.force dialect))
    (hplain : options.dialect = none) (hfiles : options.fromInput = false)
    (hexists : ∀ path ∈ options.paths, root.exists? path = true) :
    ∃ sources forcedSources,
      options.sources root = .ok sources ∧
      (options.force dialect).sources root = .ok forcedSources ∧
      (∀ source result, (source, result) ∈ root.outlineFiles parse none sources →
        (∃ outline, result = .ok outline) ∨
          ∃ cause, result = .error (.unreadable source cause)) ∧
      root.AddsUnsupported options.paths sources forcedSources ∧
      forcedSources.filter (fun source => (Dialect.ofPath? source).isSome) = sources ∧
      forcedSources.filter (fun source => !(Dialect.ofPath? source).isSome) =
        options.paths.filter root.isUnsupportedFile ∧
      (∀ source result forcedResult,
        (source, result) ∈ root.outlineFiles parse none sources →
        (source, forcedResult) ∈ root.outlineFiles parse (some dialect) forcedSources →
          result.isOk = forcedResult.isOk) ∧
      ((∀ path ∈ options.paths, root.isUnsupportedFile path = false) →
        (run parse root arguments input).code = (run parse root forcedArguments input).code ∧
        ∃ outlines forcedOutlines,
          List.Forall₂ (root.IsOutline parse none) (sources.filter root.isReadable) outlines ∧
          List.Forall₂ (root.IsOutline parse (some dialect)) (sources.filter root.isReadable)
            forcedOutlines ∧
          outlines.map FileOutline.path = forcedOutlines.map FileOutline.path ∧
          (run parse root arguments input).output =
            Options.writeOutlines options.formatOrText outlines ∧
          (run parse root forcedArguments input).output =
            Options.writeOutlines options.formatOrText forcedOutlines) := by
  have hsupported : ∀ source ∈ options.allSources root,
      (none.or (Dialect.ofPath? source)).isSome := by
    intro source hsource
    rw [← hplain]
    exact Options.supported_of_mem_allSources hsource
  have hforcedSupported (source : String) : ((some dialect).or (Dialect.ofPath? source)).isSome :=
    rfl
  have hforcedExists : ∀ path ∈ (options.force dialect).paths, root.exists? path = true := hexists
  have hadds : root.AddsUnsupported options.paths (options.allSources root)
      ((options.force dialect).allSources root) := Options.addsUnsupported_allSources hplain
  refine ⟨options.allSources root, (options.force dialect).allSources root,
    Options.sources_of_exists hexists, Options.sources_of_exists hforcedExists,
    fun source result hresult => ?_, hadds, hadds.filter_supported, hadds.filter_unsupported,
    fun source result forcedResult hresult hforcedResult => ?_, fun hpaths => ?_⟩
  · obtain ⟨hsource, rfl⟩ := FileTree.mem_outlineFiles_iff.mp hresult
    exact FileTree.outlineIn_eq_ok_or_unreadable (hsupported source hsource)
  · obtain ⟨hsource, rfl⟩ := FileTree.mem_outlineFiles_iff.mp hresult
    obtain ⟨-, rfl⟩ := FileTree.mem_outlineFiles_iff.mp hforcedResult
    rw [FileTree.isOk_outlineIn (hsupported source hsource),
      FileTree.isOk_outlineIn (hforcedSupported source)]
  · -- Both runs read the same sources, and differ in the entries at most.
    have hsame : (options.force dialect).allSources root = options.allSources root :=
      hadds.eq_of_forall hpaths
    let outlines := root.outlinesOf parse none (options.allSources root)
    let forcedOutlines := root.outlinesOf parse (some dialect) (options.allSources root)
    have houtlines : List.Forall₂ (root.IsOutline parse none)
        ((options.allSources root).filter root.isReadable) outlines :=
      FileTree.forall₂_outlinesOf hsupported
    have hforcedOutlines : List.Forall₂ (root.IsOutline parse (some dialect))
        ((options.allSources root).filter root.isReadable) forcedOutlines :=
      FileTree.forall₂_outlinesOf fun source _ => hforcedSupported source
    rw [run_of_options hread hfiles, run_of_options hforced hfiles,
      Options.runOnFiles_of_exists hexists, Options.runOnFiles_of_exists hforcedExists, hsame]
    refine ⟨rfl, outlines, forcedOutlines, houtlines, hforcedOutlines, ?_, ?_, rfl⟩
    · rw [FileTree.map_path_of_isOutline houtlines, FileTree.map_path_of_isOutline hforcedOutlines]
    · rw [hplain]

/-- A file that is no text, a source in a directory, and a file in no dialect. -/
def mixedFiles : FileTree :=
  .directory
    [("b.js", .file ⟨#[0xff]⟩), ("lib", .directory [("c.ts", .file .empty)]),
      ("notes.txt", .file .empty)]

theorem run_on_mixedFiles :
    mixedFiles.AddsUnsupported ["lib", "notes.txt", "b.js"] ["lib/c.ts", "b.js"]
        ["lib/c.ts", "notes.txt", "b.js"] ∧
      (run (Parser.ofParsed []) mixedFiles ["lib", "b.js"] .empty).code =
        (run (Parser.ofParsed []) mixedFiles ["-djsx", "lib", "b.js"] .empty).code ∧
      ∃ outlines forcedOutlines,
        outlines.map FileOutline.path = forcedOutlines.map FileOutline.path ∧
        (run (Parser.ofParsed []) mixedFiles ["lib", "b.js"] .empty).output =
          Options.writeOutlines .text outlines ∧
        (run (Parser.ofParsed []) mixedFiles ["-djsx", "lib", "b.js"] .empty).output =
          Options.writeOutlines .text forcedOutlines := by
  let mixed := Options.ofPaths ["lib", "notes.txt", "b.js"]
  let supported := Options.ofPaths ["lib", "b.js"]
  have hmixed : Options.ofArguments ["lib", "notes.txt", "b.js"] = .ok mixed := by decide
  have hforcedMixed : Options.ofArguments ["lib", "notes.txt", "--dialect", "tsx", "b.js"] =
      .ok (mixed.force .tsx) := by decide
  have hsupported : Options.ofArguments ["lib", "b.js"] = .ok supported := by decide
  have hforcedSupported : Options.ofArguments ["-djsx", "lib", "b.js"] =
      .ok (supported.force .jsx) := by decide
  obtain ⟨sources, forcedSources, hsources, hforcedSources, -, hadds, -⟩ :=
    run_in_forced_dialect (Parser.ofParsed []) mixedFiles .empty .tsx hmixed hforcedMixed rfl rfl
      (by decide)
  obtain ⟨_, _, -, -, -, -, -, -, -, hsame⟩ :=
    run_in_forced_dialect (Parser.ofParsed []) mixedFiles .empty .jsx hsupported hforcedSupported
      rfl rfl (by decide)
  obtain ⟨hcode, outlines, forcedOutlines, -, -, hpaths, houtput, hforcedOutput⟩ :=
    hsame (by decide)
  have hknown : mixed.sources mixedFiles = .ok ["lib/c.ts", "b.js"] := by decide
  have hforcedKnown : (mixed.force .tsx).sources mixedFiles =
      .ok ["lib/c.ts", "notes.txt", "b.js"] := by decide
  cases hknown.symm.trans hsources
  cases hforcedKnown.symm.trans hforcedSources
  exact ⟨hadds, hcode, outlines, forcedOutlines, hpaths, houtput, hforcedOutput⟩

end CommandLine

end ScriptOutline
