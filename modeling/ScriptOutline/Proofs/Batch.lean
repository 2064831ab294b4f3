import Mathlib.Data.List.Forall2
import ScriptOutline.CommandLine.Run
import ScriptOutline.Outline.ParsedSource

/-!
# Batches

A run over files checks all paths first and stops at the first that leads nowhere. Where none
does, it writes a section for each source that can be read, in order, and fails at the end if
there was a source that cannot. Main statement: `run_on_files`.
-/

namespace ScriptOutline

/-! ## Dialects of sources -/

mutual

theorem supported_of_mem_scanEntry {scopes : Scopes} {directory : Place} {route : Route}
    {name source : String} :
    ∀ {tree : FileTree}, source ∈ scanEntry scopes directory route name tree →
      (Dialect.ofPath? source).isSome
  | .file _, h => by
      rw [scanEntry] at h
      split at h
      · rename_i htaken
        cases List.mem_singleton.mp h
        exact ((Bool.and_eq_true _ _).mp htaken).2
      · cases h
  | .link _, h => by cases h
  | .directory entries, h => by
      rw [scanEntry] at h
      split at h
      · exact supported_of_mem_scanEntries h
      · cases h

theorem supported_of_mem_scanEntries {scopes : Scopes} {directory : Place} {route : Route}
    {source : String} :
    ∀ {entries : List (String × FileTree)}, source ∈ scanEntries scopes directory route entries →
      (Dialect.ofPath? source).isSome
  | [], h => by cases h
  | (name, tree) :: entries, h => by
      rw [scanEntries] at h
      rcases List.mem_append.mp h with h | h
      · exact supported_of_mem_scanEntry h
      · exact supported_of_mem_scanEntries h

end

theorem forall₂_filterMap {α β : Type} (f : α → Option β) (list : List α) :
    List.Forall₂ (fun a b => f a = some b) (list.filter fun a => (f a).isSome)
      (list.filterMap f) := by
  induction list with
  | nil => exact .nil
  | cons a rest ih =>
      cases h : f a with
      | none => simpa [h] using ih
      | some b => simpa [h] using ih

namespace FileTree

variable {root : FileTree}

theorem supported_of_mem_sources {path source : String} (h : source ∈ root.sources path) :
    (Dialect.ofPath? source).isSome := by
  rw [sources] at h
  split at h
  · split at h
    · split at h
      · rename_i hdialect
        cases List.mem_singleton.mp h
        exact hdialect
      · cases h
    · split at h
      · cases h
      · exact supported_of_mem_scanEntries h
    · cases h
  · cases h

/-! ## Outlines of sources -/

/-- An outline is that of a source: it holds the entries of the text of the source, in the
forced dialect or else in that of its extension. -/
structure IsOutline (root : FileTree) (parse : Parser) (forced : Option Dialect) (source : String)
    (outline : FileOutline) : Prop where
  path : outline.path = source
  dialect : forced.or (Dialect.ofPath? source) = some outline.dialect
  entries : ∃ text, root.read source = .ok text ∧
    outline.entries = outlineOf parse outline.dialect text

def isReadable (root : FileTree) (source : String) : Bool := (root.read source).isOk

def outlinesOf (root : FileTree) (parse : Parser) (forced : Option Dialect)
    (sources : List String) : List FileOutline :=
  sources.filterMap fun source => (root.outlineIn parse forced source).toOption

variable {parse : Parser} {forced : Option Dialect} {source : String}

theorem outlineIn_eq_outlineAs {dialect : Dialect}
    (h : forced.or (Dialect.ofPath? source) = some dialect) :
    root.outlineIn parse forced source = root.outlineAs parse dialect source := by
  cases forced with
  | some forced =>
      cases h
      rfl
  | none =>
      have hextension : Dialect.ofPath? source = some dialect := h
      rw [outlineIn, outlineFile, hextension]

theorem isOutline_of_toOption {outline : FileOutline}
    (hdialect : (forced.or (Dialect.ofPath? source)).isSome)
    (h : (root.outlineIn parse forced source).toOption = some outline) :
    root.IsOutline parse forced source outline := by
  obtain ⟨dialect, hdialect⟩ := Option.isSome_iff_exists.mp hdialect
  rw [outlineIn_eq_outlineAs hdialect, outlineAs] at h
  cases htext : root.read source with
  | ok text =>
      rw [htext] at h
      cases h
      exact ⟨rfl, hdialect, text, htext, rfl⟩
  | error cause =>
      rw [htext] at h
      cases h

/-- Where the dialect of a source is known, reading it is all that can fail. -/
theorem isSome_toOption_outlineIn (hdialect : (forced.or (Dialect.ofPath? source)).isSome) :
    (root.outlineIn parse forced source).toOption.isSome = root.isReadable source := by
  obtain ⟨dialect, hdialect⟩ := Option.isSome_iff_exists.mp hdialect
  rw [outlineIn_eq_outlineAs hdialect, outlineAs, isReadable]
  cases root.read source <;> rfl

variable {sources : List String}

theorem forall₂_outlinesOf
    (h : ∀ source ∈ sources, (forced.or (Dialect.ofPath? source)).isSome) :
    List.Forall₂ (root.IsOutline parse forced) (sources.filter root.isReadable)
      (root.outlinesOf parse forced sources) := by
  have hfilter : sources.filter root.isReadable =
      sources.filter fun source => (root.outlineIn parse forced source).toOption.isSome :=
    List.filter_congr fun source hsource => (isSome_toOption_outlineIn (h source hsource)).symm
  have hkept : ∀ source ∈ sources.filter root.isReadable,
      (forced.or (Dialect.ofPath? source)).isSome := fun source hsource =>
    h source (List.mem_filter.mp hsource).1
  rw [hfilter] at hkept ⊢
  have hmatched := (List.forall₂_and_left _ _).mpr ⟨hkept, forall₂_filterMap _ sources⟩
  exact hmatched.imp fun source outline h => isOutline_of_toOption h.1 h.2

theorem length_outlinesOf_eq_iff
    (h : ∀ source ∈ sources, (forced.or (Dialect.ofPath? source)).isSome) :
    (root.outlinesOf parse forced sources).length = sources.length ↔
      sources.all root.isReadable := by
  rw [outlinesOf, List.filterMap_length_eq_length, List.all_eq_true]
  refine forall₂_congr fun source hsource => ?_
  rw [isSome_toOption_outlineIn (h source hsource)]

theorem outlinesOf_append (first second : List String) :
    root.outlinesOf parse forced (first ++ second) =
      root.outlinesOf parse forced first ++ root.outlinesOf parse forced second :=
  List.filterMap_append

end FileTree

namespace CommandLine

/-! ## Runs over files -/

namespace Options

def allSources (options : Options) (root : FileTree) : List String :=
  options.paths.flatMap fun path =>
    if options.dialect.isSome ∧ root.isFile path then [path] else root.sources path

variable {options : Options} {parse : Parser} {root : FileTree}

theorem supported_of_mem_allSources {source : String} (h : source ∈ options.allSources root) :
    (options.dialect.or (Dialect.ofPath? source)).isSome := by
  rw [Option.isSome_or, Bool.or_eq_true]
  obtain ⟨path, -, hsource⟩ := List.mem_flatMap.mp h
  split at hsource
  · rename_i hforced
    exact Or.inl hforced.1
  · exact Or.inr (FileTree.supported_of_mem_sources hsource)

/-- A path that leads nowhere ends the run, unless one before it does. -/
theorem runOnFiles_of_missing {before after : List String} {path : String}
    (hpaths : options.paths = before ++ path :: after)
    (hbefore : ∀ earlier ∈ before, root.exists? earlier = true)
    (hpath : root.exists? path = false) :
    options.runOnFiles parse root =
      .failed (.missingPath path) (options.logsBeforeMissing root) := by
  have hfind : options.paths.find? (fun path => !root.exists? path) = some path := by
    refine List.find?_eq_some_iff_append.mpr ⟨by simpa using hpath, before, after, hpaths, ?_⟩
    simpa using hbefore
  rw [runOnFiles, sources, hfind]

theorem sources_of_exists (h : ∀ path ∈ options.paths, root.exists? path = true) :
    options.sources root = .ok (options.allSources root) := by
  have hfind : options.paths.find? (fun path => !root.exists? path) = none := by
    simpa using h
  rw [sources, hfind]
  rfl

theorem runOnFiles_of_exists (h : ∀ path ∈ options.paths, root.exists? path = true) :
    options.runOnFiles parse root =
      { code := if (options.allSources root).all root.isReadable then 0 else 1
        output := writeOutlines options.formatOrText
          (root.outlinesOf parse options.dialect (options.allSources root))
        failure := none
        logged := false } := by
  have hlength : (root.outlinesOf parse options.dialect (options.allSources root)).length =
      (options.allSources root).length ↔ (options.allSources root).all root.isReadable :=
    FileTree.length_outlinesOf_eq_iff fun source hsource => supported_of_mem_allSources hsource
  rw [runOnFiles, sources_of_exists h]
  dsimp only
  rw [FileTree.outlineFiles, List.filterMap_map, List.length_map]
  simp only [← hlength]
  rfl

end Options

theorem run_of_options {parse : Parser} {root : FileTree} {arguments : List String}
    {options : Options} (hread : Options.ofArguments arguments = .ok options)
    (hfiles : options.fromInput = false) (input : ByteArray) :
    run parse root arguments input = options.runOnFiles parse root := by
  rw [run, hread]
  dsimp only
  rw [Options.run, hfiles, if_neg Bool.false_ne_true]

/-- Two runs over files in the text format and one that takes the paths of both. -/
structure Joins (first second both : Options) : Prop where
  paths : both.paths = first.paths ++ second.paths
  dialects : first.dialect = both.dialect ∧ second.dialect = both.dialect
  formats : first.formatOrText = .text ∧ second.formatOrText = .text ∧ both.formatOrText = .text
  files : first.fromInput = false ∧ second.fromInput = false

theorem Joins.allSources {first second both : Options} (h : Joins first second both)
    (root : FileTree) :
    both.allSources root = first.allSources root ++ second.allSources root := by
  rw [Options.allSources, Options.allSources, Options.allSources, h.paths, h.dialects.1,
    h.dialects.2, List.flatMap_append]

theorem writeOutlines_text_append (first second : List FileOutline) :
    Options.writeOutlines .text (first ++ second) =
      Options.writeOutlines .text first ++ Options.writeOutlines .text second := by
  rw [Options.writeOutlines, List.map_append, String.join_append]
  rfl

/-- In the JSON format each outline is an item of its own. -/
theorem writeOutlines_json {outlines : List FileOutline} (h : outlines ≠ []) :
    Options.writeOutlines .json outlines =
      "[\n" ++ ",\n".intercalate (outlines.map fun outline =>
        "  " ++ outline.toJson.prettyAt 1) ++ "\n]\n" := by
  have hitems : outlines.map FileOutline.toJson ≠ [] := by simpa using h
  have hend : "\n]" ++ "\n" = "\n]\n" := rfl
  rw [Options.writeOutlines, Json.pretty_array hitems, List.map_map, String.append_assoc, hend]
  rfl

/-- A run over the paths of two runs writes what they write, and fails if one of them does. -/
theorem runOnFiles_of_joins {first second both : Options} (h : Joins first second both)
    {root : FileTree} (hexists : ∀ path ∈ both.paths, root.exists? path = true) (parse : Parser) :
    (both.runOnFiles parse root).output =
        (first.runOnFiles parse root).output ++ (second.runOnFiles parse root).output ∧
      ((both.runOnFiles parse root).code = 1 ↔
        (first.runOnFiles parse root).code = 1 ∨ (second.runOnFiles parse root).code = 1) := by
  have hparts := hexists
  rw [h.paths, List.forall_mem_append] at hparts
  rw [Options.runOnFiles_of_exists hexists, Options.runOnFiles_of_exists hparts.1,
    Options.runOnFiles_of_exists hparts.2]
  dsimp only
  rw [h.allSources, h.dialects.1, h.dialects.2, h.formats.1, h.formats.2.1, h.formats.2.2,
    FileTree.outlinesOf_append, writeOutlines_text_append, List.all_append]
  refine ⟨rfl, ?_⟩
  cases (first.allSources root).all root.isReadable <;>
    cases (second.allSources root).all root.isReadable <;> simp

/-- A run over files stops at the first path that leads nowhere and writes nothing. Where all
paths exist, it writes a section for each source that can be read, in order, as text or as an
item of an array, and its code tells whether there was another source. A run over the paths of
two runs writes what they write. -/
theorem run_on_files (parse : Parser) (root : FileTree) (input : ByteArray)
    {arguments : List String} {options : Options}
    (hread : Options.ofArguments arguments = .ok options) (hfiles : options.fromInput = false) :
    (∀ before path after, options.paths = before ++ path :: after →
      (∀ earlier ∈ before, root.exists? earlier = true) → root.exists? path = false →
        (run parse root arguments input).output = "" ∧
          (run parse root arguments input).code = 1 ∧
          (run parse root arguments input).failure.map Failure.report =
            some ("Error: Path does not exist: " ++ path ++ "\n")) ∧
      ((∀ path ∈ options.paths, root.exists? path = true) →
        (run parse root arguments input).failure = none ∧
          (run parse root arguments input).code =
            (if (options.allSources root).all root.isReadable then 0 else 1) ∧
          ∃ outlines, List.Forall₂ (root.IsOutline parse options.dialect)
              ((options.allSources root).filter root.isReadable) outlines ∧
            (options.formatOrText = .text → (run parse root arguments input).output =
              String.join (outlines.map fun outline =>
                outline.path ++ "\n" ++ Entry.listingAll outline.entries)) ∧
            (options.formatOrText = .json → (run parse root arguments input).output =
                (Json.array (outlines.map FileOutline.toJson)).pretty ++ "\n" ∧
              (outlines = [] → (run parse root arguments input).output = "[]\n") ∧
              (outlines ≠ [] → (run parse root arguments input).output =
                "[\n" ++ ",\n".intercalate (outlines.map fun outline =>
                  "  " ++ outline.toJson.prettyAt 1) ++ "\n]\n"))) ∧
      ∀ first second firstOptions secondOptions,
        Options.ofArguments first = .ok firstOptions →
        Options.ofArguments second = .ok secondOptions →
        Joins firstOptions secondOptions options →
        (∀ path ∈ options.paths, root.exists? path = true) →
          (run parse root arguments input).output =
              (run parse root first input).output ++ (run parse root second input).output ∧
            ((run parse root arguments input).code = 1 ↔
              (run parse root first input).code = 1 ∨ (run parse root second input).code = 1) := by
  rw [run_of_options hread hfiles]
  refine ⟨fun before path after hpaths hbefore hpath => ?_, fun hexists => ?_,
    fun first second firstOptions secondOptions hfirst hsecond hjoins hexists => ?_⟩
  · rw [Options.runOnFiles_of_missing hpaths hbefore hpath]
    exact ⟨rfl, rfl, rfl⟩
  · rw [Options.runOnFiles_of_exists hexists]
    refine ⟨rfl, rfl, _, FileTree.forall₂_outlinesOf fun source hsource =>
      Options.supported_of_mem_allSources hsource, fun htext => ?_, fun hjson => ?_⟩
    · dsimp only
      rw [htext]
      rfl
    · dsimp only
      rw [hjson]
      refine ⟨rfl, fun hnone => ?_, writeOutlines_json⟩
      rw [hnone, Options.writeOutlines, List.map_nil, Json.pretty_array_nil]
      rfl
  · rw [run_of_options hfirst hjoins.files.1, run_of_options hsecond hjoins.files.2]
    exact runOnFiles_of_joins hjoins hexists parse

/-- Two sources, one of them in a directory, and a file that is no text. -/
def sampleFiles : FileTree :=
  .directory
    [("a.js", .file .empty), ("b.js", .file ⟨#[0xff]⟩),
      ("lib", .directory [("c.ts", .file .empty)])]

/-- A parser that knows the empty script, as if it were a function. -/
def sampleParser : Parser :=
  .ofParsed [⟨.javascript, "", .node ⟨"arrow_function", true, false, false, 0, 0, 0, []⟩ []⟩]

def Options.ofPaths (paths : List String) : Options := { Options.unset with paths }

theorem run_on_sampleFiles :
    (run sampleParser sampleFiles ["lib", "none.js", "a.js"] .empty).failure.map
        Failure.report = some "Error: Path does not exist: none.js\n" ∧
      (run sampleParser sampleFiles ["lib", "b.js", "a.js"] .empty).code = 1 ∧
      (∃ outlines, List.Forall₂ (sampleFiles.IsOutline sampleParser none)
          ["lib/c.ts", "a.js"] outlines ∧
        (run sampleParser sampleFiles ["lib", "b.js", "a.js"] .empty).output =
          String.join (outlines.map fun outline =>
            outline.path ++ "\n" ++ Entry.listingAll outline.entries)) ∧
      (run sampleParser sampleFiles ["lib", "b.js", "a.js"] .empty).output =
        "lib/c.ts\na.js\n~ function() :1\n" ∧
      (run sampleParser sampleFiles ["lib", "b.js", "a.js"] .empty).output =
        (run sampleParser sampleFiles ["lib", "b.js"] .empty).output ++
          (run sampleParser sampleFiles ["a.js"] .empty).output ∧
      (∃ outlines, List.Forall₂ (sampleFiles.IsOutline sampleParser none)
          ["lib/c.ts", "a.js"] outlines ∧
        (run sampleParser sampleFiles ["-fjson", "lib", "b.js", "a.js"] .empty).output =
          "[\n" ++ ",\n".intercalate (outlines.map fun outline =>
            "  " ++ outline.toJson.prettyAt 1) ++ "\n]\n") ∧
      (run sampleParser sampleFiles ["-fjson", "lib", "b.js", "a.js"] .empty).output =
        "\n".intercalate
          ["[", "  \x7b", "    \"path\": \"lib/c.ts\",", "    \"dialect\": \"typescript\",",
            "    \"entries\": []", "  \x7d,", "  \x7b", "    \"path\": \"a.js\",",
            "    \"dialect\": \"javascript\",", "    \"entries\": [", "      \x7b",
            "        \"name\": \"function\",", "        \"line\": 1,",
            "        \"type\": \"unnamed\",", "        \"level\": 0,", "        \"args\": []",
            "      \x7d", "    ]", "  \x7d", "]", ""] := by
  let missing := Options.ofPaths ["lib", "none.js", "a.js"]
  let both := Options.ofPaths ["lib", "b.js", "a.js"]
  let asJson := { both with format := some .json }
  have hmissing : Options.ofArguments ["lib", "none.js", "a.js"] = .ok missing := by decide
  have hboth : Options.ofArguments ["lib", "b.js", "a.js"] = .ok both := by decide
  have hfirst : Options.ofArguments ["lib", "b.js"] = .ok (.ofPaths ["lib", "b.js"]) := by decide
  have hsecond : Options.ofArguments ["a.js"] = .ok (.ofPaths ["a.js"]) := by decide
  have hread : Options.ofArguments ["-fjson", "lib", "b.js", "a.js"] = .ok asJson := by decide
  have hjoins : Joins (.ofPaths ["lib", "b.js"]) (.ofPaths ["a.js"]) both :=
    ⟨rfl, ⟨rfl, rfl⟩, ⟨rfl, rfl, rfl⟩, rfl, rfl⟩
  have hexists : ∀ path ∈ both.paths, sampleFiles.exists? path = true := by decide
  have hreadable : (both.allSources sampleFiles).filter sampleFiles.isReadable =
      ["lib/c.ts", "a.js"] := by decide
  obtain ⟨hstops, -, -⟩ := run_on_files sampleParser sampleFiles .empty hmissing rfl
  obtain ⟨-, hruns, hconcat⟩ := run_on_files sampleParser sampleFiles .empty hboth rfl
  obtain ⟨-, hcode, outlines, houtlines, htext, -⟩ := hruns hexists
  obtain ⟨-, hruns, -⟩ := run_on_files sampleParser sampleFiles .empty hread rfl
  obtain ⟨-, -, items, hitems, -, hjson⟩ := hruns hexists
  replace houtlines : List.Forall₂ _ ["lib/c.ts", "a.js"] outlines := hreadable ▸ houtlines
  replace hitems : List.Forall₂ _ ["lib/c.ts", "a.js"] items := hreadable ▸ hitems
  have hsome : items ≠ [] := List.ne_nil_of_length_pos (hitems.length_eq ▸ Nat.zero_lt_two)
  refine ⟨(hstops ["lib"] "none.js" ["a.js"] rfl (by decide) (by decide)).2.2, ?_,
    ⟨outlines, houtlines, htext rfl⟩, by decide +kernel,
    (hconcat _ _ _ _ hfirst hsecond hjoins hexists).1,
    ⟨items, hitems, (hjson rfl).2.2 hsome⟩, by decide +kernel⟩
  rw [hcode]
  decide

end CommandLine

end ScriptOutline
