import ScriptOutline.Dialect
import ScriptOutline.Project.Scope

/-!
# Sources of a project

The files below a directory that can be outlined, in the order of their paths.
Ignore rules are respected; what they do not mention is passed over if its name
starts with a dot. Directories of build products and of foreign code are never
entered, and links are never followed.
-/

namespace ScriptOutline

def barredDirectories : List String :=
  ["node_modules", "dist", "build", "out", "coverage", ".git"]

def isHidden (name : String) : Bool := name.toList.head? == some '.'

def isAdmitted (scopes : Scopes) (route : Route) (name : String) (isDirectory : Bool) : Bool :=
  !(isDirectory && barredDirectories.contains name) &&
    match scopes.verdict? isDirectory route with
    | some .include => true
    | some .exclude => false
    | none => !isHidden name

mutual

/-- The sources at or below an entry of a directory, if it takes part in the scan.
`scopes` are those around the entry, and `route` leads to it. -/
def scanEntry (scopes : Scopes) (directory : Place) (route : Route) (name : String) :
    FileTree → List String
  | .file _ =>
      if isAdmitted scopes route name false && (Dialect.ofPath? route.path).isSome then
        [route.path]
      else []
  | .link _ => []
  | .directory entries =>
      if isAdmitted scopes route name true then
        let place := directory.enter name (.directory entries)
        scanEntries (Scope.ofPlace (.within route.path) place :: scopes) place route entries
      else []

/-- The sources below a directory. `scopes` are those around its entries, and
`route` leads to the directory. -/
def scanEntries (scopes : Scopes) (directory : Place) (route : Route) :
    List (String × FileTree) → List String
  | [] => []
  | (name, tree) :: entries =>
      scanEntry scopes directory (route.enter name) name tree ++
        scanEntries scopes directory route entries

end

/-- The scopes of the directories in a trail, each with the names that lead from
there over the trail to `names`. -/
def outerScopes (names : List String) : List (String × FileTree) → Scopes
  | [] => []
  | (name, node) :: trail =>
      Scope.ofPlace (.above (name :: names)) { node, trail } :: outerScopes (name :: names) trail

/-- Whether a path stands for standard input where a directory is expected: a
single hyphen does, also with slashes behind it. -/
def isStandardInput (path : String) : Bool :=
  path.toList.head? == some '-' && Path.steps path == ["-"]

/-- The sources at a path: the file itself, if it can be outlined, or those below a
directory. -/
def FileTree.sources (root : FileTree) (path : String) : List String :=
  match root.locate path with
  | .ok place =>
      match place.node with
      | .file _ => if (Dialect.ofPath? path).isSome then [path] else []
      | .directory entries =>
          if isStandardInput path then []
          else
            scanEntries (Scope.ofPlace (.within path) place :: outerScopes [] place.trail)
              place { path := path, names := [] } entries
      | .link _ => []
  | .error _ => []

/-- Whether a scan of a path reports rules that it cannot understand. It reports
those of directories above the one that it scans. -/
def FileTree.scanComplains (root : FileTree) (path : String) : Bool :=
  match root.locate path with
  | .ok { node := .directory _, trail } =>
      !isStandardInput path && (outerScopes [] trail).any Scope.flawed
  | _ => false

end ScriptOutline
