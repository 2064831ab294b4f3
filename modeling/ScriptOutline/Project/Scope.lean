import ScriptOutline.Project.Repository

/-!
# Scopes of rules

A directory sets rules for what lies below it. A file nearer to an entry goes
before one farther away, and rules of the project go before rules of version
control, which count only inside a repository.
-/

namespace ScriptOutline

/-- How a scan has come to an entry: its path as written, and the names that lead to
it from the directory that is scanned. -/
structure Route where
  path : String
  names : List String

def Route.enter (route : Route) (name : String) : Route :=
  { path := Path.join route.path name, names := route.names ++ [name] }

/-- Where a directory with rules stands: above the one that is scanned, with the
names that lead down to it, or within it, with a path as written. -/
inductive Vantage where
  | above (names : List String)
  | within (path : String)

namespace Vantage

/-- The path of an entry as the rules of a directory see it. -/
def sees (route : Route) : Vantage → List Char
  | above names => ("/".intercalate (names ++ route.names)).toList
  | within path => Path.seenFrom path route.path

end Vantage

structure Scope where
  vantage : Vantage
  projectRules : RuleFile
  repositoryRules : RuleFile
  excludeRules : RuleFile
  isRepository : Bool

namespace Scope

def ofPlace (vantage : Vantage) (directory : Place) : Scope where
  vantage := vantage
  projectRules := directory.ruleFile [".ignore"]
  repositoryRules := directory.ruleFile [".gitignore"]
  excludeRules := directory.excludes
  isRepository := directory.isRepository

def flawed (scope : Scope) : Bool :=
  scope.projectRules.flawed || scope.repositoryRules.flawed || scope.excludeRules.flawed

def judge? (file : Scope → RuleFile) (isDirectory : Bool) (route : Route) (scope : Scope) :
    Option Verdict :=
  Rule.judge? (file scope).rules isDirectory
    ((scope.vantage.sees route).flatMap String.utf8EncodeChar)

end Scope

/-- The scopes around an entry, the nearest first. -/
abbrev Scopes := List Scope

namespace Scopes

/-- The scopes up to the nearest repository; none without one. -/
def inRepository : Scopes → Scopes
  | [] => []
  | scope :: outer =>
      if scope.isRepository then [scope]
      else
        match inRepository outer with
        | [] => []
        | found => scope :: found

/-- What the nearest scope with an opinion says. -/
def judge? (file : Scope → RuleFile) (isDirectory : Bool) (route : Route) (scopes : Scopes) :
    Option Verdict :=
  scopes.findSome? fun scope => scope.judge? file isDirectory route

def verdict? (isDirectory : Bool) (route : Route) (scopes : Scopes) : Option Verdict :=
  (scopes.judge? Scope.projectRules isDirectory route).or
    ((scopes.inRepository.judge? Scope.repositoryRules isDirectory route).or
      (scopes.inRepository.judge? Scope.excludeRules isDirectory route))

end Scopes

end ScriptOutline
