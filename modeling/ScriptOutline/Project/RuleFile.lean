import ScriptOutline.Project.Glob.Matching
import ScriptOutline.Project.Glob.Reader
import ScriptOutline.Text.Blank
import ScriptOutline.Text.Lines

/-!
# Rule files

A rule file tells which entries a scan passes over. It has one rule to a line,
and of the rules of a file the last that applies to a path counts.
-/

namespace ScriptOutline

inductive Verdict where
  | exclude | include
deriving DecidableEq, Repr

structure Rule where
  pattern : List Glob.Token
  verdict : Verdict
  directoriesOnly : Bool

namespace Rule

/-! ## Reading rules -/

/-- A line without the blanks at its end, unless a backslash escapes the last of
them. -/
def trimEnd (line : List Char) : List Char :=
  match line.reverse with
  | ' ' :: '\\' :: _ => line
  | reversed => (reversed.dropWhile Text.isBlank).reverse

/-- A slash at the end of a rule and a backslash that escapes it are no part of its
pattern. The first component tells whether there was such a slash. -/
def splitSlash (line : List Char) : Bool × List Char :=
  match line.reverse with
  | '/' :: '\\' :: reversed => (true, reversed.reverse)
  | '/' :: reversed => (true, reversed.reverse)
  | _ => (false, line)

/-- The pattern of a rule for whole paths: one without a slash applies at any
depth, and one for everything inside a directory not to the directory. -/
def anchor (anchored : Bool) (line : List Char) : List Char :=
  let free := !anchored && !line.contains '/' && line != ['*', '*']
  let full := if free then ['*', '*', '/'] ++ line else line
  if ['/', '*', '*'].isSuffixOf full then full ++ ['/', '*'] else full

/-- The rule for what follows the marks at the front of a line. -/
def ofPattern? (verdict : Verdict) (anchored : Bool) (line : List Char) : Option Rule :=
  let (directoriesOnly, text) := splitSlash line
  (Glob.ofText? (anchor anchored text)).map fun pattern =>
    { pattern, verdict, directoriesOnly }

/-- The rule after a mark that may turn it around. A slash at the front ties it to
the directory of its file. -/
def ofBody? (verdict : Verdict) : List Char → Option Rule
  | '/' :: rest => ofPattern? verdict true rest
  | body => ofPattern? verdict false body

def ofLine? : List Char → Option Rule
  | '\\' :: '!' :: rest => ofPattern? .exclude false ('!' :: rest)
  | '\\' :: '#' :: rest => ofPattern? .exclude false ('#' :: rest)
  | '!' :: rest => ofBody? .include rest
  | body => ofBody? .exclude body

/-! ## Applying rules -/

def applies (rule : Rule) (isDirectory : Bool) (path : List UInt8) : Bool :=
  (isDirectory || !rule.directoriesOnly) && Glob.matchesPath rule.pattern path

def judge? (rules : List Rule) (isDirectory : Bool) (path : List UInt8) : Option Verdict :=
  (rules.reverse.find? fun rule => rule.applies isDirectory path).map Rule.verdict

end Rule

/-! ## Whole files -/

structure RuleFile where
  rules : List Rule
  /-- Whether something in the file could not be understood. -/
  flawed : Bool

namespace RuleFile

def empty : RuleFile := { rules := [], flawed := false }

def garbled : RuleFile := { rules := [], flawed := true }

/-- Lines without the byte order mark in front of the first. -/
def dropMark : List (List Char) → List (List Char)
  | [] => []
  | first :: rest => (first.dropWhile fun c => c == '\ufeff') :: rest

/-- The rule lines of a file, trimmed: those up to the first line that is not text,
less comments and empty lines. -/
def ruleLines (bytes : ByteArray) : List (List Char) :=
  let texts := ((Text.lines bytes).takeWhile Option.isSome).filterMap fun line =>
    line.map String.toList
  let trimmed := ((dropMark texts).filter fun line => line.head? != some '#').map Rule.trimEnd
  trimmed.filter fun line => !line.isEmpty

/-- The rules of a file. A line that is no pattern holds no rule; a pattern that
nests too deep spoils the whole file. -/
def ofBytes (bytes : ByteArray) : RuleFile :=
  let results := (ruleLines bytes).map Rule.ofLine?
  let rules := results.filterMap id
  if rules.any fun rule => Glob.nestsTooDeep rule.pattern then garbled
  else { rules := rules, flawed := results.any Option.isNone }

end RuleFile

end ScriptOutline
