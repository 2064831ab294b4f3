import ScriptOutline.CommandLine.Options
import ScriptOutline.Json.Pretty
import ScriptOutline.Project.FileOutline

/-!
# Running the command line

A run reads the files that its arguments name, or standard input, and writes
their outlines. Paths are checked before anything is read, so that a path which
leads nowhere leaves standard output empty; a file that cannot be read only
changes the exit code.
-/

namespace ScriptOutline.CommandLine

inductive Failure where
  | missingPath (path : String)
  | inputNotText
deriving DecidableEq, Repr

def Failure.report : Failure → String
  | missingPath path => "Error: Path does not exist: " ++ path ++ "\n"
  | inputNotText =>
      "Error: Failed to read stdin\n\nCaused by:\n    " ++ ReadError.notText.message ++ "\n"

structure Outcome where
  code : Nat
  output : String
  failure : Option Failure
  /-- Whether log lines stand before the report of the failure. -/
  logged : Bool
deriving DecidableEq, Repr

namespace Outcome

def success (output : String) : Outcome :=
  { code := 0, output := output, failure := none, logged := false }

def failed (failure : Failure) (logged : Bool) : Outcome :=
  { code := 1, output := "", failure := some failure, logged := logged }

end Outcome

def versionText : String := "js-outline 0.2.0\n"

def usageLine : String := "Usage: js-outline [OPTIONS] [PATHS]..."

def helpText : String :=
  "List the functions declared in JavaScript/TypeScript files\n\n" ++ usageLine ++ "\n\n" ++
  "Arguments:\n  [PATHS]...  Files or directories to outline\n\n" ++
  "Options:\n" ++
  "  -f, --format <FORMAT>    Output format [default: text] [possible values: text, json]\n" ++
  "  -d, --dialect <DIALECT>  Parse every input as this dialect instead of guessing from " ++
  "the extension [possible values: js, jsx, ts, tsx]\n" ++
  "      --stdin              Read a single source from stdin\n" ++
  "  -v, --verbose            Log at debug level unless JS_OUTLINE_LOG says otherwise\n" ++
  "  -h, --help               Print help\n" ++
  "  -V, --version            Print version\n"

/-- What is left behind when the arguments ask for no outline. -/
def Stop.outcome : Stop → Outcome
  | version => .success versionText
  | help => .success helpText
  | misuse => { code := 2, output := "", failure := none, logged := false }

namespace Options

def formatOrText (options : Options) : Format := options.format.getD .text

/-! ## Standard input -/

def writeEntries (format : Format) (entries : List Entry) : String :=
  match format with
  | .text => Entry.listingAll entries
  | .json => (Entry.listToJson entries).pretty ++ "\n"

def runOnInput (options : Options) (parse : Parser) (input : ByteArray) : Outcome :=
  match String.fromUTF8? input with
  | some source =>
      .success (writeEntries options.formatOrText
        (outlineOf parse (options.dialect.getD .javascript) source))
  | none => .failed .inputNotText false

/-! ## Files -/

/-- The sources that a path stands for. In a forced dialect a file is taken
whatever its extension. -/
def sourcesAt (options : Options) (root : FileTree) (path : String) : List String :=
  if options.dialect.isSome ∧ root.isFile path then [path] else root.sources path

/-- The sources that paths stand for, one path after the other, or the first path
that leads nowhere. -/
def sources (options : Options) (root : FileTree) : Except String (List String) :=
  match options.paths.find? fun path => !root.exists? path with
  | some path => .error path
  | none => .ok (options.paths.flatMap (options.sourcesAt root))

/-- Whether log lines are written before the first missing path is found: a verbose
run logs every scan of a directory, any run those that complain. -/
def logsBeforeMissing (options : Options) (root : FileTree) : Bool :=
  ((options.paths.takeWhile root.exists?).filter fun path => !root.isFile path).any fun path =>
    options.verbose || root.scanComplains path

def writeOutlines (format : Format) (outlines : List FileOutline) : String :=
  match format with
  | .text => String.join (outlines.map FileOutline.listing)
  | .json => (Json.array (outlines.map FileOutline.toJson)).pretty ++ "\n"

def runOnFiles (options : Options) (parse : Parser) (root : FileTree) : Outcome :=
  match options.sources root with
  | .error path => .failed (.missingPath path) (options.logsBeforeMissing root)
  | .ok paths =>
      let results := root.outlineFiles parse options.dialect paths
      let outlines := results.filterMap fun (_, result) => result.toOption
      { code := if outlines.length = results.length then 0 else 1
        output := writeOutlines options.formatOrText outlines
        failure := none
        logged := false }

def run (options : Options) (parse : Parser) (root : FileTree) (input : ByteArray) : Outcome :=
  if options.fromInput then options.runOnInput parse input else options.runOnFiles parse root

end Options

/-- A run of the command line in a file tree, with the bytes of standard input. -/
def run (parse : Parser) (root : FileTree) (arguments : List String) (input : ByteArray) :
    Outcome :=
  match Options.ofArguments arguments with
  | .ok options => options.run parse root input
  | .error stop => stop.outcome

end ScriptOutline.CommandLine
