import ScriptOutline.Dialect

/-!
# Options

The command line takes paths and options in any order. Arguments are read from
the left, and the first that ends the reading decides: a request for the version
or for help, or a misuse. Whether paths are given as they have to be is checked
when all arguments have been read.
-/

namespace ScriptOutline.CommandLine

inductive Format where
  | text | json
deriving DecidableEq, Repr

/-- What ends the reading of arguments. -/
inductive Stop where
  | version | help | misuse
deriving DecidableEq, Repr

inductive Setting where
  | format | dialect
deriving DecidableEq, Repr

structure Options where
  paths : List String
  format : Option Format
  dialect : Option Dialect
  fromInput : Bool
  verbose : Bool
deriving DecidableEq, Repr

def Options.unset : Options where
  paths := []
  format := none
  dialect := none
  fromInput := false
  verbose := false

def Format.ofWord? : String → Option Format
  | "text" => some text
  | "json" => some json
  | _ => none

def dialectOfWord? : String → Option Dialect
  | "js" => some .javascript
  | "jsx" => some .jsx
  | "ts" => some .typescript
  | "tsx" => some .tsx
  | _ => none

/-! ## Single options -/

namespace Options

def set (options : Options) (setting : Setting) (word : String) : Except Stop Options :=
  match setting with
  | .format =>
      match options.format, Format.ofWord? word with
      | none, some format => .ok { options with format := some format }
      | _, _ => .error .misuse
  | .dialect =>
      match options.dialect, dialectOfWord? word with
      | none, some dialect => .ok { options with dialect := some dialect }
      | _, _ => .error .misuse

def setVerbose (options : Options) : Except Stop Options :=
  if options.verbose then .error .misuse else .ok { options with verbose := true }

def setFromInput (options : Options) : Except Stop Options :=
  if options.fromInput then .error .misuse else .ok { options with fromInput := true }

def addPath (options : Options) (path : String) : Except Stop Options :=
  if path = "" then .error .misuse else .ok { options with paths := options.paths ++ [path] }

end Options

/-! ## Reading arguments -/

structure Progress where
  options : Options
  /-- The setting that waits for its value. -/
  pending : Option Setting
  /-- Whether all further arguments are paths. -/
  pathsOnly : Bool

namespace Progress

def start : Progress := { options := Options.unset, pending := none, pathsOnly := false }

def settle (progress : Progress) (options : Except Stop Options) : Except Stop Progress :=
  options.map fun o => { progress with options := o, pending := none }

/-- Reads the letters of an argument with one dash. The rest of the argument
behind a setting is its value, which an equals sign may precede. -/
def readLetters (progress : Progress) : List Char → Except Stop Progress
  | [] => .ok progress
  | 'v' :: letters => do
      let next ← progress.settle progress.options.setVerbose
      next.readLetters letters
  | 'V' :: _ => .error .version
  | 'h' :: _ => .error .help
  | 'f' :: letters => readValue .format letters
  | 'd' :: letters => readValue .dialect letters
  | _ :: _ => .error .misuse
where
  readValue (setting : Setting) : List Char → Except Stop Progress
    | [] => .ok { progress with pending := some setting }
    | '=' :: word => progress.settle (progress.options.set setting (String.ofList word))
    | word => progress.settle (progress.options.set setting (String.ofList word))

/-- Reads the name of an option and the value behind an equals sign, if there is
one. -/
def readName (progress : Progress) (name : String) (value : Option String) :
    Except Stop Progress :=
  match name, value with
  | "format", none => .ok { progress with pending := some .format }
  | "format", some word => progress.settle (progress.options.set .format word)
  | "dialect", none => .ok { progress with pending := some .dialect }
  | "dialect", some word => progress.settle (progress.options.set .dialect word)
  | "stdin", none => progress.settle progress.options.setFromInput
  | "verbose", none => progress.settle progress.options.setVerbose
  | "version", none => .error .version
  | "help", none => .error .help
  | _, _ => .error .misuse

def read (progress : Progress) (argument : String) : Except Stop Progress :=
  if progress.pathsOnly then progress.settle (progress.options.addPath argument)
  else
    match progress.pending with
    | some setting => progress.settle (progress.options.set setting argument)
    | none =>
        match argument.toList with
        | ['-', '-'] => .ok { progress with pathsOnly := true }
        | '-' :: '-' :: text =>
            match text.dropWhile fun c => c != '=' with
            | _ :: value =>
                progress.readName (String.ofList (text.takeWhile fun c => c != '='))
                  (some (String.ofList value))
            | [] => progress.readName (String.ofList text) none
        | '-' :: letter :: letters => progress.readLetters (letter :: letters)
        | _ => progress.settle (progress.options.addPath argument)

end Progress

/-- Options that fit together: either paths are named or standard input is
taken. -/
def Options.check (options : Options) : Except Stop Options :=
  if options.fromInput = options.paths.isEmpty then .ok options else .error .misuse

def Options.ofArguments (arguments : List String) : Except Stop Options := do
  let progress ← arguments.foldlM Progress.read Progress.start
  match progress.pending with
  | some _ => throw .misuse
  | none => progress.options.check

end ScriptOutline.CommandLine
