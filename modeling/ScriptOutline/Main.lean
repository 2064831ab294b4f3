import ScriptOutline.CommandLine.Bundle
import ScriptOutline.CommandLine.Run

/-!
# The program

Arguments come from the command line, and what they refer to comes as a bundle
on standard input. Arguments that ask for no outline are answered without one.
-/

namespace ScriptOutline

partial def readText (stream : IO.FS.Stream) (lines : Array String) : IO String := do
  let line ← stream.getLine
  if line.isEmpty then return String.join lines.toList
  else readText stream (lines.push line)

def CommandLine.Outcome.report (outcome : Outcome) : IO UInt32 := do
  IO.print outcome.output
  match outcome.failure with
  | some failure => IO.eprint failure.report
  | none => if outcome.code = 2 then IO.eprintln usageLine
  return outcome.code.toUInt32

def runOnBundle (options : CommandLine.Options) : IO UInt32 := do
  match Bundle.ofText (← readText (← IO.getStdin) #[]) with
  | .ok bundle => (options.run bundle.parser bundle.root bundle.input).report
  | .error error => do
      IO.eprintln error.message
      return 2

end ScriptOutline

def main (arguments : List String) : IO UInt32 :=
  match ScriptOutline.CommandLine.Options.ofArguments arguments with
  | .ok options => ScriptOutline.runOnBundle options
  | .error stop => stop.outcome.report
