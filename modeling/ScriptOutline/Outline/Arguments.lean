import ScriptOutline.Code.Basic
import ScriptOutline.Text.Compact

/-!
# Arguments

How the formal parameters of a function are written in an outline: each by its
name, with its default behind an equals sign. A literal default is written by
its value, any other default by its source on one line.
-/

namespace ScriptOutline.Code

def defaultLimit : Nat := 40

def Default.text (d : Default Code) : String :=
  match d.node.shape with
  | .literal value => value
  | _ => String.ofList (Text.compact defaultLimit d.source.toList)

def Param.text (p : Param Code) : Option (Default Code) → String
  | none => p.name
  | some d => p.name ++ "=" ++ d.text

def arguments : List (Param Code) → List (Option (Default Code)) → List String
  | [], _ => []
  | p :: params, [] => p.text none :: arguments params []
  | p :: params, d :: defaults => p.text d :: arguments params defaults

end ScriptOutline.Code
