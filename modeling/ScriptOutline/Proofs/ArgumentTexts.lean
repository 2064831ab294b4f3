import ScriptOutline.Proofs.Arrivals

/-!
# Arguments on the parse tree

How the formal parameters of a function are written, read off the parameters in the tree:
each by its own binding and its own default. Main statement: `args_entry`.
-/

namespace ScriptOutline

namespace ParseTree

/-- The value of a literal, whatever the parentheses around it. -/
def literal? (source : ByteArray) (t : ParseTree) : Option String :=
  match Construct.ofKind t.unwrap.kind with
  | .string => some (String.ofList (StringLiteral.value (t.unwrap.text source).toList))
  | .plainLiteral => some (t.unwrap.text source)
  | _ => none

/-- How a default is written: a literal by its value, any other default by its source with
its parentheses, on one line. -/
def defaultText (source : ByteArray) (t : ParseTree) : String :=
  (t.literal? source).getD
    (String.ofList (Text.compact Code.defaultLimit (t.text source).toList))

def boundName (source : ByteArray) (t : ParseTree) : String :=
  (t.binding?.map (Code.bindingName source)).getD ""

def argument (source : ByteArray) (t : ParseTree) : String :=
  match t.default? with
  | none => t.boundName source
  | some d => t.boundName source ++ "=" ++ d.defaultText source

end ParseTree

namespace Code

theorem name_paramOf (source : ByteArray) (t : ParseTree) :
    (paramOf source t).name = t.boundName source := by
  rw [paramOf, ParseTree.boundName]
  cases t.binding? <;> rfl

theorem text_default_ofTree (source : ByteArray) (t : ParseTree) :
    Default.text { node := ofTree source t, source := t.text source } =
      t.defaultText source := by
  rw [Default.text, ofTree_eq, shape, bareShapeOf, ParseTree.defaultText, ParseTree.literal?]
  cases Construct.ofKind t.unwrap.kind with
  | shorthandDefault =>
      rcases shorthandDefaultOf_eq source t.unwrap with ⟨_, _, _, heq⟩ | ⟨_, heq⟩ <;>
        simp only [heq] <;> rfl
  | _ => rfl

theorem text_paramOf (source : ByteArray) (t : ParseTree) :
    ((paramOf source t).map (ofOperand source)).text
        ((defaultOf source t).map (Default.map (ofOperand source))) = t.argument source := by
  rw [defaultOf, ParseTree.argument]
  cases t.default? with
  | none => exact name_paramOf source t
  | some d =>
      show (paramOf source t).name ++ "=" ++
        Default.text { node := ofTree source d, source := d.text source } = _
      rw [name_paramOf, text_default_ofTree]

/-- Parameters and defaults that come from the same list are written one by one. -/
theorem arguments_map (source : ByteArray) (parameters : List ParseTree) :
    arguments ((parameters.map (paramOf source)).map (Param.map (ofOperand source)))
        ((parameters.map (defaultOf source)).map (Option.map (Default.map (ofOperand source)))) =
      parameters.map (ParseTree.argument source) := by
  induction parameters with
  | nil => rfl
  | cons t rest ih => exact congr (congrArg List.cons (text_paramOf source t)) ih

end Code

namespace Arrival

/-- The arguments of an entry are the parameters of its function, in order and each
written on its own. -/
theorem args_entry (source : ByteArray) (a : Arrival) :
    (a.entry source).args = a.spot.node.formalParameters.map (ParseTree.argument source) :=
  Code.arguments_map source a.spot.node.formalParameters

end Arrival

end ScriptOutline
