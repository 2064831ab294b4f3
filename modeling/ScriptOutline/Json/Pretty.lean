import ScriptOutline.Json.Basic

/-!
# JSON text over several lines

Each item and each member stands on a line of its own, two spaces deeper than
the bracket that opens its container. Empty containers are closed at once.
-/

namespace ScriptOutline.Json

/-! ## Strings -/

def hexDigit (n : Nat) : Char := (Nat.toDigits 16 n).headD '0'

/-- The spelling of a character inside quotes. The quote, the backslash and
control characters are escaped; a control character without a letter of its own
is given by number. -/
def escape (c : Char) : List Char :=
  if c = '\x22' then ['\\', '\x22']
  else if c = '\\' then ['\\', '\\']
  else if c = '\x08' then ['\\', 'b']
  else if c = '\x0c' then ['\\', 'f']
  else if c = '\n' then ['\\', 'n']
  else if c = '\r' then ['\\', 'r']
  else if c = '\t' then ['\\', 't']
  else if c.toNat < 0x20 then
    ['\\', 'u', '0', '0', hexDigit (c.toNat / 16), hexDigit (c.toNat % 16)]
  else [c]

def quote (value : String) : String :=
  "\"" ++ String.ofList (value.toList.flatMap escape) ++ "\""

/-! ## Values -/

def indent (depth : Nat) : String := String.ofList (List.replicate (2 * depth) ' ')

def block (opening closing : String) (depth : Nat) (lines : List String) : String :=
  if lines.isEmpty then opening ++ closing
  else
    opening ++ "\n" ++
      ",\n".intercalate (lines.map fun line => indent (depth + 1) ++ line) ++
        "\n" ++ indent depth ++ closing

mutual

/-- A value inside `depth` containers. -/
def prettyAt (depth : Nat) : Json → String
  | null => "null"
  | bool value => if value then "true" else "false"
  | integer value => toString value
  | decimal spelling => spelling
  | string value => quote value
  | array items => block "[" "]" depth (prettyItems (depth + 1) items)
  | object members => block "\x7b" "\x7d" depth (prettyMembers (depth + 1) members)

def prettyItems (depth : Nat) : List Json → List String
  | [] => []
  | item :: rest => prettyAt depth item :: prettyItems depth rest

def prettyMembers (depth : Nat) : List (String × Json) → List String
  | [] => []
  | (key, value) :: rest =>
      (quote key ++ ": " ++ prettyAt depth value) :: prettyMembers depth rest

end

def pretty (value : Json) : String := prettyAt 0 value

theorem prettyItems_eq_map (depth : Nat) (items : List Json) :
    prettyItems depth items = items.map (prettyAt depth) := by
  induction items with
  | nil => rfl
  | cons item rest ih => rw [prettyItems, ih, List.map_cons]

@[simp] theorem pretty_array_nil : (array []).pretty = "[]" := by
  rw [pretty, prettyAt, prettyItems]
  rfl

/-- The items of an array stand between its brackets in order, each on lines of its own. -/
theorem pretty_array {items : List Json} (h : items ≠ []) :
    (array items).pretty =
      "[\n" ++ ",\n".intercalate (items.map fun item => "  " ++ item.prettyAt 1) ++ "\n]" := by
  have hlines : (items.map (prettyAt 1)).isEmpty = false := by simpa using h
  have hclosing : "\n" ++ (indent 0 ++ "]") = "\n]" := rfl
  rw [pretty, prettyAt, prettyItems_eq_map, block, hlines, if_neg Bool.false_ne_true,
    List.map_map, String.append_assoc, String.append_assoc, hclosing]
  rfl

end ScriptOutline.Json
