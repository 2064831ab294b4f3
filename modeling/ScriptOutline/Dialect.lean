import ScriptOutline.Path

/-!
# Dialects

The dialects of source that can be outlined, and the grammars that parse them.
-/

namespace ScriptOutline

inductive Grammar where
  | javascript | typescript | tsx
deriving DecidableEq, Repr

namespace Grammar

def word : Grammar → String
  | javascript => "javascript"
  | typescript => "typescript"
  | tsx => "tsx"

def ofWord? (text : String) : Option Grammar :=
  [javascript, typescript, tsx].find? fun g => g.word == text

theorem ofWord?_word (g : Grammar) : ofWord? g.word = some g := by
  cases g <;> decide

end Grammar

inductive Dialect where
  | javascript | jsx | typescript | tsx
deriving DecidableEq, Repr

namespace Dialect

/-- The grammar of a dialect. The grammar of plain scripts also covers their
extension by markup. -/
def grammar : Dialect → Grammar
  | javascript | jsx => .javascript
  | typescript => .typescript
  | tsx => .tsx

def word : Dialect → String
  | javascript => "javascript"
  | jsx => "jsx"
  | typescript => "typescript"
  | tsx => "tsx"

def ofWord? (text : String) : Option Dialect :=
  [javascript, jsx, typescript, tsx].find? fun d => d.word == text

theorem ofWord?_word (d : Dialect) : ofWord? d.word = some d := by
  cases d <;> decide

/-- The dialect of files with an extension, whatever the case of its letters. No
letter outside ASCII has one of the letters of an extension as its small form. -/
def ofExtension? (extension : String) : Option Dialect :=
  match String.ofList (extension.toList.map Char.toLower) with
  | "js" | "mjs" | "cjs" => some javascript
  | "jsx" => some jsx
  | "ts" | "mts" | "cts" => some typescript
  | "tsx" => some tsx
  | _ => none

def ofPath? (path : String) : Option Dialect :=
  (Path.extension? path).bind ofExtension?

end Dialect

end ScriptOutline
