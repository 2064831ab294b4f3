import ScriptOutline.Json.Basic
import ScriptOutline.Outline.Entry

/-!
# Entries as records

An entry is written as an object with five members. An object is read as an
entry if it has them all, each of the right kind; further members do not matter.
An array of just the five values in the same order is read as an entry too.
-/

namespace ScriptOutline.Entry

def toJson (e : Entry) : Json :=
  .object
    [("name", .string e.name), ("line", .ofNat e.line), ("type", .string e.category.word),
      ("level", .ofNat e.level), ("args", .ofStrings e.args)]

def listToJson (entries : List Entry) : Json := .array (entries.map toJson)

/-- A category is named by its word, alone or as the only member of an object that
gives it no value. -/
def categoryOfJson? : Json → Option Category
  | .string word => Category.ofWord? word
  | .object [(word, .null)] => Category.ofWord? word
  | _ => none

def ofValues? (name line category level args : Json) : Option Entry := do
  return {
    name := ← name.string?
    line := ← line.word?
    category := ← categoryOfJson? category
    level := ← level.word?
    args := ← args.strings? }

def ofJson? : Json → Option Entry
  | .array [name, line, category, level, args] => ofValues? name line category level args
  | value => do
      ofValues? (← value.member? "name") (← value.member? "line") (← value.member? "type")
        (← value.member? "level") (← value.member? "args")

/-- The entries of an array; one item that is no entry spoils them all. -/
def listOfJson? (value : Json) : Option (List Entry) :=
  value.array?.bind fun items => items.mapM ofJson?

end ScriptOutline.Entry
