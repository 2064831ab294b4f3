import ScriptOutline.Text.LetterCase

/-!
# Outline entries

An outline is a flat list of entries, one for each function that a source
declares, with its nesting given as a level. The category of an entry is decided
by the name alone, unless the function is a generator.
-/

namespace ScriptOutline

inductive Category where
  | generator | unnamed | privateName | className | publicName
deriving DecidableEq, Repr

/-- The name that stands for a function without one. -/
def placeholder : String := "function"

/-- The category of a function by its name: a leading low line makes a name
private, a first character that is its own upper case makes it the name of a
class. -/
def Category.ofName (name : String) : Category :=
  if name = placeholder then .unnamed
  else
    match name.toList with
    | [] => .publicName
    | first :: _ =>
        if first = '_' then .privateName
        else if Text.isOwnUppercase first then .className
        else .publicName

def Category.of (name : String) (generator : Bool) : Category :=
  if generator then .generator else ofName name

def Category.word : Category → String
  | generator => "generator"
  | unnamed => "unnamed"
  | privateName => "private"
  | className => "class"
  | publicName => "public"

def Category.all : List Category := [generator, unnamed, privateName, className, publicName]

def Category.ofWord? (word : String) : Option Category :=
  all.find? fun c => c.word == word

theorem Category.mem_all (c : Category) : c ∈ all := by
  cases c <;> decide

theorem Category.ofWord?_word (c : Category) : ofWord? c.word = some c := by
  cases c <;> decide

structure Entry where
  name : String
  /-- The line where the function starts, counted from one. -/
  line : Nat
  category : Category
  /-- The number of functions around it. -/
  level : Nat
  args : List String
deriving DecidableEq, Repr

end ScriptOutline
