import ScriptOutline.Outline.Entry

/-!
# Listings

An outline as text: one line for each entry, indented by its level, with a mark
for its category and the line of the source at the end.
-/

namespace ScriptOutline

def Category.mark : Category → Char
  | generator => '*'
  | unnamed => '~'
  | privateName => '-'
  | className => 'C'
  | publicName => '+'

namespace Entry

def indent (e : Entry) : String := String.ofList (List.replicate (2 * e.level) ' ')

def signature (e : Entry) : String :=
  e.name ++ "(" ++ ", ".intercalate e.args ++ ")"

/-- The line of an entry, with the line feed that ends it. -/
def listing (e : Entry) : String :=
  e.indent ++ e.category.mark.toString ++ " " ++ e.signature ++ " :" ++ toString e.line ++ "\n"

def listingAll (entries : List Entry) : String :=
  String.join (entries.map listing)

end Entry

end ScriptOutline
