/-!
# JSON values

Numbers are told apart by how they are written: an integer has neither a
fraction nor an exponent, every other number keeps its spelling. The members of
an object keep their order.
-/

namespace ScriptOutline

inductive Json where
  | null
  | bool (value : Bool)
  | integer (value : Int)
  | decimal (spelling : String)
  | string (value : String)
  | array (items : List Json)
  | object (members : List (String × Json))

namespace Json

def member? (key : String) : Json → Option Json
  | object members => members.lookup key
  | _ => none

def string? : Json → Option String
  | string value => some value
  | _ => none

def array? : Json → Option (List Json)
  | array items => some items
  | _ => none

/-- An integer that is not negative and fits 64 bits. -/
def word? : Json → Option Nat
  | integer (.ofNat n) => if n < UInt64.size then some n else none
  | _ => none

def strings? (value : Json) : Option (List String) :=
  value.array?.bind fun items => items.mapM string?

def ofNat (n : Nat) : Json := integer (.ofNat n)

def ofStrings (values : List String) : Json := array (values.map string)

end Json

end ScriptOutline
