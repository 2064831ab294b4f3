/-!
# Slices of a source

A source is a sequence of bytes, and positions in it count bytes. A slice is
text only if its bytes are the UTF-8 encoding of one; every other slice, also
one that leaves the source, is the empty text.
-/

namespace ScriptOutline.Text

def isLineEnd (c : Char) : Bool := c == '\n' || c == '\r'

def dropLineEnds (text : List Char) : List Char :=
  (text.reverse.dropWhile isLineEnd).reverse

/-- The bytes from `start` up to `stop`, if both lie in the source in this
order. -/
def bytesBetween? (source : ByteArray) (start stop : Nat) : Option ByteArray :=
  if start ≤ stop ∧ stop ≤ source.size then some (source.extract start stop) else none

/-- The text between two positions of a source, without its final line ends. -/
def slice (source : ByteArray) (start stop : Nat) : List Char :=
  match (bytesBetween? source start stop).bind String.fromUTF8? with
  | some text => dropLineEnds text.toList
  | none => []

end ScriptOutline.Text
