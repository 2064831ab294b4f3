/-!
# Lines of a file

The lines of bytes, of which some may be no text. A line ends with a line feed,
and a carriage return before it belongs to the line end; what stands behind the
last line feed is a line unless it is empty.
-/

namespace ScriptOutline.Text

/-- A line without the carriage return of its line end. -/
def dropReturn (line : List UInt8) : List UInt8 :=
  if line.getLast? = some 0x0D then line.dropLast else line

def byteLines (bytes : ByteArray) : List (List UInt8) :=
  let pieces := bytes.toList.splitOn 0x0A
  pieces.dropLast.map dropReturn ++ (pieces.getLast?.filter fun piece => !piece.isEmpty).toList

/-- The lines; one that is no text is `none`. -/
def lines (bytes : ByteArray) : List (Option String) :=
  (byteLines bytes).map fun line => String.fromUTF8? ⟨line.toArray⟩

end ScriptOutline.Text
