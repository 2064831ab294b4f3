import ScriptOutline.Text.Hexadecimal

/-!
# String literals

The value that a string literal denotes: its quotes are taken off and its
escapes are applied. Escapes are read one after the other from the front, and
one that denotes no character keeps its spelling.
-/

namespace ScriptOutline.StringLiteral

def isQuote (c : Char) : Bool := c == '\x22' || c == '\x27' || c == '\x60'

/-- A text without the pair of equal quotes around it; any other text as it is.
A single quote character is no pair. -/
def unquote : List Char → List Char
  | [] => []
  | first :: rest =>
      if isQuote first ∧ rest.getLast? = some first then rest.dropLast else first :: rest

/-! ## Characters given by number -/

/-- The character with this code point; surrogates and numbers beyond the last
code point have none. -/
def charOfCode? (code : Nat) : Option Char :=
  if h : code.isValidChar then some (Char.ofNatAux code h) else none

/-- The digits of a code, which one plus sign may precede. -/
def dropSign : List Char → List Char
  | '+' :: digits => digits
  | digits => digits

/-- The character whose code point a text writes in hexadecimal. There has to be
a digit; how many there are is no matter. -/
def charOfHex? (text : List Char) : Option Char :=
  if (dropSign text).isEmpty then none else (Text.hexValue? (dropSign text)).bind charOfCode?

/-! ## Escapes -/

def controlChar? : Char → Option Char
  | 'n' => some '\n'
  | 't' => some '\t'
  | 'r' => some '\r'
  | 'b' => some '\x08'
  | 'f' => some '\x0c'
  | 'v' => some '\x0b'
  | _ => none

def startsWithDigit : List Char → Bool
  | c :: _ => c.isDigit
  | [] => false

/-- An escape of the form `lead` and `count` characters: its value and what
follows it. At the end of the text there may be fewer characters. -/
def readCode (lead : List Char) (count : Nat) (text : List Char) : List Char × List Char :=
  (((charOfHex? (text.take count)).map fun c => [c]).getD (lead ++ text.take count),
    text.drop count)

/-- An escape with a code in braces, from behind the opening brace: its value and
what follows it. A brace that is never closed holds the rest of the text. -/
def readBraced (text : List Char) : List Char × List Char :=
  let digits := text.takeWhile fun c => c != '\x7d'
  (((charOfHex? digits).map fun c => [c]).getD (['\\', 'u', '\x7b'] ++ digits ++ ['\x7d']),
    (text.dropWhile fun c => c != '\x7d').tail)

/-- An escape, from behind its backslash: its value and what follows it. A
backslash at the end stands for itself, a line end behind one for nothing, and
a character without a meaning of its own for itself. -/
def readEscape : List Char → List Char × List Char
  | [] => (['\\'], [])
  | c :: rest =>
      match controlChar? c with
      | some control => ([control], rest)
      | none =>
          if c = '0' ∧ startsWithDigit rest = false then (['\x00'], rest)
          else if c = '\n' then ([], rest)
          else if c = '\r' then ([], if rest.head? = some '\n' then rest.tail else rest)
          else if c = 'x' then readCode ['\\', 'x'] 2 rest
          else if c = 'u' then
            if rest.head? = some '\x7b' then readBraced rest.tail
            else readCode ['\\', 'u'] 4 rest
          else ([c], rest)

theorem readCode_rest_length_le (lead : List Char) (count : Nat) (text : List Char) :
    (readCode lead count text).2.length ≤ text.length := by
  simp [readCode]

theorem readBraced_rest_length_le (text : List Char) :
    (readBraced text).2.length ≤ text.length := by
  have h := (List.dropWhile_sublist (fun c => c != '\x7d') (l := text)).length_le
  simp only [readBraced, List.length_tail]
  omega

/-- Reading an escape never gives characters back to the text. -/
theorem readEscape_rest_length_le (text : List Char) :
    (readEscape text).2.length ≤ text.length := by
  cases text with
  | nil => simp [readEscape]
  | cons c rest =>
      have hx := readCode_rest_length_le ['\\', 'x'] 2 rest
      have hu := readCode_rest_length_le ['\\', 'u'] 4 rest
      have hbraced := readBraced_rest_length_le rest.tail
      have htail : rest.tail.length ≤ rest.length := by simp
      grind [readEscape]

def interpret : List Char → List Char
  | [] => []
  | c :: rest =>
      if c = '\\' then (readEscape rest).1 ++ interpret (readEscape rest).2
      else c :: interpret rest
termination_by text => text.length
decreasing_by
  · exact Nat.lt_succ_of_le (readEscape_rest_length_le rest)
  · simp

def value (spelling : List Char) : List Char :=
  interpret (unquote spelling)

@[simp] theorem interpret_nil : interpret [] = [] := by
  simp [interpret]

theorem interpret_backslash (rest : List Char) :
    interpret ('\\' :: rest) = (readEscape rest).1 ++ interpret (readEscape rest).2 := by
  rw [interpret, if_pos rfl]

theorem interpret_plain {c : Char} (rest : List Char) (h : c ≠ '\\') :
    interpret (c :: rest) = c :: interpret rest := by
  rw [interpret, if_neg h]

end ScriptOutline.StringLiteral
