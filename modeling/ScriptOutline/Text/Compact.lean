import ScriptOutline.Text.Blank

/-!
# Compacted text

A text of any shape is brought onto one line of limited length: its words are
joined by single spaces, and what exceeds the limit is replaced by three dots.
-/

namespace ScriptOutline.Text

/-- The maximal runs of characters that are not blank, in order. -/
def words : List Char → List (List Char)
  | [] => []
  | c :: rest =>
      if isBlank c then words rest
      else
        (c :: rest.takeWhile fun d => !isBlank d) :: words (rest.dropWhile fun d => !isBlank d)
termination_by text => text.length
decreasing_by
  · simp
  · exact Nat.lt_succ_of_le (List.dropWhile_sublist _).length_le

def collapse (text : List Char) : List Char :=
  [' '].intercalate (words text)

def ellipsis : List Char := ['.', '.', '.']

/-- At most `limit` characters of a text, and the mark of the cut if there were
more. -/
def truncate (limit : Nat) (text : List Char) : List Char :=
  if text.length ≤ limit then text else text.take limit ++ ellipsis

/-- The words of a text on one line of at most `limit` characters, not counting
the mark of a cut. -/
def compact (limit : Nat) (text : List Char) : List Char :=
  truncate limit (collapse text)

@[simp] theorem words_nil : words [] = [] := by
  simp [words]

theorem words_cons_of_blank {c : Char} (rest : List Char) (h : isBlank c = true) :
    words (c :: rest) = words rest := by
  simp [words, h]

theorem words_cons_of_not_blank {c : Char} (rest : List Char) (h : isBlank c = false) :
    words (c :: rest) =
      (c :: rest.takeWhile fun d => !isBlank d) ::
        words (rest.dropWhile fun d => !isBlank d) := by
  simp [words, h]

theorem truncate_of_length_le {limit : Nat} {text : List Char} (h : text.length ≤ limit) :
    truncate limit text = text := by
  simp [truncate, h]

theorem truncate_of_lt_length {limit : Nat} {text : List Char} (h : limit < text.length) :
    truncate limit text = text.take limit ++ ellipsis := by
  simp [truncate, Nat.not_le.mpr h]

end ScriptOutline.Text
