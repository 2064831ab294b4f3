/-!
# Blank characters

The characters that separate words: those with the Unicode property
`White_Space`.
-/

namespace ScriptOutline.Text

/-- First and last code point of each run of characters with the property
`White_Space`, 25 characters in all. -/
def blankRanges : List (Nat × Nat) :=
  [(0x09, 0x0D), (0x20, 0x20), (0x85, 0x85), (0xA0, 0xA0), (0x1680, 0x1680),
    (0x2000, 0x200A), (0x2028, 0x2029), (0x202F, 0x202F), (0x205F, 0x205F),
    (0x3000, 0x3000)]

def isBlank (c : Char) : Bool :=
  blankRanges.any fun (first, last) => first ≤ c.toNat && c.toNat ≤ last

theorem isBlank_space : isBlank ' ' = true := by decide

end ScriptOutline.Text
