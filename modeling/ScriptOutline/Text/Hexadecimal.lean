/-!
# Hexadecimal

Numbers and bytes written in hexadecimal, with digits of either case.
-/

namespace ScriptOutline.Text

def hexDigit? (c : Char) : Option Nat :=
  if '0' ≤ c ∧ c ≤ '9' then some (c.toNat - '0'.toNat)
  else if 'a' ≤ c ∧ c ≤ 'f' then some (c.toNat - 'a'.toNat + 10)
  else if 'A' ≤ c ∧ c ≤ 'F' then some (c.toNat - 'A'.toNat + 10)
  else none

/-- The number that hexadecimal digits write, the most significant digit
first. -/
def hexValue? (digits : List Char) : Option Nat :=
  (digits.mapM hexDigit?).map fun values => values.foldl (fun total d => 16 * total + d) 0

/-- The bytes that pairs of digits write; an odd digit at the end spoils them. -/
def bytesOfHex? : List Char → Option (List UInt8)
  | [] => some []
  | [_] => none
  | high :: low :: rest => do
      let value ← hexValue? [high, low]
      return UInt8.ofNat value :: (← bytesOfHex? rest)

end ScriptOutline.Text
