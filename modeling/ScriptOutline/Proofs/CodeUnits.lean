import ScriptOutline.Proofs.LiteralTokens

/-!
# Texts written by code units

A character beyond the first plane has two code units of sixteen bits, both surrogates. A
literal that gives its text by an escape for each code unit has that text for its value
as long as there is no such character: escapes of surrogates keep their spelling, also
where two of them together make a character. Main statement: `value_of_unitEscapes`.
-/

namespace ScriptOutline.StringLiteral

/-- The code units of a character: its number, or two surrogates that share the bits of
what its number is beyond the first plane. -/
def codeUnits (c : Char) : List Nat :=
  if c.toNat < 0x10000 then [c.toNat]
  else [0xD800 + (c.toNat - 0x10000) / 0x400, 0xDC00 + (c.toNat - 0x10000) % 0x400]

def IsSurrogate (unit : Nat) : Prop := 0xD800 ≤ unit ∧ unit ≤ 0xDFFF

instance (unit : Nat) : Decidable (IsSurrogate unit) :=
  inferInstanceAs (Decidable (0xD800 ≤ unit ∧ unit ≤ 0xDFFF))

structure UnitEscape where
  digits : List HexDigit
  length_digits : digits.length = 4

namespace UnitEscape

def unit (e : UnitEscape) : Nat := HexDigit.number e.digits

def spelling (e : UnitEscape) : List Char := ['\\', 'u'] ++ e.digits.map HexDigit.char

/-- The character of a code unit, or the spelling of the escape if it has none. -/
def reading (e : UnitEscape) : List Char :=
  if IsSurrogate e.unit then e.spelling else [Char.ofNat e.unit]

theorem unit_lt (e : UnitEscape) : e.unit < 0x10000 := by
  have hdigits : ∀ d ∈ e.digits.reverse.map fun d => d.value.val, d < 16 := by
    simp
  have hlength : (e.digits.reverse.map fun d => d.value.val).length = 4 := by
    simp [e.length_digits]
  have hlt := Nat.ofDigits_lt_base_pow_length (by decide) hdigits
  rwa [hlength] at hlt

theorem charOfCode?_unit (e : UnitEscape) :
    charOfCode? e.unit = if IsSurrogate e.unit then none else some (Char.ofNat e.unit) := by
  have hlt := e.unit_lt
  split
  · rename_i hsurrogate
    rw [charOfCode?, dif_neg]
    unfold IsSurrogate at hsurrogate
    unfold Nat.isValidChar
    omega
  · rename_i hcharacter
    have hvalid : e.unit.isValidChar := by
      unfold IsSurrogate at hcharacter
      unfold Nat.isValidChar
      omega
    rw [charOfCode?, dif_pos hvalid, Char.ofNat, dif_pos hvalid]

end UnitEscape

/-! ## Reading code units -/

theorem interpret_unitEscape_append (e : UnitEscape) (rest : List Char) :
    interpret (e.spelling ++ rest) = e.reading ++ interpret rest := by
  have hne : e.digits ≠ [] := List.ne_nil_of_length_pos (by rw [e.length_digits]; decide)
  have hlength : (e.digits.map HexDigit.char).length = 4 := by simp [e.length_digits]
  have hhead : (e.digits.map HexDigit.char ++ rest).head? ≠ some '\x7b' := by
    obtain ⟨d, others, hdigits⟩ := List.exists_cons_of_ne_nil hne
    simpa [hdigits] using HexDigit.char_ne (by decide) d
  have hchar : charOfHex? (e.digits.map HexDigit.char) = charOfCode? e.unit :=
    charOfHex?_sign_digits (show IsSign [] from .inl rfl) hne
  rw [UnitEscape.spelling, List.append_assoc]
  show interpret (CodeForm.four.opening ++ _) = _
  rw [interpret_opening rfl fun _ => hhead, readCode, List.take_left' hlength,
    List.drop_left' hlength, hchar, e.charOfCode?_unit, UnitEscape.reading]
  split <;> rfl

theorem interpret_unitEscapes (escapes : List UnitEscape) :
    interpret (escapes.flatMap UnitEscape.spelling) = escapes.flatMap UnitEscape.reading := by
  induction escapes with
  | nil => exact interpret_nil
  | cons e rest ih =>
      rw [List.flatMap_cons, interpret_unitEscape_append, ih, List.flatMap_cons]

/-! ## Characters and their code units -/

theorem toNat_lt (c : Char) : c.toNat < 0x110000 := by
  have hvalid : c.toNat.isValidChar := c.valid
  unfold Nat.isValidChar at hvalid
  omega

theorem not_isSurrogate_toNat (c : Char) : ¬ IsSurrogate c.toNat := by
  have hvalid : c.toNat.isValidChar := c.valid
  unfold Nat.isValidChar at hvalid
  unfold IsSurrogate
  omega

/-- The escapes of a character of the first plane are read as the character. -/
theorem reading_of_lt {c : Char} (hc : c.toNat < 0x10000) {escapes : List UnitEscape}
    (h : escapes.map UnitEscape.unit = codeUnits c) :
    escapes.flatMap UnitEscape.reading = [c] := by
  rw [codeUnits, if_pos hc, List.map_eq_singleton_iff] at h
  obtain ⟨e, rfl, he⟩ := h
  simp [UnitEscape.reading, he, not_isSurrogate_toNat, Char.ofNat_toNat]

/-- The escapes of any other character are two, of six characters each, that keep their
spelling. -/
theorem length_reading_of_le {c : Char} (hc : 0x10000 ≤ c.toNat) {escapes : List UnitEscape}
    (h : escapes.map UnitEscape.unit = codeUnits c) :
    (escapes.flatMap UnitEscape.reading).length = 12 := by
  have hlt := toNat_lt c
  rw [codeUnits, if_neg (by omega), List.map_eq_cons_iff] at h
  obtain ⟨high, others, rfl, hhigh, hothers⟩ := h
  obtain ⟨low, rfl, hlow⟩ := List.map_eq_singleton_iff.mp hothers
  have hhigh' : IsSurrogate high.unit := by unfold IsSurrogate; omega
  have hlow' : IsSurrogate low.unit := by unfold IsSurrogate; omega
  simp [UnitEscape.reading, hhigh', hlow', UnitEscape.spelling, UnitEscape.length_digits]

/-! ## Texts and their code units -/

theorem length_reading {text : List Char} {escapes : List UnitEscape}
    (h : escapes.map UnitEscape.unit = text.flatMap codeUnits) :
    (escapes.flatMap UnitEscape.reading).length =
      text.length + 11 * text.countP (fun c => 0x10000 ≤ c.toNat) := by
  induction text generalizing escapes with
  | nil =>
      obtain rfl : escapes = [] := by simpa using h
      rfl
  | cons c rest ih =>
      rw [List.flatMap_cons, List.map_eq_append_iff] at h
      obtain ⟨first, others, rfl, hfirst, hothers⟩ := h
      rw [List.flatMap_append, List.length_append, ih hothers, List.length_cons,
        List.countP_cons]
      by_cases hc : c.toNat < 0x10000
      · have hplane : ¬ 0x10000 ≤ c.toNat := by omega
        simp only [reading_of_lt hc hfirst, hplane, decide_false, Bool.false_eq_true, if_false,
          List.length_singleton]
        omega
      · have hplane : 0x10000 ≤ c.toNat := by omega
        simp only [length_reading_of_le hplane hfirst, hplane, decide_true, if_true]
        omega

theorem reading_eq_text {text : List Char} (hplane : ∀ c ∈ text, c.toNat < 0x10000)
    {escapes : List UnitEscape} (h : escapes.map UnitEscape.unit = text.flatMap codeUnits) :
    escapes.flatMap UnitEscape.reading = text := by
  induction text generalizing escapes with
  | nil =>
      obtain rfl : escapes = [] := by simpa using h
      rfl
  | cons c rest ih =>
      obtain ⟨hc, hrest⟩ := List.forall_mem_cons.mp hplane
      rw [List.flatMap_cons, List.map_eq_append_iff] at h
      obtain ⟨first, others, rfl, hfirst, hothers⟩ := h
      rw [List.flatMap_append, reading_of_lt hc hfirst, ih hrest hothers]
      rfl

/-- The value of a literal that gives a text by its code units has the character of each
unit that is no surrogate, and the escapes of the others as they are spelt. So it is the
text exactly if all characters of the text are of the first plane. -/
theorem value_of_unitEscapes {q : Char} (hq : isQuote q = true) {text : List Char}
    {escapes : List UnitEscape}
    (written : escapes.map UnitEscape.unit = text.flatMap codeUnits) :
    value (q :: (escapes.flatMap UnitEscape.spelling ++ [q])) =
        escapes.flatMap UnitEscape.reading ∧
      (value (q :: (escapes.flatMap UnitEscape.spelling ++ [q])) = text ↔
        ∀ c ∈ text, c.toNat < 0x10000) := by
  have hvalue : value (q :: (escapes.flatMap UnitEscape.spelling ++ [q])) =
      escapes.flatMap UnitEscape.reading := by
    rw [value_quoted hq, interpret_unitEscapes]
  refine ⟨hvalue, ?_⟩
  rw [hvalue]
  constructor
  · intro heq
    have hlength := length_reading written
    rw [heq] at hlength
    have hcount : text.countP (fun c => 0x10000 ≤ c.toNat) = 0 := by omega
    simpa using List.countP_eq_zero.mp hcount
  · intro hplane
    exact reading_eq_text hplane written

/-- A letter and the currency sign of four digits, one of them a capital. -/
def plainEscapes : List UnitEscape :=
  [⟨[.small 0, .small 0, .small 6, .small 1], by decide⟩,
    ⟨[.small 2, .small 0, .small 10, .capital 12], by decide⟩]

theorem value_of_plainEscapes :
    plainEscapes.map UnitEscape.unit = ['a', '€'].flatMap codeUnits ∧
      value ('\x22' :: (plainEscapes.flatMap UnitEscape.spelling ++ ['\x22'])) = ['a', '€'] :=
  ⟨by decide, (value_of_unitEscapes (by decide) (by decide)).2.mpr (by
    rw [List.forall_mem_cons, List.forall_mem_singleton]
    decide)⟩

/-- The two surrogates of a face. -/
def pairEscapes : List UnitEscape :=
  [⟨[.small 13, .small 8, .small 3, .small 13], by decide⟩,
    ⟨[.small 13, .small 14, .small 0, .small 0], by decide⟩]

/-- The escapes of a pair of surrogates keep their spelling. -/
theorem value_of_pairEscapes :
    pairEscapes.map UnitEscape.unit = ['😀'].flatMap codeUnits ∧
      value ('\x22' :: (pairEscapes.flatMap UnitEscape.spelling ++ ['\x22'])) =
        ['\\', 'u', 'd', '8', '3', 'd', '\\', 'u', 'd', 'e', '0', '0'] ∧
      value ('\x22' :: (pairEscapes.flatMap UnitEscape.spelling ++ ['\x22'])) ≠ ['😀'] := by
  have hvalue : value ('\x22' :: (pairEscapes.flatMap UnitEscape.spelling ++ ['\x22'])) =
      ['\\', 'u', 'd', '8', '3', 'd', '\\', 'u', 'd', 'e', '0', '0'] := by
    rw [value_quoted (by decide), interpret_unitEscapes]
    decide
  refine ⟨by decide, hvalue, ?_⟩
  rw [hvalue]
  decide

end ScriptOutline.StringLiteral
