import Mathlib.Data.List.TakeWhile
import Mathlib.Data.Nat.Digits.Defs
import ScriptOutline.StringLiteral

/-!
# Characters given by number

Hexadecimal digits as data, the number that they write, and the escapes of string
literals that give a character by its number. Main statements: `charOfHex?_eq_some_iff`
says for which texts there is a character, and `interpret_codeEscape` that each escape
stands for its character, whatever follows it.
-/

namespace ScriptOutline

/-- A hexadecimal digit. Those beyond nine are letters of either case. -/
structure HexDigit where
  value : Fin 16
  isCapital : Bool
deriving DecidableEq, Repr

namespace HexDigit

/-- The digit for a number below sixteen, written with a small letter beyond nine. -/
def small (n : Nat) : HexDigit := ⟨Fin.ofNat 16 n, false⟩

/-- The digit for a number below sixteen, written with a capital beyond nine. -/
def capital (n : Nat) : HexDigit := ⟨Fin.ofNat 16 n, true⟩

def char (d : HexDigit) : Char :=
  if d.isCapital then (Nat.digitChar d.value).toUpper else Nat.digitChar d.value

def number (digits : List HexDigit) : Nat :=
  Nat.ofDigits 16 (digits.reverse.map fun d => d.value.val)

theorem hexDigit?_char (d : HexDigit) : Text.hexDigit? d.char = some d.value.val := by
  obtain ⟨value, isCapital⟩ := d
  revert value isCapital
  decide

theorem char_ne {c : Char} (h : Text.hexDigit? c = none) (d : HexDigit) : d.char ≠ c := by
  rintro rfl
  rw [d.hexDigit?_char] at h
  cases h

theorem toNat_lt_of_hexDigit? {c : Char} {n : Nat} (h : Text.hexDigit? c = some n) :
    c.toNat < 128 := by
  have hf : 'f'.val.toNat = 102 := rfl
  have hF : 'F'.val.toNat = 70 := rfl
  have h9 : '9'.val.toNat = 57 := rfl
  have hc : c.toNat = c.val.toNat := rfl
  simp only [Text.hexDigit?, Char.le_def, UInt32.le_iff_toNat_le] at h
  split at h
  · omega
  · split at h
    · omega
    · split at h
      · omega
      · cases h

/-- The characters read as digits are those of digits. -/
theorem hexDigit?_eq_some_iff {c : Char} {n : Nat} :
    Text.hexDigit? c = some n ↔ ∃ d : HexDigit, d.char = c ∧ d.value.val = n := by
  constructor
  · intro h
    have hall : ∀ k : Fin 128, ∀ n ∈ Text.hexDigit? (Char.ofNat k), ∃ value : Fin 16,
        ∃ isCapital, (HexDigit.mk value isCapital).char = Char.ofNat k ∧ value.val = n := by
      decide
    have hc := hall ⟨c.toNat, toNat_lt_of_hexDigit? h⟩ n (by simpa using h)
    simp only [Char.ofNat_toNat] at hc
    obtain ⟨value, isCapital, hchar, hvalue⟩ := hc
    exact ⟨⟨value, isCapital⟩, hchar, hvalue⟩
  · rintro ⟨d, rfl, rfl⟩
    exact d.hexDigit?_char

theorem mapM_hexDigit?_eq_some_iff {text : List Char} {values : List Nat} :
    text.mapM Text.hexDigit? = some values ↔ ∃ digits : List HexDigit,
      digits.map char = text ∧ digits.map (fun d => d.value.val) = values := by
  induction text generalizing values with
  | nil => simp [eq_comm]
  | cons c rest ih =>
      rw [List.mapM_cons]
      simp only [Option.bind_eq_bind, Option.bind_eq_some_iff, Option.pure_def, Option.some_inj,
        hexDigit?_eq_some_iff, ih]
      constructor
      · rintro ⟨_, ⟨d, rfl, rfl⟩, _, ⟨digits, rfl, rfl⟩, rfl⟩
        exact ⟨d :: digits, rfl, rfl⟩
      · rintro ⟨digits, hchars, rfl⟩
        obtain ⟨d, others, rfl, rfl, rfl⟩ := List.map_eq_cons_iff.mp hchars
        exact ⟨_, ⟨d, rfl, rfl⟩, _, ⟨others, rfl, rfl⟩, rfl⟩

theorem foldl_digits_eq (values : List Nat) :
    values.foldl (fun total d => 16 * total + d) 0 = Nat.ofDigits 16 values.reverse := by
  rw [Nat.ofDigits_eq_foldr, List.foldr_reverse]
  simp [Nat.add_comm]

theorem hexValue?_eq_some_iff {text : List Char} {n : Nat} :
    Text.hexValue? text = some n ↔
      ∃ digits : List HexDigit, digits.map char = text ∧ number digits = n := by
  simp only [Text.hexValue?, Option.map_eq_some_iff, mapM_hexDigit?_eq_some_iff, foldl_digits_eq]
  constructor
  · rintro ⟨_, ⟨digits, hchars, rfl⟩, rfl⟩
    exact ⟨digits, hchars, by rw [number, List.map_reverse]⟩
  · rintro ⟨digits, hchars, rfl⟩
    exact ⟨_, ⟨digits, hchars, rfl⟩, by rw [number, List.map_reverse]⟩

end HexDigit

namespace StringLiteral

/-! ## Characters of codes -/

theorem charOfCode?_eq_some_iff {n : Nat} {c : Char} :
    charOfCode? n = some c ↔ c.toNat = n := by
  rw [charOfCode?]
  constructor
  · intro h
    by_cases hvalid : n.isValidChar
    · rw [dif_pos hvalid] at h
      cases h
      rfl
    · rw [dif_neg hvalid] at h
      cases h
  · rintro rfl
    have hvalid : c.toNat.isValidChar := c.valid
    rw [dif_pos hvalid]
    rfl

/-- The signs that may stand before the digits of a code. -/
def IsSign (text : List Char) : Prop := text = [] ∨ text = ['+']

theorem dropSign_append_digits {sign : List Char} (hsign : IsSign sign)
    (digits : List HexDigit) :
    dropSign (sign ++ digits.map HexDigit.char) = digits.map HexDigit.char := by
  obtain rfl | rfl := hsign
  · cases digits with
    | nil => rfl
    | cons d rest =>
        simp only [List.nil_append, List.map_cons]
        rw [dropSign]
        exact fun digits h => HexDigit.char_ne (by decide) d (List.cons.inj h).1
  · rfl

theorem exists_sign (text : List Char) : ∃ sign, IsSign sign ∧ text = sign ++ dropSign text := by
  unfold dropSign
  split
  · exact ⟨['+'], .inr rfl, rfl⟩
  · exact ⟨[], .inl rfl, rfl⟩

theorem charOfHex?_sign_digits {sign : List Char} (hsign : IsSign sign) {digits : List HexDigit}
    (hne : digits ≠ []) :
    charOfHex? (sign ++ digits.map HexDigit.char) = charOfCode? (HexDigit.number digits) := by
  have hvalue := HexDigit.hexValue?_eq_some_iff.mpr ⟨digits, rfl, rfl⟩
  rw [charOfHex?, dropSign_append_digits hsign, if_neg (by simpa using hne), hvalue,
    Option.bind_some]

/-- A text that consists of the digits of a character's number, with or without a sign. -/
def Denotes (text : List Char) (c : Char) : Prop :=
  ∃ sign digits, IsSign sign ∧ digits ≠ [] ∧ text = sign ++ digits.map HexDigit.char ∧
    c.toNat = HexDigit.number digits

theorem charOfHex?_eq_some_iff {text : List Char} {c : Char} :
    charOfHex? text = some c ↔ Denotes text c := by
  constructor
  · intro h
    rw [charOfHex?, Option.ite_none_left_eq_some, List.isEmpty_iff] at h
    obtain ⟨hne, n, hn, hc⟩ := h.imp_right Option.bind_eq_some_iff.mp
    obtain ⟨digits, hchars, rfl⟩ := HexDigit.hexValue?_eq_some_iff.mp hn
    obtain ⟨sign, hsign, htext⟩ := exists_sign text
    refine ⟨sign, digits, hsign, ?_, ?_, charOfCode?_eq_some_iff.mp hc⟩
    · rintro rfl
      exact hne hchars.symm
    · rw [hchars]
      exact htext
  · rintro ⟨sign, digits, hsign, hne, rfl, hc⟩
    rw [charOfHex?_sign_digits hsign hne, charOfCode?_eq_some_iff]
    exact hc

theorem denotes_digits {digits : List HexDigit} {c : Char} (hne : digits ≠ [])
    (hc : c.toNat = HexDigit.number digits) : Denotes (digits.map HexDigit.char) c :=
  ⟨[], digits, .inl rfl, hne, rfl, hc⟩

namespace Denotes

variable {code : List Char} {c d : Char}

theorem ne_nil (h : Denotes code c) : code ≠ [] := by
  obtain ⟨sign, digits, -, hne, rfl, -⟩ := h
  simp [hne]

theorem not_mem (h : Denotes code c) (hd : Text.hexDigit? d = none) (hplus : d ≠ '+') :
    d ∉ code := by
  obtain ⟨sign, digits, hsign, -, rfl, -⟩ := h
  obtain rfl | rfl := hsign <;> simp [hplus, HexDigit.char_ne hd]

theorem head?_append_ne (h : Denotes code c) (rest : List Char) :
    (code ++ rest).head? ≠ some '\x7b' := by
  have hbrace := h.not_mem (d := '\x7b') (by decide) (by decide)
  obtain ⟨first, others, rfl⟩ := List.exists_cons_of_ne_nil h.ne_nil
  intro hhead
  cases hhead
  exact hbrace List.mem_cons_self

end Denotes

/-! ## Reading codes -/

theorem readEscape_x (rest : List Char) :
    readEscape ('x' :: rest) = readCode ['\\', 'x'] 2 rest := by
  simp [readEscape, controlChar?]

theorem readEscape_u {rest : List Char} (h : rest.head? ≠ some '\x7b') :
    readEscape ('u' :: rest) = readCode ['\\', 'u'] 4 rest := by
  simp [readEscape, controlChar?, h]

theorem readEscape_u_brace (rest : List Char) :
    readEscape ('u' :: '\x7b' :: rest) = readBraced rest := by
  simp [readEscape, controlChar?]

theorem readCode_append {lead code : List Char} {c : Char} (h : charOfHex? code = some c)
    (rest : List Char) : readCode lead code.length (code ++ rest) = ([c], rest) := by
  simp [readCode, h]

theorem forall_bne_of_not_mem {d : Char} {text : List Char} (h : d ∉ text) :
    ∀ c ∈ text, (c != d) = true := by
  intro c hc
  simpa using fun heq : c = d => h (heq ▸ hc)

theorem readBraced_append {code : List Char} (h : '\x7d' ∉ code) (rest : List Char) :
    readBraced (code ++ '\x7d' :: rest) =
      (((charOfHex? code).map fun c => [c]).getD
        (['\\', 'u', '\x7b'] ++ code ++ ['\x7d']), rest) := by
  have hcode := forall_bne_of_not_mem h
  simp [readBraced, List.takeWhile_append_of_pos hcode, List.dropWhile_append_of_pos hcode]

theorem readBraced_of_not_mem {text : List Char} (h : '\x7d' ∉ text) :
    readBraced text =
      (((charOfHex? text).map fun c => [c]).getD
        (['\\', 'u', '\x7b'] ++ text ++ ['\x7d']), []) := by
  have htext := forall_bne_of_not_mem h
  rw [readBraced, List.takeWhile_eq_self_iff.mpr htext, List.dropWhile_eq_nil_iff.mpr htext]
  rfl

/-! ## Escapes of codes -/

/-- The ways to give a character by its number: two digits, four digits, or any number of
digits in braces. -/
inductive CodeForm where
  | two | four | braced
deriving DecidableEq, Repr

namespace CodeForm

def opening : CodeForm → List Char
  | two => ['\\', 'x']
  | four => ['\\', 'u']
  | braced => ['\\', 'u', '\x7b']

def closing : CodeForm → List Char
  | braced => ['\x7d']
  | two | four => []

def width? : CodeForm → Option Nat
  | two => some 2
  | four => some 4
  | braced => none

def Admits (form : CodeForm) (count : Nat) : Prop :=
  0 < count ∧ ∀ width ∈ form.width?, count = width

instance (form : CodeForm) (count : Nat) : Decidable (form.Admits count) :=
  inferInstanceAs (Decidable (0 < count ∧ ∀ width ∈ form.width?, count = width))

theorem closing_of_width? {form : CodeForm} {width : Nat} (h : form.width? = some width) :
    form.closing = [] := by
  cases form with
  | two | four => rfl
  | braced => cases h

theorem eq_braced_of_width? {form : CodeForm} (h : form.width? = none) : form = .braced := by
  cases form with
  | two | four => cases h
  | braced => rfl

end CodeForm

/-- An escape that gives a character by its number. Surrogates are no characters, so none
of them has such an escape. -/
structure CodeEscape where
  form : CodeForm
  digits : List HexDigit
  char : Char
  admits : form.Admits digits.length
  denotes : char.toNat = HexDigit.number digits

namespace CodeEscape

def spelling (e : CodeEscape) : List Char :=
  e.form.opening ++ e.digits.map HexDigit.char ++ e.form.closing

theorem digits_ne_nil (e : CodeEscape) : e.digits ≠ [] :=
  List.ne_nil_of_length_pos e.admits.1

theorem denotes_digits (e : CodeEscape) : Denotes (e.digits.map HexDigit.char) e.char :=
  StringLiteral.denotes_digits e.digits_ne_nil e.denotes

end CodeEscape

/-- A form with a number of digits takes so many characters, or all there are. -/
theorem interpret_opening {form : CodeForm} {width : Nat} (hwidth : form.width? = some width)
    {rest : List Char} (hbrace : form = .four → rest.head? ≠ some '\x7b') :
    interpret (form.opening ++ rest) =
      (readCode form.opening width rest).1 ++ interpret (rest.drop width) := by
  cases form with
  | two =>
      cases hwidth
      show interpret ('\\' :: 'x' :: rest) = _
      rw [interpret_backslash, readEscape_x]
      rfl
  | four =>
      cases hwidth
      show interpret ('\\' :: 'u' :: rest) = _
      rw [interpret_backslash, readEscape_u (hbrace rfl)]
      rfl
  | braced => cases hwidth

theorem interpret_brace (rest : List Char) :
    interpret (CodeForm.braced.opening ++ rest) =
      (readBraced rest).1 ++ interpret (readBraced rest).2 := by
  show interpret ('\\' :: 'u' :: '\x7b' :: rest) = _
  rw [interpret_backslash, readEscape_u_brace]

/-- A form that is filled with a code stands for its character, and reading goes on behind
it. -/
theorem interpret_denoted {form : CodeForm} {code : List Char} {c : Char}
    (h : Denotes code c) (fits : ∀ width ∈ form.width?, code.length = width)
    (rest : List Char) :
    interpret (form.opening ++ code ++ form.closing ++ rest) = c :: interpret rest := by
  have hchar := charOfHex?_eq_some_iff.mpr h
  rw [List.append_assoc, List.append_assoc]
  cases hwidth : form.width? with
  | some width =>
      have hlength : code.length = width := fits width hwidth
      rw [CodeForm.closing_of_width? hwidth, List.nil_append,
        interpret_opening hwidth fun _ => h.head?_append_ne rest, ← hlength,
        readCode_append hchar, List.drop_left]
      rfl
  | none =>
      obtain rfl := CodeForm.eq_braced_of_width? hwidth
      have hread := readBraced_append (h.not_mem (by decide) (by decide)) rest
      rw [hchar] at hread
      rw [interpret_brace, CodeForm.closing, List.singleton_append, hread]
      rfl

theorem interpret_codeEscape (e : CodeEscape) (rest : List Char) :
    interpret (e.spelling ++ rest) = e.char :: interpret rest := by
  refine interpret_denoted e.denotes_digits (fun width hwidth => ?_) rest
  rw [List.length_map]
  exact e.admits.2 width hwidth

end StringLiteral

end ScriptOutline
