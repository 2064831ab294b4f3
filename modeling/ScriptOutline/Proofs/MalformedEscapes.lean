import ScriptOutline.Proofs.LiteralTokens

/-!
# Malformed escapes

An escape of a code that is none keeps its spelling, with three exceptions: a plus sign is
taken for a part of the number, at the end of the literal fewer digits will do, and a
brace that is never closed is closed. Main statement: `value_of_malformed`.
-/

namespace ScriptOutline.StringLiteral

/-- A text that opens like the escape of a code, holds no other escape and does not begin
with the escape of a code. -/
structure Malformed (text : List Char) : Prop where
  opens : ['\\', 'x'] <+: text ∨ ['\\', 'u'] <+: text
  no_escape : '\\' ∉ text.tail
  no_code : ∀ e : CodeEscape, ¬ e.spelling <+: text

/-- What is read for a malformed escape that does not keep its spelling. -/
inductive Misread : List Char → List Char → Prop where
  /-- A plus sign stands where the first digit should. -/
  | signed {form : CodeForm} {code : List Char} {c : Char} (rest : List Char)
      (denotes : Denotes ('+' :: code) c) (admits : form.Admits (code.length + 1)) :
      Misread (form.opening ++ '+' :: code ++ form.closing ++ rest) (c :: rest)
  /-- The text ends before the digits are complete or the brace is closed. -/
  | cut {form : CodeForm} {code : List Char} {c : Char} (denotes : Denotes code c)
      (short : ∀ width ∈ form.width?, code.length < width) :
      Misread (form.opening ++ code) [c]
  /-- The text ends before the brace is closed, and there is no code behind the brace. -/
  | unclosed {text : List Char} (unclosed : '\x7d' ∉ text) (denotes : ∀ c, ¬ Denotes text c) :
      Misread (CodeForm.braced.opening ++ text)
        (CodeForm.braced.opening ++ text ++ CodeForm.braced.closing)

/-! ## Texts without escapes -/

theorem interpret_of_not_mem {text : List Char} (h : '\\' ∉ text) : interpret text = text := by
  induction text with
  | nil => exact interpret_nil
  | cons c rest ih =>
      obtain ⟨hc, hrest⟩ := not_or.mp (List.mem_cons.not.mp h)
      rw [interpret_plain rest (Ne.symm hc), ih hrest]

theorem not_mem_of_opening {form : CodeForm} {text rest : List Char}
    (h : '\\' ∉ (form.opening ++ text).tail) (hrest : rest ⊆ text) : '\\' ∉ rest := by
  intro hmem
  apply h
  cases form <;> simp [CodeForm.opening, hrest hmem]

theorem two_le_length_opening (form : CodeForm) : 2 ≤ form.opening.length := by
  cases form <;> decide

/-! ## Reading malformed escapes -/

theorem interpret_cut {form : CodeForm} {code : List Char} {c : Char} (h : Denotes code c)
    (short : ∀ width ∈ form.width?, code.length < width) :
    interpret (form.opening ++ code) = [c] := by
  have hchar := charOfHex?_eq_some_iff.mpr h
  cases hwidth : form.width? with
  | some width =>
      have hhead := h.head?_append_ne []
      rw [List.append_nil] at hhead
      have hlength : code.length ≤ width := Nat.le_of_lt (short width hwidth)
      simp [interpret_opening hwidth fun _ => hhead, readCode, List.take_of_length_le hlength,
        List.drop_of_length_le hlength, hchar]
  | none =>
      obtain rfl := CodeForm.eq_braced_of_width? hwidth
      rw [interpret_brace, readBraced_of_not_mem (h.not_mem (by decide) (by decide)), hchar]
      simp

theorem interpret_unclosed {text : List Char} (unclosed : '\x7d' ∉ text)
    (denotes : ∀ c, ¬ Denotes text c) :
    interpret (CodeForm.braced.opening ++ text) =
      CodeForm.braced.opening ++ text ++ CodeForm.braced.closing := by
  have hchar : charOfHex? text = none :=
    Option.eq_none_iff_forall_ne_some.mpr fun c h => denotes c (charOfHex?_eq_some_iff.mp h)
  rw [interpret_brace, readBraced_of_not_mem unclosed, hchar]
  simp [CodeForm.opening, CodeForm.closing]

theorem Misread.interpret_eq {text read : List Char} (h : Misread text read)
    (no_escape : '\\' ∉ text.tail) : interpret text = read := by
  cases h with
  | @signed form code c rest denotes admits =>
      have hrest : '\\' ∉ rest := by
        rw [List.append_assoc, List.append_assoc] at no_escape
        exact not_mem_of_opening no_escape fun d hd => by simp [hd]
      rw [interpret_denoted denotes admits.2, interpret_of_not_mem hrest]
  | cut denotes short => exact interpret_cut denotes short
  | unclosed unclosed denotes => exact interpret_unclosed unclosed denotes

/-- What is read for a misread escape is never its spelling. -/
theorem Misread.ne {text read : List Char} (h : Misread text read) : read ≠ text := by
  intro heq
  have hlength := congrArg List.length heq
  cases h with
  | @signed form code c rest denotes admits =>
      have hopening := two_le_length_opening form
      simp only [List.length_cons, List.length_append] at hlength
      omega
  | @cut form code c denotes short =>
      have hcode := List.length_pos_iff.mpr denotes.ne_nil
      have hopening := two_le_length_opening form
      simp only [List.length_cons, List.length_nil, List.length_append] at hlength
      omega
  | unclosed unclosed denotes => simp [CodeForm.closing] at hlength

/-! ## Malformed escapes keep their spelling or are misread -/

/-- A form that is filled with a code is the escape of the code, unless the code has a
sign. -/
theorem codeEscape_or_misread (form : CodeForm) {code : List Char} {c : Char}
    (h : Denotes code c) (fits : ∀ width ∈ form.width?, code.length = width)
    (rest : List Char) :
    (∃ e : CodeEscape, e.spelling <+: form.opening ++ code ++ form.closing ++ rest) ∨
      ∃ read, Misread (form.opening ++ code ++ form.closing ++ rest) read := by
  obtain ⟨sign, digits, hsign, hne, hcode, hc⟩ := id h
  obtain rfl | rfl := hsign
  · left
    have hadmits : form.Admits digits.length := by
      refine ⟨List.length_pos_iff.mpr hne, fun width hwidth => ?_⟩
      simpa [hcode] using fits width hwidth
    refine ⟨⟨form, digits, c, hadmits, hc⟩, rest, ?_⟩
    simp [CodeEscape.spelling, hcode]
  · right
    subst hcode
    exact ⟨_, .signed rest h ⟨Nat.succ_pos _, fits⟩⟩

theorem Malformed.kept_or_misread_of_width {form : CodeForm} {width : Nat}
    (hwidth : form.width? = some width) {rest : List Char}
    (hbrace : form = .four → rest.head? ≠ some '\x7b') (h : Malformed (form.opening ++ rest)) :
    interpret (form.opening ++ rest) = form.opening ++ rest ∨
      ∃ read, Misread (form.opening ++ rest) read := by
  have hfit (code : List Char) (hcode : code.length = width) :
      ∀ other ∈ form.width?, code.length = other := by
    simpa [hwidth] using hcode
  cases hchar : charOfHex? (rest.take width) with
  | none =>
      left
      have hrest := not_mem_of_opening h.no_escape (List.drop_subset width rest)
      rw [interpret_opening hwidth hbrace, interpret_of_not_mem hrest]
      simp [readCode, hchar]
  | some c =>
      have hdenotes := charOfHex?_eq_some_iff.mp hchar
      -- With enough characters the code has a sign, as the text would begin with an escape.
      by_cases hlength : rest.length < width
      · right
        rw [List.take_of_length_le (Nat.le_of_lt hlength)] at hdenotes
        exact ⟨_, .cut hdenotes (by simpa [hwidth] using hlength)⟩
      · have htake : (rest.take width).length = width := by
          rw [List.length_take]
          omega
        have hread := codeEscape_or_misread form hdenotes (hfit _ htake) (rest.drop width)
        rw [CodeForm.closing_of_width? hwidth, List.append_nil, List.append_assoc,
          List.take_append_drop] at hread
        exact .inr (hread.resolve_left (not_exists.mpr h.no_code))

theorem Malformed.kept_or_misread_of_brace {rest : List Char}
    (h : Malformed (CodeForm.braced.opening ++ rest)) :
    interpret (CodeForm.braced.opening ++ rest) = CodeForm.braced.opening ++ rest ∨
      ∃ read, Misread (CodeForm.braced.opening ++ rest) read := by
  by_cases hclosed : '\x7d' ∈ rest
  · obtain ⟨code, after, rfl, hcode⟩ := List.eq_append_cons_of_mem hclosed
    cases hchar : charOfHex? code with
    | none =>
        left
        have hafter : '\\' ∉ after := not_mem_of_opening h.no_escape (by simp)
        rw [interpret_brace, readBraced_append hcode, hchar, interpret_of_not_mem hafter]
        simp [CodeForm.opening]
    | some c =>
        right
        have hread := codeEscape_or_misread .braced
          (charOfHex?_eq_some_iff.mp hchar) (by simp [CodeForm.width?]) after
        rw [CodeForm.closing, List.append_assoc, List.append_assoc,
          List.singleton_append] at hread
        exact hread.resolve_left (not_exists.mpr h.no_code)
  · right
    by_cases hdenotes : ∃ c, Denotes rest c
    · obtain ⟨c, hc⟩ := hdenotes
      exact ⟨_, .cut hc (by simp [CodeForm.width?])⟩
    · exact ⟨_, .unclosed hclosed (not_exists.mp hdenotes)⟩

theorem Malformed.kept_or_misread {text : List Char} (h : Malformed text) :
    interpret text = text ∨ ∃ read, Misread text read := by
  obtain ⟨rest, rfl⟩ | ⟨rest, rfl⟩ := h.opens
  · have hwidth : CodeForm.two.width? = some 2 := rfl
    exact h.kept_or_misread_of_width hwidth fun hform => by cases hform
  · by_cases hbrace : rest.head? = some '\x7b'
    · obtain ⟨after, rfl⟩ := List.head?_eq_some_iff.mp hbrace
      exact h.kept_or_misread_of_brace
    · have hwidth : CodeForm.four.width? = some 4 := rfl
      exact h.kept_or_misread_of_width hwidth fun _ => hbrace

/-! ## Literals -/

theorem Malformed.head?_eq {text : List Char} (h : Malformed text) :
    ∀ c ∈ text.head?, c = '\\' := by
  obtain ⟨rest, rfl⟩ | ⟨rest, rfl⟩ := h.opens <;> simp

/-- A malformed escape behind any tokens keeps its spelling exactly if it is none of those
that are misread, and one of those is read as told. -/
theorem value_of_malformed {q : Char} (hq : isQuote q = true) {tokens : List Token}
    (separated : Separated tokens) {text : List Char} (malformed : Malformed text) :
    (value (q :: (spellingOf tokens ++ text ++ [q])) = valueOf tokens ++ text ↔
        ¬ ∃ read, Misread text read) ∧
      ∀ read, Misread text read →
        value (q :: (spellingOf tokens ++ text ++ [q])) = valueOf tokens ++ read := by
  have hvalue : value (q :: (spellingOf tokens ++ text ++ [q])) =
      valueOf tokens ++ interpret text := by
    rw [value_quoted hq, interpret_spellingOf_append separated malformed.head?_eq]
  have hmisread : ∀ read, Misread text read → interpret text = read :=
    fun read hread => hread.interpret_eq malformed.no_escape
  rw [hvalue]
  refine ⟨?_, fun read hread => by rw [hmisread read hread]⟩
  rw [List.append_cancel_left_eq]
  constructor
  · intro hkept ⟨read, hread⟩
    exact hread.ne ((hmisread read hread).symm.trans hkept)
  · exact malformed.kept_or_misread.resolve_right

theorem CodeEscape.exists_digit {e : CodeEscape} {text : List Char} (h : e.spelling <+: text) :
    ∃ d : HexDigit, ∃ rest, text = e.form.opening ++ d.char :: rest := by
  obtain ⟨d, others, hdigits⟩ := List.exists_cons_of_ne_nil e.digits_ne_nil
  obtain ⟨rest, rfl⟩ := h
  exact ⟨d, others.map HexDigit.char ++ e.form.closing ++ rest, by
    simp [CodeEscape.spelling, hdigits]⟩

/-- An escape is malformed if no digit follows where its code would begin. -/
theorem Malformed.of_head {text : List Char}
    (opens : ['\\', 'x'] <+: text ∨ ['\\', 'u'] <+: text) (no_escape : '\\' ∉ text.tail)
    (hhead : ∀ form ∈ [CodeForm.two, .four, .braced], form.opening <+: text →
      (text.drop form.opening.length).head?.bind Text.hexDigit? = none) :
    Malformed text := by
  refine ⟨opens, no_escape, fun e he => ?_⟩
  obtain ⟨d, rest, rfl⟩ := CodeEscape.exists_digit he
  have hform : e.form ∈ [CodeForm.two, .four, .braced] := by cases e.form <;> decide
  have hdigit := hhead e.form hform (List.prefix_append _ _)
  rw [List.drop_left, List.head?_cons, Option.bind_some] at hdigit
  exact HexDigit.char_ne hdigit d rfl

def lettersEscape : List Char := ['\\', 'x', 'Z', 'Z']

theorem malformed_lettersEscape : Malformed lettersEscape :=
  .of_head (by decide) (by decide) (by decide)

theorem interpret_lettersEscape : interpret lettersEscape = lettersEscape := by
  have hchar : charOfHex? ['Z', 'Z'] = none := by decide
  rw [lettersEscape, interpret_backslash, readEscape_x]
  simp [readCode, hchar]

theorem not_misread_lettersEscape : ¬ ∃ read, Misread lettersEscape read := by
  intro ⟨read, hread⟩
  have heq := hread.interpret_eq malformed_lettersEscape.no_escape
  exact hread.ne (heq.symm.trans interpret_lettersEscape)

theorem separated_plain : Separated [.plain 'a' (by decide)] := by decide

theorem value_of_lettersEscape :
    Separated [.plain 'a' (by decide)] ∧ Malformed lettersEscape ∧
      value ('\x22' :: (['a'] ++ lettersEscape ++ ['\x22'])) = ['a'] ++ lettersEscape :=
  ⟨separated_plain, malformed_lettersEscape,
    (value_of_malformed (q := '\x22') (by decide) separated_plain
      malformed_lettersEscape).1.mpr not_misread_lettersEscape⟩

/-- A brace that is never closed, behind which there is no code. -/
def unclosedEscape : List Char := ['\\', 'u', '\x7b', 'z', 'z']

/-- This escape does not keep its spelling: it gets a closing brace. -/
theorem value_of_unclosedEscape :
    Malformed unclosedEscape ∧
      value ('\x22' :: (unclosedEscape ++ ['\x22'])) = unclosedEscape ++ ['\x7d'] ∧
      value ('\x22' :: (unclosedEscape ++ ['\x22'])) ≠ unclosedEscape := by
  have hchar : charOfHex? ['z', 'z'] = none := by decide
  have hdenotes (c : Char) : ¬ Denotes ['z', 'z'] c := by
    rw [← charOfHex?_eq_some_iff, hchar]
    simp
  have hvalue : value ('\x22' :: (unclosedEscape ++ ['\x22'])) = unclosedEscape ++ ['\x7d'] := by
    rw [value_quoted (by decide)]
    exact interpret_unclosed (by decide) hdenotes
  refine ⟨.of_head (by decide) (by decide) (by decide), hvalue, ?_⟩
  rw [hvalue]
  decide

end ScriptOutline.StringLiteral
