import ScriptOutline.Proofs.CodeEscapes

/-!
# Tokens of string literals

A string literal holds plain characters and escapes, one after the other. Its value is
that of its tokens, as long as no token runs into the next: the escape of the null
character must not stand before a digit, nor an escaped carriage return before a line
feed. Main statement: `value_of_tokens`.
-/

namespace ScriptOutline.StringLiteral

inductive Control where
  | lineFeed | tab | carriageReturn | backspace | formFeed | verticalTab
deriving DecidableEq, Repr

namespace Control

def letter : Control → Char
  | lineFeed => 'n'
  | tab => 't'
  | carriageReturn => 'r'
  | backspace => 'b'
  | formFeed => 'f'
  | verticalTab => 'v'

def char : Control → Char
  | lineFeed => '\n'
  | tab => '\t'
  | carriageReturn => '\r'
  | backspace => '\x08'
  | formFeed => '\x0c'
  | verticalTab => '\x0b'

end Control

/-- The line ends that a backslash takes out of a literal. -/
inductive LineEnd where
  | lineFeed | carriageReturn | both
deriving DecidableEq, Repr

def LineEnd.chars : LineEnd → List Char
  | lineFeed => ['\n']
  | carriageReturn => ['\r']
  | both => ['\r', '\n']

/-- The characters that do not stand for themselves behind a backslash. -/
def meaningful : List Char := ['n', 't', 'r', 'b', 'f', 'v', '0', 'x', 'u', '\n', '\r']

inductive Token where
  | plain (c : Char) (h : c ≠ '\\')
  | control (k : Control)
  | null
  | continuation (e : LineEnd)
  | code (e : CodeEscape)
  | itself (c : Char) (h : c ∉ meaningful)

namespace Token

def spelling : Token → List Char
  | plain c _ => [c]
  | control k => ['\\', k.letter]
  | null => ['\\', '0']
  | continuation e => '\\' :: e.chars
  | code e => e.spelling
  | itself c _ => ['\\', c]

def value : Token → List Char
  | plain c _ => [c]
  | control k => [k.char]
  | null => ['\x00']
  | continuation _ => []
  | code e => [e.char]
  | itself c _ => [c]

/-- Whether a token is still the same token with this text behind it. -/
def MayPrecede (rest : List Char) : Token → Prop
  | null => rest.head?.any Char.isDigit = false
  | continuation .carriageReturn => rest.head? ≠ some '\n'
  | _ => True

instance (rest : List Char) : (t : Token) → Decidable (t.MayPrecede rest)
  | null => inferInstanceAs (Decidable (rest.head?.any Char.isDigit = false))
  | continuation .carriageReturn => inferInstanceAs (Decidable (rest.head? ≠ some '\n'))
  | continuation .lineFeed | continuation .both => inferInstanceAs (Decidable True)
  | plain _ _ | control _ | code _ | itself _ _ => inferInstanceAs (Decidable True)

end Token

def spellingOf (tokens : List Token) : List Char := tokens.flatMap Token.spelling

def valueOf (tokens : List Token) : List Char := tokens.flatMap Token.value

def Separated : List Token → Prop
  | [] => True
  | t :: rest => t.MayPrecede (spellingOf rest) ∧ Separated rest

instance decidableSeparated : (tokens : List Token) → Decidable (Separated tokens)
  | [] => inferInstanceAs (Decidable True)
  | t :: rest =>
      have : Decidable (Separated rest) := decidableSeparated rest
      inferInstanceAs (Decidable (t.MayPrecede (spellingOf rest) ∧ Separated rest))

/-- A text with a backslash before each backslash and each quote. -/
def protect (q : Char) (text : List Char) : List Char :=
  text.flatMap fun c => if c = '\\' ∨ c = q then ['\\', c] else [c]

/-! ## Reading escapes -/

theorem readEscape_letter (k : Control) (rest : List Char) :
    readEscape (k.letter :: rest) = ([k.char], rest) := by
  cases k <;> simp [readEscape, controlChar?, Control.letter, Control.char]

theorem readEscape_zero {rest : List Char} (h : rest.head?.any Char.isDigit = false) :
    readEscape ('0' :: rest) = (['\x00'], rest) := by
  have hdigit : startsWithDigit rest = false := by
    cases rest with
    | nil => rfl
    | cons c others => simpa [startsWithDigit] using h
  simp [readEscape, controlChar?, hdigit]

theorem readEscape_lineFeed (rest : List Char) : readEscape ('\n' :: rest) = ([], rest) := by
  simp [readEscape, controlChar?]

theorem readEscape_carriageReturn {rest : List Char} (h : rest.head? ≠ some '\n') :
    readEscape ('\r' :: rest) = ([], rest) := by
  simp [readEscape, controlChar?, h]

theorem readEscape_both (rest : List Char) :
    readEscape ('\r' :: '\n' :: rest) = ([], rest) := by
  simp [readEscape, controlChar?]

theorem readEscape_itself {c : Char} (h : c ∉ meaningful) (rest : List Char) :
    readEscape (c :: rest) = ([c], rest) := by
  simp only [meaningful, List.mem_cons, List.not_mem_nil, or_false, not_or] at h
  have hcontrol : controlChar? c = none := by
    unfold controlChar?
    split <;> simp_all
  simp [readEscape, hcontrol, h]

/-! ## Tokens one after the other -/

/-- A token stands for its value, whatever it may stand before. -/
theorem interpret_token_append (t : Token) {rest : List Char} (h : t.MayPrecede rest) :
    interpret (t.spelling ++ rest) = t.value ++ interpret rest := by
  cases t with
  | plain c hc => exact interpret_plain rest hc
  | control k => simp [Token.spelling, Token.value, interpret_backslash, readEscape_letter]
  | null => simp [Token.spelling, Token.value, interpret_backslash, readEscape_zero h]
  | continuation e =>
      cases e with
      | lineFeed =>
          simp [Token.spelling, Token.value, LineEnd.chars, interpret_backslash,
            readEscape_lineFeed]
      | carriageReturn =>
          simp [Token.spelling, Token.value, LineEnd.chars, interpret_backslash,
            readEscape_carriageReturn h]
      | both =>
          simp [Token.spelling, Token.value, LineEnd.chars, interpret_backslash,
            readEscape_both]
  | code e => exact interpret_codeEscape e rest
  | itself c hc =>
      simp [Token.spelling, Token.value, interpret_backslash, readEscape_itself hc]

/-- A further escape behind the text that follows a token changes nothing for it. -/
theorem Token.MayPrecede.append {t : Token} {text rest : List Char} (h : t.MayPrecede text)
    (hrest : ∀ c ∈ rest.head?, c = '\\') : t.MayPrecede (text ++ rest) := by
  cases text with
  | cons c others => cases t <;> exact h
  | nil =>
      cases rest with
      | nil => exact h
      | cons c others =>
          obtain rfl := hrest c rfl
          cases t with
          | null => rfl
          | continuation e => cases e <;> simp [MayPrecede]
          | plain | control | code | itself => trivial

theorem interpret_spellingOf_append {tokens : List Token} (h : Separated tokens)
    {rest : List Char} (hrest : ∀ c ∈ rest.head?, c = '\\') :
    interpret (spellingOf tokens ++ rest) = valueOf tokens ++ interpret rest := by
  induction tokens with
  | nil => rfl
  | cons t others ih =>
      calc interpret (spellingOf (t :: others) ++ rest)
          = interpret (t.spelling ++ (spellingOf others ++ rest)) := by simp [spellingOf]
        _ = t.value ++ interpret (spellingOf others ++ rest) :=
            interpret_token_append t (h.1.append hrest)
        _ = valueOf (t :: others) ++ interpret rest := by simp [ih h.2, valueOf]

theorem protect_cons (q c : Char) (rest : List Char) :
    protect q (c :: rest) =
      (if c = '\\' ∨ c = q then ['\\', c] else [c]) ++ protect q rest := by
  simp [protect]

theorem interpret_protect {q : Char} (hq : isQuote q = true) (text : List Char) :
    interpret (protect q text) = text := by
  induction text with
  | nil => exact interpret_nil
  | cons c rest ih =>
      rw [protect_cons]
      by_cases hc : c = '\\' ∨ c = q
      · have hmeaning : c ∉ meaningful := by
          simp only [isQuote, Bool.or_eq_true, beq_iff_eq] at hq
          rcases hc with rfl | rfl
          · decide
          · rcases hq with (rfl | rfl) | rfl <;> decide
        have hmay : Token.MayPrecede (protect q rest) (.itself c hmeaning) := trivial
        have hread := interpret_token_append _ hmay
        rw [ih] at hread
        rw [if_pos hc]
        exact hread
      · have hplain : c ≠ '\\' := fun h => hc (.inl h)
        have hread := interpret_plain (protect q rest) hplain
        rw [ih] at hread
        rw [if_neg hc]
        exact hread

/-! ## Literals -/

theorem unquote_quoted {q : Char} (hq : isQuote q = true) (body : List Char) :
    unquote (q :: (body ++ [q])) = body := by
  simp [unquote, hq]

theorem value_quoted {q : Char} (hq : isQuote q = true) (body : List Char) :
    value (q :: (body ++ [q])) = interpret body := by
  rw [value, unquote_quoted hq]

/-- The value of a literal is that of its tokens. In particular every text is the value of
the literal that has a backslash before each backslash and each quote in it. -/
theorem value_of_tokens {q : Char} (hq : isQuote q = true) (tokens : List Token)
    (separated : Separated tokens) :
    value (q :: (spellingOf tokens ++ [q])) = valueOf tokens ∧
      ∀ text, value (q :: (protect q text ++ [q])) = text := by
  refine ⟨?_, fun text => (value_quoted hq _).trans (interpret_protect hq text)⟩
  have hend : ∀ c ∈ ([] : List Char).head?, c = '\\' := by simp
  have hread := interpret_spellingOf_append separated hend
  rw [value_quoted hq]
  simpa using hread

/-- A null character before a letter, an escaped carriage return before another escape, and
a character beyond the first plane with zeros before its number. -/
def sampleTokens : List Token :=
  [.null, .plain 'x' (by decide), .control .tab, .continuation .carriageReturn,
    .code ⟨.two, [.small 4, .small 1], 'A', by decide, rfl⟩,
    .code ⟨.four, [.small 2, .small 0, .capital 10, .small 12], '€', by decide, rfl⟩,
    .code ⟨.braced, [.small 0, .small 0, .small 1, .small 15, .small 6, .small 0,
      .small 0], '😀', by decide, rfl⟩,
    .continuation .both, .itself '\\' (by decide)]

theorem value_of_sampleTokens :
    Separated sampleTokens ∧
      value ('\x22' :: (spellingOf sampleTokens ++ ['\x22'])) =
        ['\x00', 'x', '\t', 'A', '€', '😀', '\\'] :=
  ⟨by decide, (value_of_tokens (by decide) sampleTokens (by decide)).1⟩

end ScriptOutline.StringLiteral
