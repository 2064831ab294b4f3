import Mathlib.Data.List.Chain
import ScriptOutline.Text.Compact

/-!
# The form of compacted texts

A compacted text is one line with single spaces between its words. It depends on the
maximal runs of characters that are not blank and on nothing else, and compacting it once
more changes nothing. Main statement: `compact_normal_form`.
-/

namespace ScriptOutline.Text

/-- Spaces are the only blank characters, none stands in front, and no two are
neighbours. -/
structure OneLine (text : List Char) : Prop where
  only_spaces : ∀ c ∈ text, isBlank c = true → c = ' '
  start : text.head? ≠ some ' '
  apart : text.IsChain fun c d => ¬ (c = ' ' ∧ d = ' ')

/-- One line that does not end with a space either. -/
structure Tidy (text : List Char) : Prop extends OneLine text where
  stop : text.getLast? ≠ some ' '

structure IsWord (word : List Char) : Prop where
  nonempty : word ≠ []
  solid : ∀ c ∈ word, isBlank c = false

/-- A text cut into its maximal runs of characters that are not blank. -/
inductive Runs : List Char → List (List Char) → Prop where
  | none {gap : List Char} (blank : ∀ c ∈ gap, isBlank c = true) : Runs gap []
  | run {gap word rest : List Char} {others : List (List Char)}
      (blank : ∀ c ∈ gap, isBlank c = true) (isWord : IsWord word)
      (ends : ∀ c ∈ rest.head?, isBlank c = true) (further : Runs rest others) :
      Runs (gap ++ word ++ rest) (word :: others)

def spaced (runs : List (List Char)) : List Char := [' '].intercalate runs

def solidPart (text : List Char) : List Char := text.filter fun c => !isBlank c

/-! ## Words and runs -/

theorem words_append_of_blank {gap : List Char} (h : ∀ c ∈ gap, isBlank c = true)
    (rest : List Char) : words (gap ++ rest) = words rest := by
  induction gap with
  | nil => rfl
  | cons c others ih =>
      obtain ⟨hc, hothers⟩ := List.forall_mem_cons.mp h
      rw [List.cons_append, words_cons_of_blank _ hc, ih hothers]

theorem words_append_of_isWord {word rest : List Char} (hword : IsWord word)
    (hrest : ∀ c ∈ rest.head?, isBlank c = true) :
    words (word ++ rest) = word :: words rest := by
  obtain ⟨c, others, rfl⟩ := List.exists_cons_of_ne_nil hword.nonempty
  obtain ⟨hc, hothers⟩ := List.forall_mem_cons.mp hword.solid
  have hsolid : ∀ d ∈ others, (!isBlank d) = true := fun d hd => by simp [hothers d hd]
  have htake : rest.takeWhile (fun d => !isBlank d) = [] := by
    cases rest with
    | nil => rfl
    | cons d _ => simp [hrest d rfl]
  have hdrop : rest.dropWhile (fun d => !isBlank d) = rest := by
    cases rest with
    | nil => rfl
    | cons d _ => simp [hrest d rfl]
  rw [List.cons_append, words_cons_of_not_blank _ hc, List.takeWhile_append_of_pos hsolid,
    List.dropWhile_append_of_pos hsolid, htake, hdrop, List.append_nil]

theorem Runs.words_eq {text : List Char} {runs : List (List Char)} (h : Runs text runs) :
    words text = runs := by
  induction h with
  | @none gap blank => simpa using words_append_of_blank blank []
  | run blank isWord ends further ih =>
      rw [List.append_assoc, words_append_of_blank blank, words_append_of_isWord isWord ends, ih]

theorem Runs.cons_of_blank {c : Char} {text : List Char} {runs : List (List Char)}
    (hc : isBlank c = true) (h : Runs text runs) : Runs (c :: text) runs := by
  cases h with
  | none blank => exact .none (List.forall_mem_cons.mpr ⟨hc, blank⟩)
  | @run gap word rest others blank isWord ends further =>
      have hgap : ∀ d ∈ c :: gap, isBlank d = true := List.forall_mem_cons.mpr ⟨hc, blank⟩
      exact .run hgap isWord ends further

theorem isWord_takeWhile {c : Char} (hc : isBlank c = false) (rest : List Char) :
    IsWord (c :: rest.takeWhile fun d => !isBlank d) := by
  refine ⟨List.cons_ne_nil _ _, List.forall_mem_cons.mpr ⟨hc, fun d hd => ?_⟩⟩
  simpa using List.all_eq_true.mp List.all_takeWhile d hd

theorem isBlank_of_mem_head?_dropWhile {rest : List Char} :
    ∀ d ∈ (rest.dropWhile fun d => !isBlank d).head?, isBlank d = true := by
  intro d hd
  have hnot := List.head?_dropWhile_not (fun d => !isBlank d) rest
  rw [Option.mem_def.mp hd] at hnot
  simpa using hnot

/-- The words of a text are its runs. -/
theorem runs_words (text : List Char) : Runs text (words text) := by
  fun_induction words text with
  | case1 => exact .none (by simp)
  | case2 c rest hc ih => exact ih.cons_of_blank hc
  | case3 c rest hc ih =>
      have hword := isWord_takeWhile (Bool.not_eq_true _ ▸ hc) rest
      have hgap : ∀ d ∈ ([] : List Char), isBlank d = true := by simp
      simpa using Runs.run hgap hword isBlank_of_mem_head?_dropWhile ih

theorem Runs.isWord_of_mem {text word : List Char} {runs : List (List Char)}
    (h : Runs text runs) (hword : word ∈ runs) : IsWord word := by
  induction h with
  | none => cases hword
  | run blank isWord ends further ih =>
      rcases List.mem_cons.mp hword with rfl | hword
      · exact isWord
      · exact ih hword

/-! ## Words with spaces between them -/

theorem spaced_singleton (word : List Char) : spaced [word] = word := by
  simp [spaced]

theorem spaced_cons {runs : List (List Char)} (h : runs ≠ []) (word : List Char) :
    spaced (word :: runs) = word ++ ' ' :: spaced runs := by
  obtain ⟨second, rest, rfl⟩ := List.exists_cons_of_ne_nil h
  simp [spaced, List.intercalate_cons_cons]

theorem solidPart_spaced (runs : List (List Char)) :
    solidPart (spaced runs) = solidPart runs.flatten := by
  induction runs with
  | nil => rfl
  | cons word others ih =>
      by_cases h : others = []
      · simp [h, spaced_singleton]
      · rw [spaced_cons h]
        simpa [solidPart, isBlank_space] using ih

theorem Runs.solidPart_eq {text : List Char} {runs : List (List Char)} (h : Runs text runs) :
    solidPart text = solidPart runs.flatten := by
  induction h with
  | none blank => simpa [solidPart] using blank
  | @run gap word rest others blank isWord ends further ih =>
      have hgap : solidPart gap = [] := by simpa [solidPart] using blank
      simp only [solidPart, List.filter_append, List.flatten_cons] at hgap ih ⊢
      rw [hgap, ih, List.nil_append]

theorem IsWord.ne_space {word : List Char} (h : IsWord word) : ∀ c ∈ word, c ≠ ' ' := by
  rintro c hc rfl
  have hsolid := h.solid ' ' hc
  rw [isBlank_space] at hsolid
  cases hsolid

theorem IsWord.tidy {word : List Char} (h : IsWord word) : Tidy word where
  only_spaces c hc hblank := by
    rw [h.solid c hc] at hblank
    cases hblank
  start hstart := h.ne_space ' ' (List.mem_of_mem_head? hstart) rfl
  apart := by
    rw [List.isChain_iff_getElem]
    intro i hi ⟨hspace, _⟩
    exact h.ne_space _ (List.getElem_mem _) hspace
  stop hstop := h.ne_space ' ' (List.mem_of_getLast? hstop) rfl

/-- Behind a word and a space there stands a tidy text that is not empty. -/
theorem tidy_append_iff {word rest : List Char} (hword : IsWord word) :
    Tidy (word ++ ' ' :: rest) ↔ Tidy rest ∧ rest ≠ [] := by
  have hlast (hne : rest ≠ []) : (word ++ ' ' :: rest).getLast? = rest.getLast? := by
    rw [List.getLast?_append_of_ne_nil _ (List.cons_ne_nil _ _),
      List.getLast?_cons_of_ne_nil hne]
  constructor
  · intro h
    have hapart := (List.isChain_append.mp h.apart).2.1
    rw [List.isChain_cons] at hapart
    have hne : rest ≠ [] := by
      rintro rfl
      exact h.stop (by simp)
    refine ⟨⟨⟨?_, ?_, hapart.2⟩, hlast hne ▸ h.stop⟩, hne⟩
    · intro c hc
      exact h.only_spaces c (by simp [hc])
    · intro hstart
      exact hapart.1 ' ' hstart ⟨rfl, rfl⟩
  · intro ⟨h, hne⟩
    refine ⟨⟨?_, ?_, ?_⟩, (hlast hne).symm ▸ h.stop⟩
    · intro c hc hblank
      rcases List.mem_append.mp hc with hc | hc
      · exact hword.tidy.only_spaces c hc hblank
      · rcases List.mem_cons.mp hc with rfl | hc
        · rfl
        · exact h.only_spaces c hc hblank
    · rw [List.head?_append_of_ne_nil _ hword.nonempty]
      exact hword.tidy.start
    · rw [List.isChain_append, List.isChain_cons]
      refine ⟨hword.tidy.apart, ⟨?_, h.apart⟩, ?_⟩
      · rintro c hc ⟨-, rfl⟩
        exact h.start hc
      · rintro c hc d - ⟨rfl, -⟩
        exact hword.tidy.stop hc

theorem tidy_spaced {runs : List (List Char)} (h : ∀ word ∈ runs, IsWord word) :
    Tidy (spaced runs) := by
  induction runs with
  | nil => exact ⟨⟨by simp [spaced], by simp [spaced], by simp [spaced]⟩, by simp [spaced]⟩
  | cons word others ih =>
      obtain ⟨hword, hothers⟩ := List.forall_mem_cons.mp h
      by_cases hne : others = []
      · rw [hne, spaced_singleton]
        exact hword.tidy
      · rw [spaced_cons hne, tidy_append_iff hword]
        refine ⟨ih hothers, ?_⟩
        obtain ⟨second, rest, rfl⟩ := List.exists_cons_of_ne_nil hne
        have hsecond := (hothers second List.mem_cons_self).nonempty
        by_cases hrest : rest = []
        · simpa [hrest, spaced_singleton] using hsecond
        · simp [spaced_cons hrest]

theorem tidy_collapse (text : List Char) : Tidy (collapse text) :=
  tidy_spaced fun _ hword => (runs_words text).isWord_of_mem hword

theorem exists_isWord_append {c : Char} (hc : isBlank c = false) (rest : List Char) :
    ∃ word further, c :: rest = word ++ further ∧ IsWord word ∧
      ∀ d ∈ further.head?, isBlank d = true := by
  refine ⟨_, rest.dropWhile fun d => !isBlank d, ?_, isWord_takeWhile hc rest,
    isBlank_of_mem_head?_dropWhile⟩
  rw [List.cons_append, List.takeWhile_append_dropWhile]

/-- A tidy text is its words with spaces between them. -/
theorem Tidy.collapse_eq {text : List Char} (h : Tidy text) : collapse text = text := by
  match text with
  | [] => simp [collapse]
  | c :: rest =>
      have hc : isBlank c = false := by
        rw [Bool.eq_false_iff]
        intro hblank
        exact h.start (congrArg some (h.only_spaces c List.mem_cons_self hblank))
      obtain ⟨word, further, htext, hword, hends⟩ := exists_isWord_append hc rest
      rw [htext] at h ⊢
      show spaced (words (word ++ further)) = word ++ further
      rw [words_append_of_isWord hword hends]
      cases further with
      | nil => rw [words_nil, spaced_singleton, List.append_nil]
      | cons d others =>
          have hblank : isBlank d = true := hends d rfl
          obtain rfl : d = ' ' := h.only_spaces d (by simp) hblank
          obtain ⟨hothers, hne⟩ := (tidy_append_iff hword).mp h
          have hlength : others.length < (c :: rest).length := by
            rw [htext]
            simp only [List.length_append, List.length_cons]
            omega
          have ih : spaced (words others) = others := hothers.collapse_eq
          have hwords : words others ≠ [] := by
            intro hnil
            rw [hnil] at ih
            exact hne ih.symm
          rw [words_cons_of_blank _ hblank, spaced_cons hwords, ih]
termination_by text.length
decreasing_by exact hlength

/-! ## Cut texts -/

theorem tidy_take_append_ellipsis {text : List Char} (h : OneLine text) (limit : Nat) :
    Tidy (text.take limit ++ ellipsis) where
  only_spaces c hc hblank := by
    rcases List.mem_append.mp hc with hc | hc
    · exact h.only_spaces c (List.mem_of_mem_take hc) hblank
    · have hdot : c = '.' := by simpa [ellipsis] using hc
      rw [hdot] at hblank
      cases hblank
  start := by
    cases text with
    | nil => simp [ellipsis]
    | cons c rest =>
        cases limit with
        | zero => simp [ellipsis]
        | succ limit => simpa using h.start
  apart := by
    rw [List.isChain_append]
    refine ⟨h.apart.take limit, by simp [ellipsis], ?_⟩
    rintro c - d hd ⟨-, rfl⟩
    simp [ellipsis] at hd
  stop := by simp [ellipsis]

theorem tidy_compact (limit : Nat) (text : List Char) : Tidy (compact limit text) := by
  have h := tidy_collapse text
  by_cases hlength : (collapse text).length ≤ limit
  · rw [compact, truncate_of_length_le hlength]
    exact h
  · rw [compact, truncate_of_lt_length (Nat.not_le.mp hlength)]
    exact tidy_take_append_ellipsis h.toOneLine limit

theorem truncate_truncate (limit : Nat) (text : List Char) :
    truncate limit (truncate limit text) = truncate limit text := by
  by_cases hlength : text.length ≤ limit
  · simp [truncate_of_length_le hlength]
  · have htake : (text.take limit).length = limit := by
      rw [List.length_take]
      omega
    have hcut : limit < (text.take limit ++ ellipsis).length := by
      simp [htake, ellipsis]
    rw [truncate_of_lt_length (Nat.not_le.mp hlength), truncate_of_lt_length hcut,
      List.take_left' htake]

/-- A compacted text is one line with single spaces. It comes from the runs of the text
alone: these with one space between neighbours, or as much of that as the limit allows and
three dots. Compacting it again changes nothing. -/
theorem compact_normal_form (limit : Nat) (text : List Char) :
    OneLine (compact limit text) ∧
      (∃ runs, Runs text runs ∧
        (∀ other, Runs other runs → compact limit other = compact limit text) ∧
        ((spaced runs).length ≤ limit →
          compact limit text = spaced runs ∧
            solidPart (compact limit text) = solidPart text) ∧
        (limit < (spaced runs).length →
          compact limit text = (spaced runs).take limit ++ ['.', '.', '.'])) ∧
      compact limit (compact limit text) = compact limit text := by
  have htidy := tidy_compact limit text
  have hruns := runs_words text
  refine ⟨htidy.toOneLine, ⟨words text, hruns, ?_, ?_, ?_⟩, ?_⟩
  · intro other hother
    rw [compact, collapse, hother.words_eq]
    rfl
  · intro hlength
    have hcompact : compact limit text = spaced (words text) := truncate_of_length_le hlength
    refine ⟨hcompact, ?_⟩
    rw [hcompact, solidPart_spaced, hruns.solidPart_eq]
  · exact truncate_of_lt_length
  · calc compact limit (compact limit text)
        = truncate limit (compact limit text) := by rw [compact, htidy.collapse_eq]
      _ = compact limit text := truncate_truncate limit (collapse text)

end ScriptOutline.Text
