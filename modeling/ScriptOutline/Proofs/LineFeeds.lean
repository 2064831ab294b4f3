import Mathlib.Algebra.Ring.Nat
import ScriptOutline.Outline.Listing
import ScriptOutline.Text.Compact

/-!
# Line feeds in listings

A listing has the line feeds that end its lines and those of the names and arguments in
it. Without the latter it falls into the lines of its entries. Main statements:
`lineFeeds_listingAll` and `splitOn_listingAll`.
-/

namespace ScriptOutline

namespace Text

/-! ## Line feeds of texts -/

def lineFeeds (text : String) : Nat := text.toList.count '\n'

@[simp] theorem lineFeeds_append (s t : String) :
    lineFeeds (s ++ t) = lineFeeds s + lineFeeds t := by
  simp [lineFeeds]

@[simp] theorem lineFeeds_ofList (text : List Char) :
    lineFeeds (String.ofList text) = text.count '\n' := by
  simp [lineFeeds]

theorem lineFeeds_eq_zero_iff {text : String} : lineFeeds text = 0 ↔ '\n' ∉ text.toList :=
  List.count_eq_zero

theorem count_intercalate {α : Type} [BEq α] [LawfulBEq α] {c : α} {separator : List α}
    (h : c ∉ separator) (texts : List (List α)) :
    (separator.intercalate texts).count c = (texts.map (List.count c)).sum := by
  match texts with
  | [] => rfl
  | [text] => simp
  | first :: second :: rest =>
      have ih := count_intercalate h (second :: rest)
      rw [List.intercalate_cons_cons, List.count_append, List.count_append,
        List.count_eq_zero.mpr h, ih]
      simp

theorem lineFeeds_intercalate {separator : String} (h : '\n' ∉ separator.toList)
    (texts : List String) :
    lineFeeds (separator.intercalate texts) = (texts.map lineFeeds).sum := by
  rw [lineFeeds, String.toList_intercalate, count_intercalate h, List.map_map]
  rfl

theorem lineFeeds_toString (n : Nat) : lineFeeds (toString n) = 0 := by
  rw [Nat.toString_eq_ofList_toDigits, lineFeeds_ofList, List.count_eq_zero]
  intro hdigit
  exact absurd (Nat.isDigit_of_mem_toDigits (by decide) (by decide) hdigit) (by decide)

/-! ## Blank characters of compacted texts -/

theorem isBlank_eq_false_of_mem_words {text word : List Char} (hword : word ∈ words text) {c : Char}
    (hc : c ∈ word) : isBlank c = false := by
  fun_induction words text with
  | case1 => cases hword
  | case2 first rest hblank ih => exact ih hword
  | case3 first rest hblank ih =>
      rcases List.mem_cons.mp hword with rfl | hword
      · rcases List.mem_cons.mp hc with rfl | hc
        · exact Bool.not_eq_true _ ▸ hblank
        · have hall := List.all_eq_true.mp List.all_takeWhile c hc
          simpa using hall
      · exact ih hword

theorem not_mem_collapse {c : Char} (hblank : isBlank c = true) (hspace : c ≠ ' ')
    (text : List Char) : c ∉ collapse text := by
  have hwords : ∀ word ∈ words text, c ∉ word := by
    intro word hword hmem
    rw [isBlank_eq_false_of_mem_words hword hmem] at hblank
    cases hblank
  have hseparator : c ∉ [' '] := by simpa using hspace
  rw [collapse, ← List.count_eq_zero, count_intercalate hseparator,
    List.sum_eq_zero_iff_forall_eq_nat]
  simpa [List.count_eq_zero] using hwords

/-- No blank character but the space is left in a compacted text. -/
theorem not_mem_compact {c : Char} (hblank : isBlank c = true) (hspace : c ≠ ' ') (limit : Nat)
    (text : List Char) : c ∉ compact limit text := by
  have hcollapse := not_mem_collapse hblank hspace text
  rw [compact, truncate]
  split
  · exact hcollapse
  · intro hmem
    rcases List.mem_append.mp hmem with htake | hdots
    · exact hcollapse (List.mem_of_mem_take htake)
    · have hdot : c = '.' := by simpa [ellipsis] using hdots
      rw [hdot] at hblank
      cases hblank

theorem lineFeeds_compact (limit : Nat) (text : List Char) :
    lineFeeds (String.ofList (compact limit text)) = 0 := by
  rw [lineFeeds_ofList, List.count_eq_zero]
  exact not_mem_compact (by decide) (by decide) limit text

end Text

namespace Entry

/-! ## Line feeds of listings -/

def lineFeeds (e : Entry) : Nat :=
  Text.lineFeeds e.name + (e.args.map Text.lineFeeds).sum

theorem lineFeeds_listing (e : Entry) : Text.lineFeeds e.listing = e.lineFeeds + 1 := by
  have hindent : Text.lineFeeds e.indent = 0 := by simp [indent, List.count_replicate]
  have hmark : Text.lineFeeds e.category.mark.toString = 0 := by cases e.category <;> rfl
  have hsignature : Text.lineFeeds e.signature = e.lineFeeds := by
    have hseparator : '\n' ∉ ", ".toList := by decide
    have hargs := Text.lineFeeds_intercalate hseparator e.args
    have hopen : Text.lineFeeds "(" = 0 := rfl
    have hclose : Text.lineFeeds ")" = 0 := rfl
    simp only [signature, Text.lineFeeds_append, hargs, hopen, hclose, lineFeeds]
    omega
  have hspace : Text.lineFeeds " " = 0 := rfl
  have hcolon : Text.lineFeeds " :" = 0 := rfl
  have hend : Text.lineFeeds "\n" = 1 := rfl
  simp only [listing, Text.lineFeeds_append, Text.lineFeeds_toString, hindent, hmark, hsignature,
    hspace, hcolon, hend]
  omega

theorem listingAll_cons (e : Entry) (entries : List Entry) :
    listingAll (e :: entries) = e.listing ++ listingAll entries := by
  rw [listingAll, List.map_cons, String.join_cons]
  rfl

/-- A listing has one line feed for each entry, and those of the entries. -/
theorem lineFeeds_listingAll (entries : List Entry) :
    Text.lineFeeds (listingAll entries) = entries.length + (entries.map lineFeeds).sum := by
  induction entries with
  | nil => rfl
  | cons e rest ih =>
      rw [listingAll_cons, Text.lineFeeds_append, lineFeeds_listing, ih, List.length_cons,
        List.map_cons, List.sum_cons]
      omega

/-- A listing of entries without line feeds falls into the lines of the entries. -/
theorem splitOn_listingAll {entries : List Entry} (h : ∀ e ∈ entries, e.lineFeeds = 0) :
    (listingAll entries).toList.splitOn '\n' =
      entries.map (fun e => e.listing.toList.dropLast) ++ [[]] := by
  induction entries with
  | nil => rfl
  | cons e rest ih =>
      obtain ⟨hfirst, hrest⟩ := List.forall_mem_cons.mp h
      obtain ⟨line, hline⟩ : ∃ line, e.listing = line ++ "\n" := ⟨_, rfl⟩
      have hend : Text.lineFeeds "\n" = 1 := rfl
      have hcount := lineFeeds_listing e
      rw [hline, Text.lineFeeds_append, hend, hfirst] at hcount
      have hnone : '\n' ∉ line.toList := Text.lineFeeds_eq_zero_iff.mp (by omega)
      have hchars : e.listing.toList = line.toList ++ ['\n'] := by
        rw [hline, String.toList_append]
        rfl
      rw [listingAll_cons, String.toList_append, List.map_cons, hchars, List.dropLast_concat,
        List.append_assoc, List.singleton_append, List.splitOn_append_cons_self_of_not_mem hnone,
        ih hrest, List.cons_append]

end Entry

end ScriptOutline
