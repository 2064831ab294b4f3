import Mathlib.Data.List.DropRight
import ScriptOutline.ParseTree.Basic

/-!
# Slices at character boundaries

A slice of the bytes of a text is text only if it is empty or both its ends are boundaries
between characters. So a node covers whole characters of its source: what stands between its
ends, or nothing where these are no boundaries. Main statement: `text_between_boundaries`.
-/

namespace ScriptOutline

namespace Text

variable {s : String} {start stop offset : Nat}

/-! ## Boundaries -/

/-- Whether no character of a text goes over an offset, which counts bytes. -/
def IsBoundary (s : String) (offset : Nat) : Prop :=
  ∃ before after, s = before ++ after ∧ before.utf8ByteSize = offset

theorem isBoundary_iff_isValid : IsBoundary s offset ↔ String.Pos.Raw.IsValid s ⟨offset⟩ := by
  rw [String.Pos.Raw.isValid_iff_exists_append]
  constructor
  · rintro ⟨before, after, hs, rfl⟩
    exact ⟨before, after, hs, rfl⟩
  · rintro ⟨before, after, hs, hoffset⟩
    exact ⟨before, after, hs, (congrArg String.Pos.Raw.byteIdx hoffset).symm⟩

structure AtBoundaries (s : String) (start stop : Nat) : Prop where
  ordered : start ≤ stop
  inside : stop ≤ s.utf8ByteSize
  left : IsBoundary s start
  right : IsBoundary s stop

def StandsBetween (s : String) (start stop : Nat) (middle : String) : Prop :=
  ∃ before after, s = before ++ middle ++ after ∧ before.utf8ByteSize = start ∧
    (before ++ middle).utf8ByteSize = stop

/-- Of two ways to cut a text the one with less in front leaves a piece between the cuts. -/
theorem exists_between_of_append_eq {before rest front after : String}
    (h : before ++ rest = front ++ after) (hle : before.utf8ByteSize ≤ front.utf8ByteSize) :
    ∃ middle, front = before ++ middle ∧ rest = middle ++ after := by
  have hchars : before.toList ++ rest.toList = front.toList ++ after.toList := by
    rw [← String.toList_append, h, String.toList_append]
  rcases List.append_eq_append_iff.mp hchars with ⟨middle, hfront, hrest⟩ | ⟨surplus, hbefore, -⟩
  · refine ⟨String.ofList middle, String.toList_inj.mp ?_, String.toList_inj.mp ?_⟩
    · rw [hfront, String.toList_append, String.toList_ofList]
    · rw [hrest, String.toList_append, String.toList_ofList]
  · -- With no less in front there is nothing in between.
    have hcut : before = front ++ String.ofList surplus := by
      rw [← String.toList_inj, hbefore, String.toList_append, String.toList_ofList]
    have hsurplus : String.ofList surplus = "" := by
      rw [hcut, String.utf8ByteSize_append] at hle
      exact String.utf8ByteSize_eq_zero_iff.mp (by omega)
    rw [hsurplus, String.append_empty] at hcut
    rw [hcut] at h
    refine ⟨"", ?_, ?_⟩
    · rw [hcut, String.append_empty]
    · rw [String.empty_append]
      exact (String.append_right_inj front).mp h

theorem AtBoundaries.exists_standsBetween (h : AtBoundaries s start stop) :
    ∃ middle, StandsBetween s start stop middle := by
  obtain ⟨hle, -, ⟨before, rest, rfl, rfl⟩, ⟨front, after, hs, rfl⟩⟩ := h
  obtain ⟨middle, rfl, rfl⟩ := exists_between_of_append_eq hs hle
  exact ⟨middle, before, after, hs, rfl, rfl⟩

theorem StandsBetween.isInfix_toList {middle : String} (h : StandsBetween s start stop middle) :
    middle.toList <:+: s.toList := by
  obtain ⟨before, after, rfl, -⟩ := h
  exact ⟨before.toList, after.toList, by simp only [String.toList_append]⟩

/-! ## Slices -/

theorem fromUTF8?_toByteArray (s : String) : String.fromUTF8? s.toByteArray = some s := by
  rw [String.fromUTF8?, dif_pos s.isValidUTF8]
  rfl

theorem extract_between (before middle after : String) :
    (before ++ middle ++ after).toUTF8.extract before.utf8ByteSize
      (before ++ middle).utf8ByteSize = middle.toByteArray := by
  have hsize : (before ++ middle).utf8ByteSize =
      before.toByteArray.size + middle.toByteArray.size := by
    rw [String.utf8ByteSize_append, String.size_toByteArray, String.size_toByteArray]
  have hfront : (before.toByteArray ++ middle.toByteArray).extract before.toByteArray.size
      (before.toByteArray.size + middle.toByteArray.size) = middle.toByteArray :=
    ByteArray.extract_append_eq_right rfl rfl
  rw [String.toUTF8_eq_toByteArray, String.toByteArray_append, String.toByteArray_append,
    ByteArray.extract_append, hsize, ← String.size_toByteArray, hfront, ByteArray.size_append,
    Nat.sub_self, Nat.sub_eq_zero_of_le (Nat.le_add_right _ _), ByteArray.extract_same,
    ByteArray.append_empty]

theorem slice_of_standsBetween {middle : String} (h : StandsBetween s start stop middle) :
    slice s.toUTF8 start stop = dropLineEnds middle.toList := by
  obtain ⟨before, after, rfl, rfl, rfl⟩ := h
  have hsizes : before.utf8ByteSize ≤ (before ++ middle).utf8ByteSize ∧
      (before ++ middle).utf8ByteSize ≤ (before ++ middle ++ after).toUTF8.size := by
    simp
  rw [slice, bytesBetween?, if_pos hsizes, extract_between, Option.bind_some,
    fromUTF8?_toByteArray]

/-- A slice that has any characters lies between boundaries. -/
theorem atBoundaries_of_slice_ne_nil (h : slice s.toUTF8 start stop ≠ []) :
    AtBoundaries s start stop := by
  unfold slice at h
  split at h
  · rename_i text htext
    obtain ⟨bytes, hbytes, htext⟩ := Option.bind_eq_some_iff.mp htext
    rw [bytesBetween?, Option.ite_none_right_eq_some, Option.some_inj] at hbytes
    obtain ⟨⟨hle, hsize⟩, rfl⟩ := hbytes
    obtain ⟨hvalid, -⟩ := Option.dite_none_right_eq_some.mp htext
    have hends := (String.Pos.Raw.isValidUTF8_extract_iff ⟨start⟩ ⟨stop⟩ hle hsize).mp hvalid
    rcases hends with heq | ⟨hleft, hright⟩
    · -- An empty slice is text wherever it is cut, but it has no characters.
      cases heq
      rw [ByteArray.extract_same, ← String.toByteArray_empty, fromUTF8?_toByteArray,
        Option.some_inj] at htext
      rw [← htext] at h
      exact absurd rfl h
    · exact ⟨hle, hsize, isBoundary_iff_isValid.mpr hleft, isBoundary_iff_isValid.mpr hright⟩
  · exact absurd rfl h

/-! ## Line ends -/

/-- What is left of a text without all line ends at its end. -/
structure WithoutLineEnds (whole text : String) : Prop where
  split : ∃ ends, whole = text ++ ends ∧ ∀ c ∈ ends.toList, c = '\n' ∨ c = '\r'
  last : ∀ c, text.toList.getLast? = some c → c ≠ '\n' ∧ c ≠ '\r'

theorem WithoutLineEnds.isPrefix_toList {whole text : String} (h : WithoutLineEnds whole text) :
    text.toList <+: whole.toList := by
  obtain ⟨ends, rfl, -⟩ := h.split
  exact ⟨ends.toList, String.toList_append.symm⟩

theorem isLineEnd_iff {c : Char} : isLineEnd c ↔ c = '\n' ∨ c = '\r' := by
  rw [isLineEnd, Bool.or_eq_true, beq_iff_eq, beq_iff_eq]

theorem withoutLineEnds_dropLineEnds (whole : String) :
    WithoutLineEnds whole (String.ofList (dropLineEnds whole.toList)) := by
  have hdrop : dropLineEnds whole.toList = whole.toList.rdropWhile isLineEnd := rfl
  refine ⟨⟨String.ofList (whole.toList.rtakeWhile isLineEnd), ?_, fun c hc => ?_⟩, fun c hc => ?_⟩
  · rw [← String.ofList_append, hdrop, List.rdropWhile_append_rtakeWhile, String.ofList_toList]
  · rw [String.toList_ofList] at hc
    exact isLineEnd_iff.mp (List.mem_rtakeWhile_imp hc)
  · rw [String.toList_ofList, hdrop] at hc
    obtain ⟨hne, rfl⟩ := List.mem_getLast?_eq_getLast hc
    exact not_or.mp fun hend => List.rdropWhile_last_not isLineEnd _ hne (isLineEnd_iff.mpr hend)

end Text

namespace ParseTree

/-- The text of a node is what stands between its ends, without the line ends at its end, if the
ends lie in the source in this order and both at boundaries. In every other case it is empty. So
it has nothing but whole characters of the source, one after the other. -/
theorem text_between_boundaries (s : String) (t : ParseTree) :
    (Text.AtBoundaries s t.info.start t.info.stop →
        (∃ middle, Text.StandsBetween s t.info.start t.info.stop middle) ∧
          ∀ middle, Text.StandsBetween s t.info.start t.info.stop middle →
            Text.WithoutLineEnds middle (t.text s.toUTF8)) ∧
      (¬Text.AtBoundaries s t.info.start t.info.stop → t.text s.toUTF8 = "") ∧
      (t.text s.toUTF8).toList <:+: s.toList := by
  have hbetween (middle : String)
      (hmiddle : Text.StandsBetween s t.info.start t.info.stop middle) :
      Text.WithoutLineEnds middle (t.text s.toUTF8) := by
    rw [text, Text.slice_of_standsBetween hmiddle]
    exact Text.withoutLineEnds_dropLineEnds middle
  have houtside (h : ¬Text.AtBoundaries s t.info.start t.info.stop) : t.text s.toUTF8 = "" := by
    have hslice : Text.slice s.toUTF8 t.info.start t.info.stop = [] :=
      not_not.mp fun hne => h (Text.atBoundaries_of_slice_ne_nil hne)
    rw [text, hslice]
  refine ⟨fun h => ⟨h.exists_standsBetween, hbetween⟩, houtside, ?_⟩
  by_cases h : Text.AtBoundaries s t.info.start t.info.stop
  · obtain ⟨middle, hmiddle⟩ := h.exists_standsBetween
    exact (hbetween middle hmiddle).isPrefix_toList.isInfix.trans hmiddle.isInfix_toList
  · rw [houtside h]
    exact ⟨[], s.toList, rfl⟩

/-- A node that ends in front of a line feed, and one that ends within a character. -/
example :
    (node ⟨"identifier", true, false, false, 0, 4, 0, []⟩ []).text "aé\n".toUTF8 = "aé" ∧
      (node ⟨"identifier", true, false, false, 0, 2, 0, []⟩ []).text "aé\n".toUTF8 = "" := by
  decide +kernel

end ParseTree

end ScriptOutline
