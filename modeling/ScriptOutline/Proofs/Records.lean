import Mathlib.Data.List.Forall2
import ScriptOutline.Outline.Record

/-!
# Reading records back

What objects are records of entries, told by the members that an object has and not by
looking anything up. Entries that are written are read back, and a list of objects is read
exactly if each is a record. Main statement: `records_read_back`.
-/

namespace ScriptOutline

/-! ## Members of objects -/

namespace Json

/-- In an object whose keys differ a member is found exactly if it is there. -/
theorem member?_object_eq_some_iff {members : List (String × Json)}
    (h : (members.map Prod.fst).Nodup) {key : String} {value : Json} :
    (object members).member? key = some value ↔ (key, value) ∈ members := by
  rw [member?]
  induction members with
  | nil => simp
  | cons first rest ih =>
      obtain ⟨other, found⟩ := first
      obtain ⟨hother, hrest⟩ := List.nodup_cons.mp h
      rw [List.lookup_cons, List.mem_cons]
      by_cases hkey : key = other
      · subst hkey
        have habsent : (key, value) ∉ rest := fun hmem =>
          hother (List.mem_map.mpr ⟨_, hmem, rfl⟩)
        simp [habsent, eq_comm]
      · rw [beq_false_of_ne hkey]
        simpa [hkey] using ih hrest

theorem string?_eq_some_iff {value : Json} {text : String} :
    value.string? = some text ↔ value = string text := by
  cases value <;> simp [string?]

theorem word?_eq_some_iff {value : Json} {n : Nat} :
    value.word? = some n ↔ value = integer n ∧ n < UInt64.size := by
  unfold word?
  split
  · rename_i m
    rw [Option.ite_none_right_eq_some, Option.some_inj, integer.injEq, Int.ofNat_eq_natCast,
      Int.natCast_inj]
    constructor
    · rintro ⟨hm, rfl⟩
      exact ⟨rfl, hm⟩
    · rintro ⟨rfl, hm⟩
      exact ⟨hm, rfl⟩
  · rename_i hother
    refine iff_of_false (fun h => by cases h) ?_
    rintro ⟨rfl, -⟩
    exact hother n rfl

end Json

theorem mapM_eq_some_iff_forall₂ {α β : Type} {f : α → Option β} {items : List α}
    {results : List β} :
    items.mapM f = some results ↔ List.Forall₂ (fun item result => f item = some result)
      items results := by
  induction items generalizing results with
  | nil => simp [eq_comm]
  | cons item rest ih =>
      rw [List.mapM_cons, List.forall₂_cons_left_iff]
      simp only [Option.bind_eq_bind, Option.bind_eq_some_iff, Option.pure_def, Option.some_inj,
        ih]
      constructor
      · rintro ⟨result, hresult, others, hothers, rfl⟩
        exact ⟨result, others, hresult, hothers, rfl⟩
      · rintro ⟨result, others, hresult, hothers, rfl⟩
        exact ⟨result, hresult, others, hothers, rfl⟩

namespace Json

theorem strings?_eq_some_iff {value : Json} {texts : List String} :
    value.strings? = some texts ↔ value = array (texts.map string) := by
  have hitems (items : List Json) :
      items.mapM string? = some texts ↔ items = texts.map string := by
    rw [mapM_eq_some_iff_forall₂, ← List.forall₂_eq_eq_eq, List.forall₂_map_right_iff]
    simp only [string?_eq_some_iff]
  cases value <;> simp [strings?, array?, hitems]

end Json

namespace Entry

/-! ## Records -/

/-- The values that name a category: its word, or an object with the word for its only
key and nothing under it. -/
inductive NamesCategory (c : Category) : Json → Prop where
  | word : NamesCategory c (.string c.word)
  | key : NamesCategory c (.object [(c.word, .null)])

structure RecordOf (members : List (String × Json)) (e : Entry) : Prop where
  name : ("name", .string e.name) ∈ members
  line : ("line", .integer e.line) ∈ members
  line_lt : e.line < UInt64.size
  category : ∃ value, ("type", value) ∈ members ∧ NamesCategory e.category value
  level : ("level", .integer e.level) ∈ members
  level_lt : e.level < UInt64.size
  args : ("args", .array (e.args.map .string)) ∈ members

def recordKeys : List String := ["name", "line", "type", "level", "args"]

/-- The same members under the keys of records, whatever the order and whatever else there
is. -/
def SameRecord (left right : List (String × Json)) : Prop :=
  (right.map Prod.fst).Nodup ∧
    ∀ key ∈ recordKeys, ∀ value, (key, value) ∈ left ↔ (key, value) ∈ right

theorem categoryOfWord?_eq_some_iff {word : String} {c : Category} :
    Category.ofWord? word = some c ↔ word = c.word := by
  constructor
  · intro h
    rw [Category.ofWord?] at h
    have hword := List.find?_some h
    exact (beq_iff_eq.mp hword).symm
  · rintro rfl
    exact Category.ofWord?_word c

theorem categoryOfJson?_eq_some_iff {value : Json} {c : Category} :
    categoryOfJson? value = some c ↔ NamesCategory c value := by
  constructor
  · intro h
    unfold categoryOfJson? at h
    split at h
    · rw [categoryOfWord?_eq_some_iff] at h
      exact h ▸ .word
    · rw [categoryOfWord?_eq_some_iff] at h
      exact h ▸ .key
    · cases h
  · intro h
    cases h with
    | word => exact Category.ofWord?_word c
    | key => exact Category.ofWord?_word c

theorem ofValues?_eq_some_iff {name line category level args : Json} {e : Entry} :
    ofValues? name line category level args = some e ↔
      name = .string e.name ∧ (line = .integer e.line ∧ e.line < UInt64.size) ∧
        NamesCategory e.category category ∧ (level = .integer e.level ∧ e.level < UInt64.size) ∧
          args = .array (e.args.map .string) := by
  simp only [← Json.string?_eq_some_iff, ← Json.word?_eq_some_iff,
    ← categoryOfJson?_eq_some_iff, ← Json.strings?_eq_some_iff]
  rw [ofValues?]
  simp only [Option.bind_eq_bind, Option.bind_eq_some_iff, Option.pure_def, Option.some_inj]
  constructor
  · rintro ⟨_, hname, _, hline, _, hcategory, _, hlevel, _, hargs, rfl⟩
    exact ⟨hname, hline, hcategory, hlevel, hargs⟩
  · rintro ⟨hname, hline, hcategory, hlevel, hargs⟩
    exact ⟨_, hname, _, hline, _, hcategory, _, hlevel, _, hargs, rfl⟩

/-- An object is read as an entry exactly if it is its record. -/
theorem ofJson?_object_eq_some_iff {members : List (String × Json)}
    (h : (members.map Prod.fst).Nodup) {e : Entry} :
    ofJson? (.object members) = some e ↔ RecordOf members e := by
  rw [ofJson?.eq_2 _ fun _ _ _ _ _ => Json.noConfusion]
  simp only [Option.bind_eq_bind, Option.bind_eq_some_iff, Json.member?_object_eq_some_iff h,
    ofValues?_eq_some_iff]
  constructor
  · rintro ⟨name, hname, line, hline, category, hcategory, level, hlevel, args, hargs, rfl,
      ⟨rfl, hlineLt⟩, hnames, ⟨rfl, hlevelLt⟩, rfl⟩
    exact ⟨hname, hline, hlineLt, ⟨category, hcategory, hnames⟩, hlevel, hlevelLt, hargs⟩
  · rintro ⟨hname, hline, hlineLt, ⟨category, hcategory, hnames⟩, hlevel, hlevelLt, hargs⟩
    exact ⟨_, hname, _, hline, category, hcategory, _, hlevel, _, hargs, rfl, ⟨rfl, hlineLt⟩,
      hnames, ⟨rfl, hlevelLt⟩, rfl⟩

/-- An entry is written as an object that is read as the entry. -/
theorem ofJson?_toJson {e : Entry} (hline : e.line < UInt64.size) (hlevel : e.level < UInt64.size) :
    ofJson? e.toJson = some e := by
  refine (@ofJson?_object_eq_some_iff _ ?_ e).mpr
    ⟨?_, ?_, hline, ⟨.string e.category.word, ?_, .word⟩, ?_, hlevel, ?_⟩
  · show recordKeys.Nodup
    decide
  all_goals simp [Json.ofNat, Json.ofStrings]

theorem RecordOf.congr {left right : List (String × Json)} (h : SameRecord left right)
    {e : Entry} (record : RecordOf left e) : RecordOf right e := by
  have hmem {key : String} {value : Json} (hkey : key ∈ recordKeys)
      (hleft : (key, value) ∈ left) : (key, value) ∈ right := (h.2 key hkey value).mp hleft
  obtain ⟨category, hcategory, hnames⟩ := record.category
  exact
    { name := hmem (by decide) record.name
      line := hmem (by decide) record.line
      line_lt := record.line_lt
      category := ⟨category, hmem (by decide) hcategory, hnames⟩
      level := hmem (by decide) record.level
      level_lt := record.level_lt
      args := hmem (by decide) record.args }

/-! ## Lists of records -/

theorem forall₂_recordOf_congr {objects others : List (List (String × Json))}
    {entries : List Entry} (hsame : List.Forall₂ SameRecord objects others)
    (hrecords : List.Forall₂ RecordOf objects entries) :
    (∀ members ∈ others, (members.map Prod.fst).Nodup) ∧
      List.Forall₂ RecordOf others entries := by
  induction hsame generalizing entries with
  | nil =>
      cases hrecords
      exact ⟨List.forall_mem_nil _, .nil⟩
  | cons hfirst _ ih =>
      cases hrecords with
      | cons hrecord hrest =>
          obtain ⟨hkeys, hothers⟩ := ih hrest
          exact ⟨List.forall_mem_cons.mpr ⟨hfirst.1, hkeys⟩, .cons (hrecord.congr hfirst) hothers⟩

theorem forall_fits_of_forall₂ {objects : List (List (String × Json))} {entries : List Entry}
    (h : List.Forall₂ RecordOf objects entries) :
    ∀ e ∈ entries, e.line < UInt64.size ∧ e.level < UInt64.size := by
  induction h with
  | nil => exact List.forall_mem_nil _
  | cons hrecord _ ih =>
      exact List.forall_mem_cons.mpr ⟨⟨hrecord.line_lt, hrecord.level_lt⟩, ih⟩

/-- A list of objects is read exactly if they are records, one for each entry. -/
theorem listOfJson?_eq_some_iff {objects : List (List (String × Json))}
    (h : ∀ members ∈ objects, (members.map Prod.fst).Nodup) {entries : List Entry} :
    listOfJson? (.array (objects.map .object)) = some entries ↔
      List.Forall₂ RecordOf objects entries := by
  rw [listOfJson?, Json.array?, Option.bind_some, mapM_eq_some_iff_forall₂,
    List.forall₂_map_left_iff]
  have hall (R : List (String × Json) → Entry → Prop) : List.Forall₂ R objects entries →
      List.Forall₂ (fun members e => (members.map Prod.fst).Nodup ∧ R members e) objects entries :=
    fun hR => (List.forall₂_and_left _ _).mpr ⟨h, hR⟩
  constructor
  · intro hread
    exact (hall _ hread).imp fun members e hm => (ofJson?_object_eq_some_iff hm.1).mp hm.2
  · intro hrecords
    exact (hall _ hrecords).imp fun members e hm => (ofJson?_object_eq_some_iff hm.1).mpr hm.2

theorem listOfJson?_listToJson {entries : List Entry}
    (h : ∀ e ∈ entries, e.line < UInt64.size ∧ e.level < UInt64.size) :
    listOfJson? (listToJson entries) = some entries := by
  rw [listOfJson?, listToJson, Json.array?, Option.bind_some, mapM_eq_some_iff_forall₂,
    List.forall₂_map_left_iff, List.forall₂_same]
  intro e he
  exact ofJson?_toJson (h e he).1 (h e he).2

theorem exists_forall₂_iff {α β : Type} {R : α → β → Prop} {items : List α} :
    (∃ results, List.Forall₂ R items results) ↔ ∀ item ∈ items, ∃ result, R item result := by
  induction items with
  | nil => simp
  | cons item rest ih =>
      rw [List.forall_mem_cons, ← ih]
      constructor
      · rintro ⟨_, hforall⟩
        cases hforall with
        | cons hitem hrest => exact ⟨⟨_, hitem⟩, ⟨_, hrest⟩⟩
      · rintro ⟨⟨result, hitem⟩, ⟨results, hrest⟩⟩
        exact ⟨result :: results, .cons hitem hrest⟩

/-- Entries whose numbers fit 64 bits are read back as they were written. A list of objects
with distinct keys is read exactly if each of them is the record of an entry, so that one bad
object spoils them all; what is read has one entry for each object in order, depends on the
members under the keys of records alone and is read back after writing. -/
theorem records_read_back :
    (∀ entries : List Entry, (∀ e ∈ entries, e.line < UInt64.size ∧ e.level < UInt64.size) →
        listOfJson? (listToJson entries) = some entries) ∧
      ∀ objects : List (List (String × Json)),
        (∀ members ∈ objects, (members.map Prod.fst).Nodup) →
          ((listOfJson? (.array (objects.map .object))).isSome ↔
              ∀ members ∈ objects, ∃ e, RecordOf members e) ∧
            ∀ entries, listOfJson? (.array (objects.map .object)) = some entries →
              List.Forall₂ RecordOf objects entries ∧
                (∀ others, List.Forall₂ SameRecord objects others →
                  listOfJson? (.array (others.map .object)) = some entries) ∧
                listOfJson? (listToJson entries) = some entries := by
  refine ⟨fun entries => listOfJson?_listToJson, fun objects hkeys => ⟨?_, ?_⟩⟩
  · rw [Option.isSome_iff_exists, ← exists_forall₂_iff]
    simp only [listOfJson?_eq_some_iff hkeys]
  · intro entries hread
    have hrecords := (listOfJson?_eq_some_iff hkeys).mp hread
    refine ⟨hrecords, fun others hsame => ?_,
      listOfJson?_listToJson (forall_fits_of_forall₂ hrecords)⟩
    obtain ⟨hothers, hrecords⟩ := forall₂_recordOf_congr hsame hrecords
    exact (listOfJson?_eq_some_iff hothers).mpr hrecords

def sampleRecord : List (String × Json) :=
  [("name", .string "f"), ("line", .integer 3), ("type", .string "public"),
    ("level", .integer 1), ("args", .array [.string "a=1"])]

/-- The same record with its members in another order and one more, that no entry has. -/
def shuffledRecord : List (String × Json) :=
  [("level", .integer 1), ("category", .null), ("name", .string "f"),
    ("args", .array [.string "a=1"]), ("type", .string "public"), ("line", .integer 3)]

def sampleEntry : Entry :=
  { name := "f", line := 3, category := .publicName, level := 1, args := ["a=1"] }

theorem records_read_back_sample :
    listOfJson? (listToJson [sampleEntry]) = some [sampleEntry] ∧
      ((listOfJson? (.array [.object sampleRecord])).isSome ↔
          ∀ members ∈ [sampleRecord], ∃ e, RecordOf members e) ∧
        List.Forall₂ RecordOf [sampleRecord] [sampleEntry] ∧
          listOfJson? (.array [.object shuffledRecord]) = some [sampleEntry] := by
  have hsame : SameRecord sampleRecord shuffledRecord := by
    refine ⟨by decide, fun key hkey value => ?_⟩
    simp only [recordKeys, List.mem_cons, List.not_mem_nil, or_false] at hkey
    rcases hkey with rfl | rfl | rfl | rfl | rfl <;> simp [sampleRecord, shuffledRecord]
  obtain ⟨hread, hall⟩ := records_read_back.2 [sampleRecord] (by decide)
  obtain ⟨hrecords, hothers, -⟩ := hall [sampleEntry] rfl
  exact ⟨records_read_back.1 [sampleEntry] (by decide), hread, hrecords,
    hothers [shuffledRecord] (.cons hsame .nil)⟩

/-- An object that names its category by a key. -/
def keyedRecord : List (String × Json) :=
  [("name", .string "g"), ("line", .integer 4), ("type", .object [("generator", .null)]),
    ("level", .integer 0), ("args", .array [])]

/-- A category is read from a key although no category is written that way. -/
theorem keyedRecord_read :
    listOfJson? (.array [.object keyedRecord]) =
        some [{ name := "g", line := 4, category := .generator, level := 0, args := [] }] ∧
      ∀ c : Category, ("type", Json.string c.word) ∉ keyedRecord := by
  refine ⟨by rfl, fun c => ?_⟩
  simp [keyedRecord]

end Entry

end ScriptOutline
