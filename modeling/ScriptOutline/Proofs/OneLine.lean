import ScriptOutline.Proofs.ArgumentTexts
import ScriptOutline.Proofs.LineFeeds
import ScriptOutline.Proofs.Names

/-!
# One line for each entry

Names and compacted texts bring no line feeds into a listing, but the value of a literal
may: an escape in a string can stand for one. Main statement:
`listing_one_line_per_entry_iff`.
-/

namespace ScriptOutline.ParseTree

def NamesOnOneLine (source : ByteArray) (t : ParseTree) : Prop :=
  ∀ u ∈ t.preorder, u.kind ∈ identifierKinds ∨ u.kind = "this" →
    Text.lineFeeds (u.text source) = 0

instance (source : ByteArray) (t : ParseTree) : Decidable (t.NamesOnOneLine source) :=
  inferInstanceAs (Decidable (∀ u ∈ t.preorder, u.kind ∈ identifierKinds ∨ u.kind = "this" →
    Text.lineFeeds (u.text source) = 0))

def defaultLiteral? (source : ByteArray) (t : ParseTree) : Option String :=
  t.default?.bind (literal? source)

def literalLineFeeds (source : ByteArray) (t : ParseTree) : Nat :=
  ((t.defaultLiteral? source).map Text.lineFeeds).getD 0

variable {source : ByteArray} {t u : ParseTree}

/-! ## Names -/

theorem NamesOnOneLine.of_mem (h : t.NamesOnOneLine source) (hu : u ∈ t.preorder) :
    u.NamesOnOneLine source :=
  fun v hv => h v (preorder_subset_of_mem hu hv)

theorem NamesOnOneLine.of_mem_children (h : t.NamesOnOneLine source) (hu : u ∈ t.children) :
    u.NamesOnOneLine source :=
  h.of_mem (mem_preorder_of_mem_children hu)

theorem NamesOnOneLine.lineFeeds_identifier? (h : t.NamesOnOneLine source) (hu : u ∈ t.preorder)
    {name : String} (hname : u.identifier? source = some name) : Text.lineFeeds name = 0 := by
  unfold identifier? at hname
  split at hname
  · rename_i hcond
    cases hname
    exact h u hu (.inl hcond.1)
  · cases hname

/-! ## Arguments -/

theorem mem_preorder_of_mem_formalParameters (h : u ∈ t.formalParameters) :
    u ∈ t.preorder := by
  unfold formalParameters at h
  split at h
  · rename_i list hlist
    have hmem := mem_preorder_of_mem_children (mem_children_of_mem_plainChildren h)
    exact preorder_subset_of_mem_children (mem_children_of_field? hlist) hmem
  · rw [Option.mem_toList] at h
    exact mem_preorder_of_mem_children (mem_children_of_field? h)

theorem mem_preorder_of_binding? (h : t.binding? = some u) : u ∈ t.preorder := by
  unfold binding? at h
  split at h
  · exact mem_preorder_of_mem_children (mem_children_of_field? h)
  · split at h
    · exact mem_preorder_of_mem_children (mem_children_of_field? h)
    · cases h
      exact t.self_mem_preorder

theorem NamesOnOneLine.lineFeeds_bindingName (h : t.NamesOnOneLine source) :
    Text.lineFeeds (Code.bindingName source t) = 0 := by
  fun_induction Code.bindingName source t with
  | case1 t hplain =>
      have hkind : t.kind = "identifier" ∨ t.kind = "this" := by
        simpa [isPlainBinding] using hplain
      exact h t t.self_mem_preorder
        (hkind.imp_left fun hidentifier => by rw [hidentifier]; decide)
  | case2 t hplain hrest inner hinner ih =>
      have hdots : Text.lineFeeds "..." = 0 := rfl
      rw [Text.lineFeeds_append, hdots, ih (h.of_mem_children (mem_children_of_firstPlain? hinner))]
  | case3 => exact Text.lineFeeds_compact _ _
  | case4 => exact Text.lineFeeds_compact _ _

theorem NamesOnOneLine.lineFeeds_boundName (h : t.NamesOnOneLine source) :
    Text.lineFeeds (t.boundName source) = 0 := by
  rw [boundName]
  cases hbinding : t.binding? with
  | none => rfl
  | some b => exact (h.of_mem (mem_preorder_of_binding? hbinding)).lineFeeds_bindingName

theorem lineFeeds_defaultText (source : ByteArray) (t : ParseTree) :
    Text.lineFeeds (t.defaultText source) = ((t.literal? source).map Text.lineFeeds).getD 0 := by
  rw [defaultText]
  cases t.literal? source with
  | none => exact Text.lineFeeds_compact _ _
  | some value => rfl

/-- A parameter is written on one line, apart from the value of a literal default. -/
theorem NamesOnOneLine.lineFeeds_argument (h : t.NamesOnOneLine source) :
    Text.lineFeeds (t.argument source) = t.literalLineFeeds source := by
  rw [argument, literalLineFeeds, defaultLiteral?]
  cases t.default? with
  | none => exact h.lineFeeds_boundName
  | some d =>
      have hequals : Text.lineFeeds "=" = 0 := rfl
      rw [Text.lineFeeds_append, Text.lineFeeds_append, h.lineFeeds_boundName, hequals,
        lineFeeds_defaultText, Nat.zero_add, Option.bind_some]

/-! ## Entries -/

section Entries

variable {a : Arrival}

theorem NamesOnOneLine.lineFeeds_hint (h : t.NamesOnOneLine source)
    (ha : a ∈ (Spot.root t).arrivals source "" 0) : Text.lineFeeds a.hint = 0 := by
  refine (Spot.arrivals_closed (S := fun q hint _ => q ∈ t.spots ∧ Text.lineFeeds hint = 0) ?_
    ⟨Spot.self_mem_within (Spot.root t), rfl⟩ ha).2
  rintro q hint level c ⟨hq, hhint⟩ hc
  refine ⟨(Spot.below_of_mem_slots hc).mem_spots hq, ?_⟩
  rw [Spot.hintBelow]
  cases hgiven : q.node.givenHint? source with
  | none => exact hhint
  | some name =>
      -- The node that gives the name may lie beside the way that the hint goes down.
      obtain ⟨u, hu, hname⟩ := exists_identifier_of_givenHint? hgiven
      exact h.lineFeeds_identifier? (preorder_subset_of_mem (Spot.node_mem_preorder hq) hu) hname

theorem NamesOnOneLine.lineFeeds_name (h : t.NamesOnOneLine source)
    (ha : a ∈ (Spot.root t).arrivals source "" 0) :
    Text.lineFeeds (a.entry source).name = 0 := by
  rw [name_entry]
  cases hown : a.spot.node.ownName? source with
  | none =>
      show Text.lineFeeds (if a.hint = "" then placeholder else a.hint) = 0
      split
      · rfl
      · exact h.lineFeeds_hint ha
  | some name =>
      obtain ⟨u, hu, hname⟩ := Option.bind_eq_some_iff.mp hown
      have hnode := Spot.node_mem_preorder (Spot.mem_within_of_mem_arrivals ha)
      have hmem := mem_preorder_of_mem_children (mem_children_of_field? hu)
      exact h.lineFeeds_identifier? (preorder_subset_of_mem hnode hmem) hname

/-- The line feeds of an entry are those of the literals among the defaults. -/
theorem NamesOnOneLine.lineFeeds_entry (h : t.NamesOnOneLine source)
    (ha : a ∈ (Spot.root t).arrivals source "" 0) :
    (a.entry source).lineFeeds =
      (a.spot.node.formalParameters.map (literalLineFeeds source)).sum := by
  have hnode := Spot.node_mem_preorder (Spot.mem_within_of_mem_arrivals ha)
  have hargument : ∀ e ∈ a.spot.node.formalParameters,
      Text.lineFeeds (e.argument source) = e.literalLineFeeds source := by
    intro e he
    have hmem := preorder_subset_of_mem hnode (mem_preorder_of_mem_formalParameters he)
    exact (h.of_mem hmem).lineFeeds_argument
  rw [Entry.lineFeeds, h.lineFeeds_name ha, a.args_entry, List.map_map, Nat.zero_add]
  exact congrArg List.sum (List.map_congr_left hargument)

end Entries

theorem literalLineFeeds_eq_zero_iff :
    t.literalLineFeeds source = 0 ↔
      ∀ value, t.defaultLiteral? source = some value → '\n' ∉ value.toList := by
  rw [literalLineFeeds]
  cases t.defaultLiteral? source with
  | none => simp
  | some value => simp [Text.lineFeeds_eq_zero_iff]

/-! ## The listing of an outline -/

theorem NamesOnOneLine.forall_lineFeeds_eq_zero_iff (h : t.NamesOnOneLine source) :
    (∀ e ∈ t.outline source, e.lineFeeds = 0) ↔
      ∀ a ∈ t.functionArrivals source, ∀ e ∈ a.spot.node.formalParameters,
        ∀ value, e.defaultLiteral? source = some value → '\n' ∉ value.toList := by
  rw [outline_eq_map_entry, List.forall_mem_map]
  refine forall₂_congr fun a ha => ?_
  rw [h.lineFeeds_entry (List.mem_filter.mp ha).1, List.sum_eq_zero_iff_forall_eq_nat,
    List.forall_mem_map]
  exact forall₂_congr fun e _ => literalLineFeeds_eq_zero_iff

/-- Suppose no plain name has a line feed. Then the listing of an outline has as many line
feeds as the outline has entries exactly if no literal that is the default of a parameter
has one in its value, and it falls into the lines of the entries exactly then. -/
theorem listing_one_line_per_entry_iff (source : ByteArray) (t : ParseTree)
    (names : t.NamesOnOneLine source) :
    (Text.lineFeeds (Entry.listingAll (t.outline source)) = (t.outline source).length ↔
        ∀ a ∈ t.functionArrivals source, ∀ e ∈ a.spot.node.formalParameters,
          ∀ value, e.defaultLiteral? source = some value → '\n' ∉ value.toList) ∧
      (Text.lineFeeds (Entry.listingAll (t.outline source)) = (t.outline source).length →
        (Entry.listingAll (t.outline source)).toList.splitOn '\n' =
          (t.outline source).map (fun e => e.listing.toList.dropLast) ++ [[]]) := by
  have hcount : Text.lineFeeds (Entry.listingAll (t.outline source)) =
      (t.outline source).length ↔ ∀ e ∈ t.outline source, e.lineFeeds = 0 := by
    rw [Entry.lineFeeds_listingAll, Nat.add_eq_left, List.sum_eq_zero_iff_forall_eq_nat,
      List.forall_mem_map]
  refine ⟨hcount.trans names.forall_lineFeeds_eq_zero_iff, fun h => ?_⟩
  exact Entry.splitOn_listingAll (hcount.mp h)

theorem listing_sampleStatement_one_line :
    sampleStatement.NamesOnOneLine sampleStatementSource ∧
      (Entry.listingAll (sampleStatement.outline sampleStatementSource)).toList.splitOn '\n' =
        (sampleStatement.outline sampleStatementSource).map
          (fun e => e.listing.toList.dropLast) ++ [[]] :=
  ⟨by decide, (listing_one_line_per_entry_iff sampleStatementSource sampleStatement
    (by decide)).2 (by decide +kernel)⟩

def escapedDefaultSource : ByteArray := "(a = '\\n') => 0".toUTF8

def escapedDefault : ParseTree :=
  node ⟨"arrow_function", true, false, false, 0, 15, 0, []⟩
    [node ⟨"formal_parameters", true, false, false, 0, 10, 0, [.parameters]⟩
        [node ⟨"assignment_pattern", true, false, false, 1, 9, 0, []⟩
          [node ⟨"identifier", true, false, false, 1, 2, 0, [.left]⟩ [],
            node ⟨"string", true, false, false, 5, 9, 0, [.right]⟩ []]],
      node ⟨"number", true, false, false, 14, 15, 0, [.body]⟩ []]

/-- The only entry of this outline takes two lines of the listing. -/
theorem listing_escapedDefault :
    escapedDefault.NamesOnOneLine escapedDefaultSource ∧
      (escapedDefault.outline escapedDefaultSource).length = 1 ∧
      Entry.listingAll (escapedDefault.outline escapedDefaultSource) =
        "~ function(a=\n) :1\n" ∧
      Text.lineFeeds (Entry.listingAll (escapedDefault.outline escapedDefaultSource)) = 2 := by
  have houtline : escapedDefault.outline escapedDefaultSource =
      [⟨"function", 1, .unnamed, 0, ["a=\n"]⟩] := by decide +kernel
  rw [houtline]
  exact ⟨by decide, rfl, by decide, by decide⟩

end ScriptOutline.ParseTree
