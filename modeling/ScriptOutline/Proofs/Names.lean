import ScriptOutline.Proofs.SourceOrder

/-!
# Names and categories

A function without a name of its own is named by the nearest node around it that
gives a hint. Both are read off the tree alone, and so is what makes a function a
generator. Main statement: `outline_names`.
-/

namespace ScriptOutline.ParseTree

/-! ## Own names and hints -/

def ownName? (source : ByteArray) (t : ParseTree) : Option String :=
  (t.field? .name).bind (identifier? source)

theorem exists_identifier_of_assignedName? {source : ByteArray} {t : ParseTree} {name : String}
    (h : t.assignedName? source = some name) :
    ∃ u ∈ t.preorder, u.identifier? source = some name := by
  obtain ⟨left, hleft, hname⟩ := Option.bind_eq_some_iff.mp h
  have htarget : left.unwrap.preorder ⊆ t.preorder :=
    List.Subset.trans (preorder_unwrap_subset left)
      (preorder_subset_of_mem_children (mem_children_of_field? hleft))
  split at hname
  · exact ⟨left.unwrap, htarget left.unwrap.self_mem_preorder, hname⟩
  · split at hname
    · obtain ⟨property, hproperty, hname⟩ := Option.bind_eq_some_iff.mp hname
      have hmem := mem_preorder_of_mem_children (mem_children_of_field? hproperty)
      exact ⟨property, htarget hmem, hname⟩
    · cases hname

/-- A hint is the plain name of some node below. -/
theorem exists_identifier_of_givenHint? {source : ByteArray} {t : ParseTree} {name : String}
    (h : t.givenHint? source = some name) :
    ∃ u ∈ t.preorder, u.identifier? source = some name := by
  unfold givenHint? at h
  split at h
  · obtain ⟨declared, hdeclared, hname⟩ := Option.bind_eq_some_iff.mp h
    split at hname
    · exact ⟨declared, mem_preorder_of_mem_children (mem_children_of_field? hdeclared), hname⟩
    · cases hname
  · obtain ⟨expression, hexpression, hname⟩ := Option.bind_eq_some_iff.mp h
    split at hname
    · obtain ⟨u, hu, hname⟩ := exists_identifier_of_assignedName? hname
      have hmem := mem_children_of_firstPlain? hexpression
      exact ⟨u, preorder_subset_of_mem_children hmem (preorder_unwrap_subset expression hu), hname⟩
    · cases hname
  · obtain ⟨key, hkey, hname⟩ := Option.bind_eq_some_iff.mp h
    exact ⟨key, mem_preorder_of_mem_children (Code.mem_children_of_key? hkey), hname⟩
  · obtain ⟨left, hleft, hname⟩ := Option.bind_eq_some_iff.mp h
    split at hname
    · exact ⟨left, mem_preorder_of_mem_children (mem_children_of_field? hleft), hname⟩
    · cases hname
  · cases h

theorem ne_empty_of_givenHint? {source : ByteArray} {t : ParseTree} {name : String}
    (h : t.givenHint? source = some name) : name ≠ "" := by
  obtain ⟨u, -, hname⟩ := exists_identifier_of_givenHint? h
  exact ne_empty_of_identifier? hname

theorem givenHint?_of_passed (source : ByteArray) {m : ParseTree}
    (h : m.kind ∈ Spot.passedKinds) : m.givenHint? source = none := by
  simp only [Spot.passedKinds, List.mem_cons, List.not_mem_nil, or_false] at h
  rcases h with h | h | h | h | h | h <;> (rw [givenHint?, h]; rfl)

/-! ## Generators -/

def functionKinds : List String :=
  ["function_declaration", "function_expression", "function", "generator_function_declaration",
    "generator_function", "arrow_function", "method_definition"]

theorem isFunction_iff {t : ParseTree} : t.isFunction = true ↔ t.kind ∈ functionKinds := by
  constructor
  · intro h
    rw [isFunction, beq_iff_eq] at h
    unfold Construct.ofKind at h
    split at h
    all_goals first
      | (rename_i hkind; simp [functionKinds, hkind]; done)
      | cases h
  · intro h
    have hkinds : ∀ kind ∈ functionKinds, (Construct.ofKind kind == .function) = true := by decide
    exact hkinds t.kind h

/-- Whether the kind of a node begins as those of generators do or one of its children
is a bare asterisk. -/
def MarksGenerator (t : ParseTree) : Prop :=
  "generator_".toList <+: t.kind.toList ∨ ∃ c ∈ t.children, c.info.named = false ∧ c.kind = "*"

instance (t : ParseTree) : Decidable t.MarksGenerator :=
  inferInstanceAs (Decidable ("generator_".toList <+: t.kind.toList ∨
    ∃ c ∈ t.children, c.info.named = false ∧ c.kind = "*"))

theorem isGenerator_eq_decide {t : ParseTree} (h : t.isFunction = true) :
    t.isGenerator = decide t.MarksGenerator := by
  have hkinds : ∀ kind ∈ functionKinds,
      (kind = "generator_function_declaration" ∨ kind = "generator_function" ↔
        "generator_".toList <+: kind.toList) := by decide
  have hkind := hkinds t.kind (isFunction_iff.mp h)
  rw [Bool.eq_iff_iff, decide_eq_true_iff, MarksGenerator, ← hkind]
  simp [isGenerator, or_assoc]

end ScriptOutline.ParseTree

/-! ## Names of entries -/

namespace ScriptOutline.Spot

/-- The hint that an arrival brings is that of the nearest node around its spot that
gives one, as long as no list of parameters gives one. -/
theorem hint_of_mem_arrivals {source : ByteArray} {t : ParseTree}
    (lists : ∀ u ∈ t.preorder, ∀ l ∈ u.field? .parameters, l.givenHint? source = none)
    {a : Arrival} (ha : a ∈ (root t).arrivals source "" 0) :
    a.hint = (a.spot.hint? source).getD "" := by
  refine (arrivals_closed (S := fun q hint _ => q ∈ t.spots ∧ hint = (q.hint? source).getD "") ?_
    ⟨self_mem_within (root t), rfl⟩ ha).2
  rintro q hint level c ⟨hq, rfl⟩ hc
  have hbelow := below_of_mem_slots hc
  have hpassed : ∀ m, Passed q.node m → m.givenHint? source = none := by
    rintro m (hlist | hkind)
    · exact lists q.node (node_mem_preorder hq) m hlist
    · exact ParseTree.givenHint?_of_passed source hkind
  have hnearest : c.hint? source = (q.node.givenHint? source).or (q.hint? source) :=
    hbelow.findSome?_above hpassed
  refine ⟨hbelow.mem_spots hq, ?_⟩
  rw [hnearest, hintBelow]
  cases q.node.givenHint? source <;> rfl

theorem ne_empty_of_hint? {source : ByteArray} {p : Spot} {name : String}
    (h : p.hint? source = some name) : name ≠ "" := by
  obtain ⟨m, -, hm⟩ := List.exists_of_findSome?_eq_some h
  exact ParseTree.ne_empty_of_givenHint? hm

end ScriptOutline.Spot

namespace ScriptOutline.ParseTree

theorem name_entry (source : ByteArray) (a : Arrival) :
    (a.entry source).name =
      (a.spot.node.ownName? source).getD (if a.hint = "" then placeholder else a.hint) := by
  rw [Arrival.entry, Code.FunctionDef.entry, Code.FunctionDef.nameIn, Code.FunctionDef.map,
    Code.functionOf, ownName?]
  cases (a.spot.node.field? .name).bind (identifier? source) <;> rfl

theorem name_of_mem_functionArrivals {source : ByteArray} {t : ParseTree}
    (lists : ∀ u ∈ t.preorder, ∀ l ∈ u.field? .parameters, l.givenHint? source = none)
    {a : Arrival} (h : a ∈ t.functionArrivals source) :
    (a.entry source).name =
      (a.spot.node.ownName? source).getD ((a.spot.hint? source).getD placeholder) := by
  have hhint := Spot.hint_of_mem_arrivals lists (List.mem_filter.mp h).1
  rw [name_entry, hhint]
  cases hnearest : a.spot.hint? source with
  | none => rfl
  | some name => rw [Option.getD_some, Option.getD_some, if_neg (Spot.ne_empty_of_hint? hnearest)]

theorem category_of_mem_functionArrivals {source : ByteArray} {t : ParseTree} {a : Arrival}
    (h : a ∈ t.functionArrivals source) :
    (a.entry source).category =
      Category.of (a.entry source).name (decide a.spot.node.MarksGenerator) := by
  rw [← isGenerator_eq_decide (List.mem_filter.mp h).2]
  rfl

def sampleStatementSource : ByteArray := "(a.b) = function* () \x7b\x7d".toUTF8

/-- A statement that assigns a generator to a member in parentheses. -/
def sampleStatement : ParseTree :=
  node ⟨"expression_statement", true, false, false, 0, 23, 0, []⟩
    [node ⟨"assignment_expression", true, false, false, 0, 23, 0, []⟩
      [node ⟨"parenthesized_expression", true, false, false, 0, 5, 0, [.left]⟩
          [node ⟨"member_expression", true, false, false, 1, 4, 0, []⟩
            [node ⟨"identifier", true, false, false, 1, 2, 0, [.object]⟩ [],
              node ⟨"property_identifier", true, false, false, 3, 4, 0, [.property]⟩ []]],
        node ⟨"generator_function", true, false, false, 8, 23, 0, [.right]⟩
          [node ⟨"*", false, false, false, 16, 17, 0, []⟩ [],
            node ⟨"formal_parameters", true, false, false, 18, 20, 0, [.parameters]⟩ [],
            node ⟨"statement_block", true, false, false, 21, 23, 0, [.body]⟩ []]]]

/-- The property of the member gives the hint, whatever the parentheses around it. -/
example :
    sampleStatement.outline sampleStatementSource = [⟨"b", 1, .generator, 0, []⟩] := by
  decide +kernel

end ScriptOutline.ParseTree
