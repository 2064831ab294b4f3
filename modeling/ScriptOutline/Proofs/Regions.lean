import Mathlib.Logic.Relation
import ScriptOutline.Proofs.Arrivals

/-!
# Regions without constructs

Where the nodes of a tree stand for nothing of their own, as those do that hold what a
parser could not read, the outline comes to all that is plain and to nothing else.
Main statement: `hasEntry_iff_forall_isPlain`.
-/

namespace ScriptOutline

def ParseTree.isPlain (t : ParseTree) : Bool := t.info.named && !t.info.extra

namespace Spot

/-! ## Entries of spots -/

/-- The outline of a tree has an entry that was made at a spot. No two spots share an
entry, as its place in the outline gives the arrival and so the spot. -/
def HasEntry (source : ByteArray) (t : ParseTree) (p : Spot) : Prop :=
  ∃ (i : Nat) (a : Arrival), (t.functionArrivals source)[i]? = some a ∧ a.spot = p ∧
    (t.outline source)[i]? = some (a.entry source)

variable {source : ByteArray} {t : ParseTree} {c p : Spot}

/-- What has an entry are the functions that the outline comes to. -/
theorem hasEntry_iff : p.HasEntry source t ↔
    p.node.isFunction = true ∧ ∃ a ∈ (root t).arrivals source "" 0, a.spot = p := by
  constructor
  · rintro ⟨i, a, ha, rfl, -⟩
    obtain ⟨harrival, hfunction⟩ := List.mem_filter.mp (List.mem_of_getElem? ha)
    exact ⟨hfunction, a, harrival, rfl⟩
  · rintro ⟨hfunction, a, harrival, rfl⟩
    have hmem : a ∈ t.functionArrivals source := List.mem_filter.mpr ⟨harrival, hfunction⟩
    obtain ⟨i, hi⟩ := List.mem_iff_getElem?.mp hmem
    refine ⟨i, a, hi, rfl, ?_⟩
    rw [ParseTree.outline_eq_map_entry, List.getElem?_map, hi, Option.map_some]

/-! ## Nested spots -/

/-- A plain child of a node that stands for nothing of its own. -/
def Nests (p c : Spot) : Prop :=
  Construct.ofKind p.node.kind = .other ∧ c ∈ p.plainChildren

theorem slots_of_other (source : ByteArray) (h : Construct.ofKind p.node.kind = .other) :
    p.slots source = p.plainChildren := by
  rw [slots, h]

/-- The outline comes to all that is nested in a spot that it comes to. -/
theorem exists_arrival_of_nests {hint : String} {level : Nat} {q : Spot} {a : Arrival}
    (ha : a ∈ q.arrivals source hint level) (h : Relation.ReflTransGen Nests a.spot c) :
    ∃ b ∈ q.arrivals source hint level, b.spot = c := by
  induction h with
  | refl => exact ⟨a, ha, rfl⟩
  | tail _ hnests ih =>
      obtain ⟨b, hb, rfl⟩ := ih
      refine exists_arrival_of_mem_slots hb ?_
      rw [slots_of_other source hnests.1]
      exact hnests.2

/-! ## Ways from the root -/

/-- The nodes on the way from the root to a spot, the root left out. -/
def wayFromRoot (p : Spot) : List ParseTree := (p.node :: p.above).dropLast

theorem wayFromRoot_of_mem_children (h : c ∈ p.children) :
    c.wayFromRoot = c.node :: p.wayFromRoot := by
  rw [wayFromRoot, above_of_mem_children h]
  rfl

theorem mem_plainChildren_iff : c ∈ p.plainChildren ↔ c ∈ p.children ∧ c.node.isPlain = true :=
  List.mem_filter

theorem reflTransGen_of_mem_within (h : c ∈ p.within) :
    Relation.ReflTransGen (fun q d => d ∈ q.children) p c := by
  induction p using inductionOnSize with
  | step p ih =>
      rw [within_eq] at h
      rcases List.mem_cons.mp h with rfl | h
      · exact .refl
      · obtain ⟨d, hd, hc⟩ := List.mem_flatMap.mp h
        exact .head hd (ih d (size_lt_of_mem_children hd) hc)

theorem nests_of_forall_isPlain (hp : p ∈ t.spots)
    (hkinds : ∀ m ∈ p.above, Construct.ofKind m.kind = .other)
    (hplain : ∀ m ∈ p.wayFromRoot, m.isPlain = true) :
    Relation.ReflTransGen Nests (root t) p := by
  have hway : Relation.ReflTransGen (fun q d => d ∈ q.children) (root t) p :=
    reflTransGen_of_mem_within hp
  clear hp
  induction hway with
  | refl => exact .refl
  | @tail q c _ hc ih =>
      rw [above_of_mem_children hc] at hkinds
      rw [wayFromRoot_of_mem_children hc] at hplain
      obtain ⟨hkind, hkinds⟩ := List.forall_mem_cons.mp hkinds
      obtain ⟨hchild, hplain⟩ := List.forall_mem_cons.mp hplain
      exact .tail (ih hkinds hplain) ⟨hkind, mem_plainChildren_iff.mpr ⟨hc, hchild⟩⟩

/-- No way on which nodes stand for nothing of their own leads the outline past a node
that is not plain. -/
theorem forall_isPlain_of_mem_arrivals {a : Arrival} (ha : a ∈ (root t).arrivals source "" 0)
    (hkinds : ∀ m ∈ a.spot.above, Construct.ofKind m.kind = .other) :
    ∀ m ∈ a.spot.wayFromRoot, m.isPlain = true := by
  refine arrivals_closed (S := fun q _ _ => (∀ m ∈ q.above, Construct.ofKind m.kind = .other) →
    ∀ m ∈ q.wayFromRoot, m.isPlain = true) ?_ ?_ ha hkinds
  · intro q hint level c hq hc hkinds
    obtain ⟨passed, habove, -⟩ := (below_of_mem_slots hc).exists_above
    -- The way to `c` passes `q`, of which the slots therefore are the plain children.
    have hother : Construct.ofKind q.node.kind = .other := hkinds q.node (by simp [habove])
    rw [slots_of_other source hother] at hc
    obtain ⟨hchild, hplain⟩ := mem_plainChildren_iff.mp hc
    rw [above_of_mem_children hchild] at hkinds
    rw [wayFromRoot_of_mem_children hchild]
    exact List.forall_mem_cons.mpr ⟨hplain, hq (List.forall_mem_cons.mp hkinds).2⟩
  · intro _ m hm
    cases hm

/-- A function around which no node stands for anything of its own has an entry exactly
if all nodes on the way to it are plain: named and no extras. -/
theorem hasEntry_iff_forall_isPlain (source : ByteArray) (t : ParseTree) (p : Spot)
    (hp : p ∈ t.spots) (hfunction : p.node.isFunction = true)
    (hkinds : ∀ m ∈ p.above, Construct.ofKind m.kind = .other) :
    p.HasEntry source t ↔
      ∀ m ∈ p.wayFromRoot, m.info.named = true ∧ m.info.extra = false := by
  have hplain (m : ParseTree) :
      m.info.named = true ∧ m.info.extra = false ↔ m.isPlain = true := by
    simp [ParseTree.isPlain]
  simp only [hplain]
  constructor
  · intro hentry
    obtain ⟨-, a, ha, rfl⟩ := hasEntry_iff.mp hentry
    exact forall_isPlain_of_mem_arrivals ha hkinds
  · intro hway
    have hself := self_mem_arrivals source "" 0 (root t)
    have hreached := exists_arrival_of_nests hself (nests_of_forall_isPlain hp hkinds hway)
    exact hasEntry_iff.mpr ⟨hfunction, hreached⟩

end Spot

/-! ## A source that ends too early -/

namespace ParseTree

def unfinishedSource : ByteArray := "`unterminated $\x7bfunction f() \x7b\x7d".toUTF8

/-- A function in a template string that is never closed. The parser keeps what it read
in an error, which may or may not be an extra. -/
def unfinished (extra : Bool) : ParseTree :=
  node ⟨"program", true, false, false, 0, 31, 0, []⟩
    [node ⟨"ERROR", true, extra, false, 0, 31, 0, []⟩
      [node ⟨"string_fragment", true, false, false, 1, 14, 0, []⟩ [],
        node ⟨"function_expression", true, false, false, 16, 31, 0, []⟩
          [node ⟨"identifier", true, false, false, 25, 26, 0, [.name]⟩ [],
            node ⟨"formal_parameters", true, false, false, 26, 28, 0, [.parameters]⟩ [],
            node ⟨"statement_block", true, false, false, 29, 31, 0, [.body]⟩ []]]]

def unfinishedFunction (extra : Bool) : Spot :=
  (unfinished extra).spots.getD 3 (Spot.root (unfinished extra))

theorem unfinishedFunction_mem_spots (extra : Bool) :
    unfinishedFunction extra ∈ (unfinished extra).spots :=
  List.mem_of_getElem? (show (unfinished extra).spots[3]? = some _ from rfl)

theorem hasEntry_unfinishedFunction :
    (unfinishedFunction false).HasEntry unfinishedSource (unfinished false) :=
  (Spot.hasEntry_iff_forall_isPlain unfinishedSource (unfinished false) (unfinishedFunction false)
    (unfinishedFunction_mem_spots false) (by decide) (by decide)).mpr (by decide)

/-- An error that is an extra is dropped with everything in it, although it is named and
no comment. -/
theorem outline_unfinished_of_extra :
    unfinishedFunction true ∈ (unfinished true).spots ∧
      (unfinishedFunction true).node.isFunction = true ∧
      (∀ m ∈ (unfinishedFunction true).node :: (unfinishedFunction true).above,
        m.info.named = true ∧ m.kind ≠ "comment" ∧ m.kind ≠ "html_comment") ∧
      (∀ m ∈ (unfinishedFunction true).above,
        Construct.ofKind m.kind = .other ∧ m.kind ≠ "parenthesized_expression") ∧
      (unfinished true).outline unfinishedSource = [] := by
  refine ⟨unfinishedFunction_mem_spots true, by decide, by decide, by decide, ?_⟩
  rw [outline_eq_map_entry, functionArrivals, Spot.arrivals_eq]
  rfl

end ParseTree

end ScriptOutline
