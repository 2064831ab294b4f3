import ScriptOutline.Proofs.Renditions

/-!
# Comments

Comments may stand between any two children of a node. Leaving out any of them, with all
that is below them, changes neither the code of a tree nor its outline. Main statement:
`ofTree_withoutComments`.
-/

namespace ScriptOutline

theorem Field.mem_all (g : Field) : g ∈ all := by
  cases g <;> decide

/-- Comments are extras that the grammar names. -/
def ParseTree.isComment (t : ParseTree) : Bool :=
  (t.kind == "comment" || t.kind == "html_comment") && t.info.named && t.info.extra

namespace Spot

/-! ## Leaving out comments -/

def designates (p c : Spot) : Bool :=
  Field.all.any fun g => (p.field? g).any fun d => d.address == c.address

/-- Whether a child is left out: a comment that is chosen and that no field leads to. -/
def leavesOut (chosen : Address → Bool) (p c : Spot) : Bool :=
  c.node.isComment && !p.designates c && chosen c.address

def withoutComments (chosen : Address → Bool) (p : Spot) : ParseTree :=
  .node p.node.info
    ((p.children.filter fun c => !p.leavesOut chosen c).attach.map fun c =>
      withoutComments chosen c.1)
termination_by p.node.size
decreasing_by exact size_lt_of_mem_children (List.mem_filter.mp c.2).1

theorem children_withoutComments (chosen : Address → Bool) (p : Spot) :
    (p.withoutComments chosen).children =
      (p.children.filter fun c => !p.leavesOut chosen c).map (withoutComments chosen) := by
  rw [withoutComments, ParseTree.children, List.map_subtype (fun _ _ => rfl),
    List.unattach_attach]

theorem info_withoutComments (chosen : Address → Bool) (p : Spot) :
    (p.withoutComments chosen).info = p.node.info := by
  rw [withoutComments]
  rfl

theorem designates_of_field? {c p : Spot} {g : Field} (h : p.field? g = some c) :
    p.designates c = true := by
  rw [designates, List.any_eq_true]
  exact ⟨g, g.mem_all, by simp [h]⟩

theorem faithful_withoutComments (chosen : Address → Bool) (p : Spot) :
    Faithful (withoutComments chosen) p := by
  refine faithful_of_children _ (info_withoutComments chosen p)
    (children_withoutComments chosen p) ?_ ?_
  · intro c _ _
    rw [info_withoutComments]
    exact .refl _
  · intro c _ hdropped
    simp only [leavesOut, ParseTree.isComment, Bool.not_eq_false', Bool.and_eq_true,
      Bool.not_eq_true'] at hdropped
    obtain ⟨⟨⟨⟨-, hnamed⟩, hextra⟩, hfree⟩, -⟩ := hdropped
    refine ⟨hnamed, hextra, fun g hg => ?_⟩
    rw [designates_of_field? hg] at hfree
    cases hfree

end Spot

namespace ParseTree

/-- A tree without the chosen comments; those that a field leads to stay. -/
def withoutComments (chosen : Address → Bool) (t : ParseTree) : ParseTree :=
  (Spot.root t).withoutComments chosen

/-- Comments leave no trace in the code of a tree, nor in its outline. -/
theorem ofTree_withoutComments (source : ByteArray) (chosen : Address → Bool) (t : ParseTree) :
    Code.ofTree source (t.withoutComments chosen) = Code.ofTree source t ∧
      (t.withoutComments chosen).outline source = t.outline source := by
  have hcode : Code.ofTree source (t.withoutComments chosen) = Code.ofTree source t := by
    have hrendition : (Code.ofTree source (t.withoutComments chosen)).mapSources id =
        (Code.ofTree source t).mapSources id :=
      Spot.mapSources_rendition
        (fun q => text_of_info_eq source (Spot.info_withoutComments chosen q))
        fun x _ => .inl (Spot.faithful_withoutComments chosen x.spot)
    rwa [Code.mapSources_id, Code.mapSources_id] at hrendition
  exact ⟨hcode, by rw [outline_eq, outline_eq, hcode]⟩

def commentedName : ParseTree :=
  node ⟨"parenthesized_expression", true, false, false, 0, 9, 0, []⟩
    [node ⟨"comment", true, true, false, 1, 7, 0, []⟩ [],
      node ⟨"identifier", true, false, false, 7, 8, 0, []⟩ []]

example : (commentedName.withoutComments fun _ => true).children.map kind = ["identifier"] := by
  decide +kernel

end ParseTree

end ScriptOutline
