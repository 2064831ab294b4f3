/-!
# Addresses in trees

The address of a node lists the positions of the nodes on the way to it, each among
its neighbours. In lexicographic order addresses are in preorder: what stands above
comes first, and of two ways that part the one that takes the smaller position.
-/

namespace ScriptOutline

abbrev Address := List Nat

namespace Address

/-- The addresses on the way to an address, from the root down. -/
def above : Address → List Address
  | [] => []
  | i :: rest => [] :: (above rest).map (i :: ·)

theorem mem_above_iff {a b : Address} : b ∈ a.above ↔ b <+: a ∧ b ≠ a := by
  induction a generalizing b with
  | nil => simp [above]
  | cons i rest ih =>
      cases b with
      | nil => simp [above]
      | cons j b =>
          simp only [above, List.mem_cons, List.mem_map, reduceCtorEq, false_or, ih,
            List.cons_prefix_cons, List.cons.injEq, ne_eq]
          constructor
          · rintro ⟨b, ⟨hb, hne⟩, rfl, rfl⟩
            exact ⟨⟨rfl, hb⟩, fun h => hne h.2⟩
          · rintro ⟨⟨rfl, hb⟩, hne⟩
            exact ⟨b, ⟨hb, fun h => hne ⟨rfl, h⟩⟩, rfl, rfl⟩

theorem above_append (a b : Address) : (a ++ b).above = a.above ++ b.above.map (a ++ ·) := by
  induction a with
  | nil => simp [above]
  | cons i rest ih => simp [above, ih, Function.comp_def]

/-- Above an address stand those above a proper stem of it, the stem, and others that
the stem leads on to. -/
theorem exists_above_eq {a b : Address} (h : b <+: a) (hne : b ≠ a) :
    ∃ between, a.above = b.above ++ b :: between ∧ ∀ c ∈ between, c ≠ b := by
  obtain ⟨rest, rfl⟩ := h
  cases rest with
  | nil => exact (hne (List.append_nil b).symm).elim
  | cons i rest =>
      refine ⟨(above rest).map fun c => b ++ i :: c, ?_, ?_⟩
      · simp [above_append, above, Function.comp_def]
      · intro c hc
        obtain ⟨d, -, rfl⟩ := List.mem_map.mp hc
        simp

/-! ## Order -/

/-- Two addresses agree up to a point and go on there to positions that stand in a
relation. -/
def Fork (R : Nat → Nat → Prop) (a b : Address) : Prop :=
  ∃ stem i j, R i j ∧ stem ++ [i] <+: a ∧ stem ++ [j] <+: b

/-- The first address leads on to the second, or the two fork. -/
def Precedes (R : Nat → Nat → Prop) (a b : Address) : Prop :=
  (∃ i, a ++ [i] <+: b) ∨ Fork R a b

variable {R : Nat → Nat → Prop} {a b a' b' : Address} {i j : Nat}

theorem fork_append_singleton (h : R i j) : Fork R (a ++ [i]) (a ++ [j]) :=
  ⟨a, i, j, h, List.prefix_rfl, List.prefix_rfl⟩

theorem Fork.mono (h : Fork R a b) (ha : a <+: a') (hb : b <+: b') : Fork R a' b' := by
  obtain ⟨stem, i, j, hij, hi, hj⟩ := h
  exact ⟨stem, i, j, hij, hi.trans ha, hj.trans hb⟩

theorem append_singleton_lt_iff : a ++ [i] < a ++ [j] ↔ i < j := by
  induction a with
  | nil => simp [List.cons_lt_cons_iff]
  | cons k a ih => simp [ih]

theorem lt_of_leads (h : a ++ [i] <+: b) : a < b := by
  obtain ⟨rest, rfl⟩ := h
  rw [List.append_assoc]
  induction a with
  | nil => exact List.nil_lt_cons i rest
  | cons k a ih => simpa using ih

/-- What lies in order between a stem and an address starts with the stem. -/
theorem prefix_of_lt_of_lt {c : Address} (h : a <+: c) (hab : a < b) (hbc : b < c) : a <+: b := by
  induction a generalizing b c with
  | nil => exact List.nil_prefix
  | cons i a ih =>
      obtain ⟨rest, rfl⟩ := h
      cases b with
      | nil => exact (List.not_lt_nil _ hab).elim
      | cons k b =>
          rw [List.cons_append, List.cons_lt_cons_iff] at hbc
          rw [List.cons_lt_cons_iff] at hab
          have hk : k = i := by omega
          subst hk
          have hab' : a < b := by simpa using hab
          have hbc' : b < a ++ rest := by simpa using hbc
          exact List.cons_prefix_cons.mpr ⟨rfl, ih (List.prefix_append a rest) hab' hbc'⟩

theorem lt_of_prefix (h : a <+: b) (hne : a ≠ b) : a < b := by
  obtain ⟨rest, rfl⟩ := h
  cases rest with
  | nil => exact (hne (List.append_nil a).symm).elim
  | cons i rest => exact lt_of_leads ⟨rest, List.append_assoc a [i] rest⟩

theorem Fork.lt (h : Fork (· < ·) a b) : a < b := by
  obtain ⟨stem, i, j, hij, ⟨left, rfl⟩, ⟨right, rfl⟩⟩ := h
  rw [List.append_assoc, List.append_assoc]
  exact List.append_left_lt (List.cons_lt_cons_iff.mpr (.inl hij))

theorem Fork.ne (h : Fork (· ≠ ·) a b) : a ≠ b := by
  obtain ⟨stem, i, j, hij, ⟨left, rfl⟩, ⟨right, heq⟩⟩ := h
  rintro rfl
  rw [List.append_assoc, List.append_assoc] at heq
  exact hij (List.cons.inj (List.append_cancel_left heq)).1.symm

theorem Precedes.lt (h : Precedes (· < ·) a b) : a < b := by
  rcases h with ⟨i, hi⟩ | h
  · exact lt_of_leads hi
  · exact h.lt

theorem Precedes.ne (h : Precedes (· ≠ ·) a b) : a ≠ b := by
  rcases h with ⟨i, hi⟩ | h
  · rintro rfl
    have hlength := hi.length_le
    rw [List.length_append, List.length_singleton] at hlength
    omega
  · exact h.ne

/-- Neighbours listed with their positions stand in the order of these. -/
theorem pairwise_snd_lt_zipIdx {α : Type} (nodes : List α) :
    nodes.zipIdx.Pairwise fun a b => a.2 < b.2 := by
  have hpositions : (nodes.zipIdx.map Prod.snd).Pairwise (· < ·) := by
    rw [List.zipIdx_map_snd]
    exact List.pairwise_lt_range'
  exact List.pairwise_map.mp hpositions

end Address

end ScriptOutline
