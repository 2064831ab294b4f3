import ScriptOutline.Proofs.Positions

/-!
# Nesting from levels

An outline is flat, yet its levels alone say which function stands in which: the
parent of an entry is the closest one before it that is one level up. Main statement:
`walk_levels_determine_nesting`.
-/

namespace ScriptOutline

/-! ## Parents from levels -/

namespace Levels

/-- The closest position before another at which a level stands. -/
def closestBefore? (levels : List Nat) (level : Nat) : Nat → Option Nat
  | 0 => none
  | i + 1 => if levels[i]? = some level then some i else closestBefore? levels level i

/-- The parent of a position: the closest one before it that is one level up. On the
base level there are no parents. -/
def parent? (base : Nat) (levels : List Nat) (i : Nat) : Option Nat :=
  levels[i]?.bind fun level =>
    if base < level then closestBefore? levels (level - 1) i else none

/-- The forest that levels describe, as the list of the parents of its nodes. -/
def forest (base : Nat) (levels : List Nat) : List (Option Nat) :=
  (List.range levels.length).map (parent? base levels)

theorem closestBefore?_eq_some {levels : List Nat} {level i j : Nat} (hlt : j < i)
    (hj : levels[j]? = some level)
    (hbetween : ∀ k, j < k → k < i → levels[k]? ≠ some level) :
    closestBefore? levels level i = some j := by
  induction i with
  | zero => omega
  | succ i ih =>
      rw [closestBefore?]
      by_cases hi : j = i
      · rw [← hi, if_pos hj]
      · rw [if_neg (hbetween i (by omega) (by omega))]
        exact ih (by omega) fun k hjk hki => hbetween k hjk (by omega)

end Levels

namespace Code

/-! ## The functions of code and what encloses them -/

def functionAddresses (c : Code) : List Address :=
  c.addresses.filter fun a => (c.functionAt? a).isSome

/-- The address of the innermost function around an address. -/
def enclosing? (c : Code) (a : Address) : Option Address :=
  a.above.reverse.find? fun b => (c.functionAt? b).isSome

/-- The functions of code as a forest: for each of them in order the place, among all
of them, of the innermost function around it. -/
def functionForest (c : Code) : List (Option Nat) :=
  c.functionAddresses.map fun a => (c.enclosing? a).map fun b => c.functionAddresses.idxOf b

theorem mem_functionAddresses_iff {c : Code} {a : Address} :
    a ∈ c.functionAddresses ↔ (c.functionAt? a).isSome := by
  rw [functionAddresses, List.mem_filter, mem_addresses_iff]
  exact ⟨fun h => h.2, fun h => ⟨Option.isSome_of_isSome_bind h, h⟩⟩

theorem pairwise_lt_functionAddresses (c : Code) : c.functionAddresses.Pairwise (· < ·) :=
  c.pairwise_lt_addresses.filter _

theorem nodup_functionAddresses (c : Code) : c.functionAddresses.Nodup := by
  apply c.pairwise_lt_functionAddresses.imp
  rintro a b hlt rfl
  exact List.lt_irrefl a hlt

section Enclosing

variable {c : Code} {a b : Address}

theorem functionsAbove_of_enclosing?_eq_none (h : c.enclosing? a = none) :
    c.functionsAbove a = 0 := by
  rw [enclosing?, List.find?_eq_none] at h
  rw [functionsAbove, List.countP_eq_zero]
  exact fun b hb => h b (List.mem_reverse.mpr hb)

theorem isSome_of_enclosing? (h : c.enclosing? a = some b) : (c.functionAt? b).isSome := by
  rw [enclosing?] at h
  simpa using List.find?_some h

theorem prefix_of_enclosing? (h : c.enclosing? a = some b) : b <+: a ∧ b ≠ a :=
  Address.mem_above_iff.mp (List.mem_reverse.mp (List.mem_of_find?_eq_some h))

theorem lt_of_enclosing? (h : c.enclosing? a = some b) : b < a :=
  Address.lt_of_prefix (prefix_of_enclosing? h).1 (prefix_of_enclosing? h).2

/-- A function counts for everything inside it. -/
theorem functionsAbove_lt_of_prefix (hb : (c.functionAt? b).isSome) (h : b <+: a) (hne : b ≠ a) :
    c.functionsAbove b < c.functionsAbove a := by
  obtain ⟨between, habove, -⟩ := Address.exists_above_eq h hne
  rw [functionsAbove, functionsAbove, habove, List.countP_append, List.countP_cons, if_pos hb]
  omega

/-- The innermost function around an address is the only one that counts for the
address and not for itself. -/
theorem functionsAbove_of_enclosing? (h : c.enclosing? a = some b) :
    c.functionsAbove a = c.functionsAbove b + 1 := by
  obtain ⟨hstem, hne⟩ := prefix_of_enclosing? h
  have hb := isSome_of_enclosing? h
  obtain ⟨between, habove, hbetween⟩ := Address.exists_above_eq hstem hne
  have hnone : between.reverse.find? (fun d => (c.functionAt? d).isSome) = none := by
    rw [enclosing?, habove, List.reverse_append, List.reverse_cons, List.append_assoc,
      List.find?_append, Option.or_eq_some_iff] at h
    rcases h with h | ⟨hnone, -⟩
    · have hmem := List.mem_of_find?_eq_some h
      exact (hbetween b (List.mem_reverse.mp hmem) rfl).elim
    · exact hnone
  rw [List.find?_eq_none] at hnone
  have hcount : between.countP (fun d => (c.functionAt? d).isSome) = 0 :=
    List.countP_eq_zero.mpr fun d hd => hnone d (List.mem_reverse.mpr hd)
  rw [functionsAbove, functionsAbove, habove, List.countP_append, List.countP_cons, if_pos hb,
    hcount, Nat.zero_add]

/-- Between the function around an address and the address itself all addresses lie
inside the function. -/
theorem functionsAbove_le_of_between {x : Address} (h : c.enclosing? a = some b) (hbx : b < x)
    (hxa : x < a) : c.functionsAbove a ≤ c.functionsAbove x := by
  have hstem := Address.prefix_of_lt_of_lt (prefix_of_enclosing? h).1 hbx hxa
  have hne : b ≠ x := by
    rintro rfl
    exact List.lt_irrefl b hbx
  have hinside := functionsAbove_lt_of_prefix (isSome_of_enclosing? h) hstem hne
  rw [functionsAbove_of_enclosing? h]
  exact hinside

end Enclosing

/-! ## The order of functions and their levels -/

section Order

variable {c : Code} {i j : Nat}

theorem functionAddresses_lt_iff (hi : i < c.functionAddresses.length)
    (hj : j < c.functionAddresses.length) :
    c.functionAddresses[i] < c.functionAddresses[j] ↔ i < j := by
  have hsorted := List.pairwise_iff_getElem.mp c.pairwise_lt_functionAddresses
  refine ⟨fun h => ?_, hsorted i j hi hj⟩
  rcases Nat.lt_trichotomy i j with hlt | heq | hgt
  · exact hlt
  · subst heq
    exact (List.lt_irrefl _ h).elim
  · exact (List.lt_irrefl _ (List.lt_trans h (hsorted j i hj hi hgt))).elim

/-- The function around a function comes before it. -/
theorem exists_position_of_enclosing? {b : Address} (hi : i < c.functionAddresses.length)
    (h : c.enclosing? c.functionAddresses[i] = some b) :
    ∃ (j : Nat) (hj : j < c.functionAddresses.length), c.functionAddresses[j] = b ∧ j < i := by
  have hmem := mem_functionAddresses_iff.mpr (isSome_of_enclosing? h)
  obtain ⟨j, hj, hb⟩ := List.getElem_of_mem hmem
  refine ⟨j, hj, hb, (functionAddresses_lt_iff hj hi).mp ?_⟩
  rw [hb]
  exact lt_of_enclosing? h

theorem functionsAbove_first (h : 0 < c.functionAddresses.length) :
    c.functionsAbove c.functionAddresses[0] = 0 := by
  cases henclosing : c.enclosing? c.functionAddresses[0] with
  | none => exact functionsAbove_of_enclosing?_eq_none henclosing
  | some b =>
      obtain ⟨j, -, -, hlt⟩ := exists_position_of_enclosing? h henclosing
      omega

/-- From a function to the next one the number of functions around grows by one at
most. -/
theorem functionsAbove_next_le (h : i + 1 < c.functionAddresses.length) :
    c.functionsAbove c.functionAddresses[i + 1] ≤
      c.functionsAbove c.functionAddresses[i] + 1 := by
  cases henclosing : c.enclosing? c.functionAddresses[i + 1] with
  | none => rw [functionsAbove_of_enclosing?_eq_none henclosing]; omega
  | some b =>
      obtain ⟨j, hj, rfl, hlt⟩ := exists_position_of_enclosing? h henclosing
      by_cases hlast : j = i
      · subst hlast
        exact Nat.le_of_eq (functionsAbove_of_enclosing? henclosing)
      · -- Then function `i` stands between the two, and so inside function `j`.
        have hbefore := (functionAddresses_lt_iff hj (Nat.lt_of_succ_lt h)).mpr (by omega)
        have hafter := (functionAddresses_lt_iff (Nat.lt_of_succ_lt h) h).mpr (Nat.lt_succ_self i)
        have hle := functionsAbove_le_of_between henclosing hbefore hafter
        omega

def functionLevels (c : Code) (level : Nat) : List Nat :=
  c.functionAddresses.map fun a => level + c.functionsAbove a

/-- Levels say where the function around a function stands. -/
theorem parent?_functionLevels (level : Nat) (hi : i < c.functionAddresses.length) :
    Levels.parent? level (c.functionLevels level) i =
      (c.enclosing? c.functionAddresses[i]).map fun b => c.functionAddresses.idxOf b := by
  have hlevel {k : Nat} (hk : k < c.functionAddresses.length) :
      (c.functionLevels level)[k]? = some (level + c.functionsAbove c.functionAddresses[k]) := by
    rw [functionLevels, List.getElem?_map, List.getElem?_eq_getElem hk, Option.map_some]
  rw [Levels.parent?, hlevel hi, Option.bind_some]
  cases henclosing : c.enclosing? c.functionAddresses[i] with
  | none => rw [functionsAbove_of_enclosing?_eq_none henclosing, if_neg (by omega), Option.map_none]
  | some b =>
      obtain ⟨j, hj, rfl, hlt⟩ := exists_position_of_enclosing? hi henclosing
      have hcount := functionsAbove_of_enclosing? henclosing
      rw [if_pos (by omega), Option.map_some, c.nodup_functionAddresses.idxOf_getElem j hj]
      apply Levels.closestBefore?_eq_some hlt
      · rw [hlevel hj, hcount]
        congr 1
      · -- What stands between lies inside function `j`, so it is on a deeper level.
        intro k hjk hki
        have hk : k < c.functionAddresses.length := Nat.lt_trans hki hi
        have hle := functionsAbove_le_of_between henclosing
          ((functionAddresses_lt_iff hj hk).mpr hjk) ((functionAddresses_lt_iff hk hi).mpr hki)
        rw [hlevel hk, Ne, Option.some.injEq]
        omega

theorem head?_functionLevels (level : Nat) : ∀ k ∈ (c.functionLevels level).head?, k = level := by
  intro k hk
  rw [functionLevels, List.head?_map] at hk
  obtain ⟨a, ha, rfl⟩ := Option.map_eq_some_iff.mp hk
  rw [List.head?_eq_getElem?] at ha
  obtain ⟨hlength, rfl⟩ := List.getElem?_eq_some_iff.mp ha
  rw [functionsAbove_first hlength, Nat.add_zero]

theorem isChain_functionLevels (level : Nat) :
    (c.functionLevels level).IsChain fun k next => level ≤ next ∧ next ≤ k + 1 := by
  rw [List.isChain_iff_getElem]
  intro i hi
  have hlength : i + 1 < c.functionAddresses.length := by simpa [functionLevels] using hi
  have hnext := functionsAbove_next_le hlength
  simp only [functionLevels, List.getElem_map]
  omega

theorem forest_functionLevels (level : Nat) :
    Levels.forest level (c.functionLevels level) = c.functionForest := by
  have hlength : (c.functionLevels level).length = c.functionAddresses.length := List.length_map _
  apply List.ext_getElem
  · simp [Levels.forest, functionForest, hlength]
  · intro i hi hi'
    have hbound : i < c.functionAddresses.length := by simpa [functionForest] using hi'
    simp [Levels.forest, functionForest, parent?_functionLevels level hbound]

end Order

/-! ## The outline -/

/-- The outline has one entry for each function, in order. -/
theorem map_some_outline (c : Code) (hint : String) (level : Nat) :
    (c.outline hint level).map some = c.functionAddresses.map (c.entryAt? hint level) := by
  rw [outline_eq_filterMap, functionAddresses]
  induction c.addresses with
  | nil => rfl
  | cons a rest ih =>
      cases hfunction : c.functionAt? a with
      | none =>
          have hnone : c.entryAt? hint level a = none := by rw [entryAt?, hfunction]; rfl
          simp [hnone, hfunction, ih]
      | some f =>
          obtain ⟨e, hsome⟩ : ∃ e, c.entryAt? hint level a = some e :=
            ⟨_, by rw [entryAt?, hfunction]; rfl⟩
          simp [hsome, hfunction, ih]

theorem level_of_entryAt? {c : Code} {hint : String} {level : Nat} {a : Address} {e : Entry}
    (h : c.entryAt? hint level a = some e) : e.level = level + c.functionsAbove a := by
  obtain ⟨f, -, rfl⟩ := Option.map_eq_some_iff.mp h
  rfl

theorem map_level_outline (c : Code) (hint : String) (level : Nat) :
    (c.outline hint level).map Entry.level = c.functionLevels level := by
  have hentries := c.map_some_outline hint level
  apply List.ext_getElem?
  intro i
  have hentry := congrArg (fun entries => entries[i]?) hentries
  simp only [List.getElem?_map] at hentry
  rw [functionLevels, List.getElem?_map, List.getElem?_map]
  cases ha : c.functionAddresses[i]? with
  | none => simpa [ha] using hentry
  | some a =>
      rw [ha] at hentry
      obtain ⟨e, he, hae⟩ := Option.map_eq_some_iff.mp hentry
      rw [he, Option.map_some, Option.map_some, level_of_entryAt? hae.symm]

/-- A walk has one entry for each function, in order. The first stands on the level
around the code, no other below it, and none more than one level deeper than the entry
before it. The levels alone give back which function is the innermost around which. -/
theorem walk_levels_determine_nesting (c : Code) (hint : String) (level : Nat) :
    c.functionAddresses.Pairwise (· < ·) ∧
      (∀ a, a ∈ c.functionAddresses ↔ (c.functionAt? a).isSome) ∧
      (c.walk [] hint level).map some = c.functionAddresses.map (c.entryAt? hint level) ∧
      (∀ k ∈ ((c.walk [] hint level).map Entry.level).head?, k = level) ∧
      ((c.walk [] hint level).map Entry.level).IsChain
        (fun k next => level ≤ next ∧ next ≤ k + 1) ∧
      Levels.forest level ((c.walk [] hint level).map Entry.level) = c.functionForest := by
  have hwalk : c.walk [] hint level = c.outline hint level := c.walk_eq_append [] hint level
  rw [hwalk, map_level_outline]
  exact ⟨c.pairwise_lt_functionAddresses, fun _ => mem_functionAddresses_iff,
    c.map_some_outline hint level, head?_functionLevels level, isChain_functionLevels level,
    forest_functionLevels level⟩

end Code

end ScriptOutline
