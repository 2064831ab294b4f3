import Mathlib.Data.List.Lex
import Mathlib.Order.Lattice
import ScriptOutline.Path

/-!
# The order of paths

Paths are ordered step by step, and steps by the bytes that encode them. The order of texts
by their characters is the same, since the encoding keeps it. Names put behind a path become
its last steps. Main statements: `bytes_lt_of_lt` and `before_joinAll`.
-/

namespace ScriptOutline

namespace Text

/-! ## Bytes of texts -/

def bytes (text : String) : List UInt8 := text.toList.flatMap String.utf8EncodeChar

theorem ofNat_lt_ofNat_iff {m n : Nat} : UInt8.ofNat m < UInt8.ofNat n ↔ m % 256 < n % 256 := by
  rw [UInt8.lt_iff_toNat_lt, UInt8.toNat_ofNat', UInt8.toNat_ofNat']

theorem ofNat_eq_ofNat_iff {m n : Nat} : UInt8.ofNat m = UInt8.ofNat n ↔ m % 256 = n % 256 := by
  rw [← UInt8.toNat_inj, UInt8.toNat_ofNat', UInt8.toNat_ofNat']

/-- The encodings of two characters differ in a byte of the same order as the characters, so
that it does not matter what follows. -/
theorem utf8EncodeChar_append_lt {c d : Char} (h : c < d) (r s : List UInt8) :
    String.utf8EncodeChar c ++ r < String.utf8EncodeChar d ++ s := by
  have hcd : c.val.toNat < d.val.toNat := h
  have hd : d.val.toNat < 0x110000 := by
    have hvalid := d.valid
    simp only [UInt32.isValidChar, Nat.isValidChar] at hvalid
    omega
  -- Codes are cut into digits to the base 64; the marks on top leave room in a byte.
  have hdigits (n : Nat) : n / 4096 = n / 64 / 64 ∧ n / 262144 = n / 64 / 64 / 64 := by omega
  have hlast (n : Nat) : (n % 64 + 128) % 256 = n % 64 + 128 := by omega
  have htwo (n : Nat) : (n % 32 + 192) % 256 = n % 32 + 192 := by omega
  have hthree (n : Nat) : (n % 16 + 224) % 256 = n % 16 + 224 := by omega
  have hfour (n : Nat) : (n % 8 + 240) % 256 = n % 8 + 240 := by omega
  simp only [String.utf8EncodeChar]
  generalize c.val.toNat = m at *
  generalize d.val.toNat = n at *
  split_ifs <;>
    simp only [List.cons_append, List.nil_append, List.cons_lt_cons_iff, ofNat_lt_ofNat_iff,
      ofNat_eq_ofNat_iff, hlast, htwo, hthree, hfour, (hdigits _).1, (hdigits _).2] <;>
    omega

theorem bytes_lt_of_lt {left right : String} (h : left < right) : bytes left < bytes right := by
  have hchars : left.toList < right.toList := h
  rw [bytes, bytes]
  generalize left.toList = l at hchars
  generalize right.toList = r at hchars
  induction hchars with
  | nil =>
      rename_i c rest
      rw [List.flatMap_nil, List.flatMap_cons]
      cases hbytes : String.utf8EncodeChar c with
      | nil => exact absurd hbytes String.utf8EncodeChar_ne_nil
      | cons b bytes => exact .nil
  | cons hrest ih =>
      rw [List.flatMap_cons, List.flatMap_cons]
      exact List.Lex.append_left _ ih _
  | rel hfirst => exact utf8EncodeChar_append_lt hfirst _ _

end Text

namespace Path

/-! ## Names behind a path -/

/-- What a directory can call an entry. -/
structure IsName (name : String) : Prop where
  leads : isIdle name = false
  down : name ≠ ".."
  whole : '/' ∉ name.toList

instance (name : String) : Decidable (IsName name) :=
  decidable_of_iff (isIdle name = false ∧ name ≠ ".." ∧ '/' ∉ name.toList)
    ⟨fun h => ⟨h.1, h.2.1, h.2.2⟩, fun h => ⟨h.leads, h.down, h.whole⟩⟩

def joinAll (path : String) (names : List String) : String := names.foldl join path

theorem splitOn_of_isName {name : String} (h : IsName name) :
    name.toList.splitOn '/' = [name.toList] := by
  exact List.splitOn_eq_singleton h.whole

/-- A name behind a path is one step more. -/
theorem steps_join {name : String} (h : IsName name) (path : String) :
    steps (join path name) = steps path ++ [name] := by
  have hname : ([name.toList].map String.ofList).filter (fun piece => !isIdle piece) = [name] := by
    simp [h.leads]
  rw [join]
  split
  · rename_i hend
    rcases hend with rfl | hend
    · rw [String.empty_append, steps, pieces, splitOn_of_isName h, hname]
      rfl
    · obtain ⟨front, hfront⟩ := List.getLast?_eq_some_iff.mp hend
      rw [steps, steps, pieces, pieces, String.toList_append, hfront, List.append_assoc,
        List.singleton_append, List.splitOn_append_cons_self, List.splitOn_append_cons_self,
        splitOn_of_isName h, List.map_append, List.filter_append, hname, List.map_append,
        List.filter_append]
      simp [isIdle]
  · have hslash : "/".toList = ['/'] := rfl
    rw [steps, steps, pieces, pieces, String.append_assoc, String.toList_append,
      String.toList_append, hslash, List.singleton_append, List.splitOn_append_cons_self,
      splitOn_of_isName h, List.map_append, List.filter_append, hname]

theorem steps_joinAll {names : List String} (h : ∀ name ∈ names, IsName name) (path : String) :
    steps (joinAll path names) = steps path ++ names := by
  induction names generalizing path with
  | nil => simp [joinAll]
  | cons name rest ih =>
      obtain ⟨hname, hrest⟩ := List.forall_mem_cons.mp h
      rw [joinAll, List.foldl_cons, ← joinAll, ih hrest, steps_join hname, List.append_assoc,
        List.singleton_append]

/-! ## Order -/

/-- The order of paths: step by step, and of two different steps that with the smaller
bytes first. -/
def Before (left right : String) : Prop :=
  (steps left).map Text.bytes < (steps right).map Text.bytes

theorem map_bytes_lt {left right : List String} (h : left < right) :
    left.map Text.bytes < right.map Text.bytes := by
  induction h with
  | nil => exact .nil
  | cons _ ih => exact .cons ih
  | rel hfirst => exact .rel (Text.bytes_lt_of_lt hfirst)

/-- Below one directory the names decide. -/
theorem before_joinAll {left right : List String} (hleft : ∀ name ∈ left, IsName name)
    (hright : ∀ name ∈ right, IsName name) (h : left < right) (path : String) :
    Before (joinAll path left) (joinAll path right) := by
  rw [Before, steps_joinAll hleft, steps_joinAll hright, List.map_append, List.map_append]
  exact List.Lex.append_left _ (map_bytes_lt h) _

end Path

end ScriptOutline
