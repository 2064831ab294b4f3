import Mathlib.Data.List.Forall2
import ScriptOutline.Proofs.LineFeeds

/-!
# Listings read back

The spaces at the front of a line of a listing give the level of its entry, the mark behind
them its category, and the number behind the last colon its line. All that stands between is
the signature, whatever characters it has. So a listing can be read, and equal listings are of
entries that agree in all this. Main statements: `ofListing?_listingAll` and
`listingAll_eq_iff`.
-/

namespace ScriptOutline

def Category.ofMark? (mark : Char) : Option Category :=
  all.find? fun c => c.mark == mark

theorem Category.ofMark?_mark (c : Category) : ofMark? c.mark = some c := by
  cases c <;> decide

theorem Category.mark_ne_space (c : Category) : c.mark ≠ ' ' := by
  cases c <;> decide

/-- What a line of a listing tells of an entry. -/
structure Headline where
  level : Nat
  category : Category
  signature : String
  line : Nat
deriving DecidableEq, Repr

namespace Headline

/-! ## Reading -/

/-- What stands in front of the last colon and the space before it, and the number behind. -/
def readNumber? (text : List Char) : Option (List Char × Nat) :=
  let digits := (text.reverse.takeWhile fun c => c != ':').reverse
  match text.reverse.dropWhile fun c => c != ':' with
  | ':' :: ' ' :: front =>
      if digits.all Char.isDigit then some (front.reverse, Nat.ofDigitChars 10 digits 0) else none
  | _ => none

def ofRest? (level : Nat) : List Char → Option Headline
  | mark :: ' ' :: text => do
      let category ← Category.ofMark? mark
      let (signature, line) ← readNumber? text
      return { level, category, signature := String.ofList signature, line }
  | _ => none

def ofLine? (line : List Char) : Option Headline :=
  ofRest? ((line.takeWhile fun c => c == ' ').length / 2) (line.dropWhile fun c => c == ' ')

def ofListing? (text : String) : Option (List Headline) :=
  (text.toList.splitOn '\n').dropLast.mapM ofLine?

/-- No digit is a colon, so the last colon is the one in front of the number. -/
theorem readNumber?_append (front : List Char) (number : Nat) :
    readNumber? (front ++ ' ' :: ':' :: Nat.toDigits 10 number) = some (front, number) := by
  have hdigit : ∀ c ∈ Nat.toDigits 10 number, c.isDigit = true := fun c hc =>
    Nat.isDigit_of_mem_toDigits (by decide) (by decide) hc
  have hall : (Nat.toDigits 10 number).all Char.isDigit = true := List.all_eq_true.mpr hdigit
  have hcolon : ∀ c ∈ (Nat.toDigits 10 number).reverse, (c != ':') = true := by
    intro c hc
    refine bne_iff_ne.mpr ?_
    rintro rfl
    exact absurd (hdigit _ (List.mem_reverse.mp hc)) (by decide)
  have hreverse : (front ++ ' ' :: ':' :: Nat.toDigits 10 number).reverse =
      (Nat.toDigits 10 number).reverse ++ ':' :: ' ' :: front.reverse := by
    simp
  rw [readNumber?, hreverse, List.takeWhile_append_of_pos hcolon,
    List.dropWhile_append_of_pos hcolon, List.takeWhile_cons_of_neg (by decide),
    List.dropWhile_cons_of_neg (by decide), List.append_nil, List.reverse_reverse]
  simp only [hall, if_true, Nat.ofDigitChars_ten_toDigits, List.reverse_reverse]

theorem ofLine?_replicate_append (level : Nat) (category : Category) (signature : String)
    (line : Nat) :
    ofLine? (List.replicate (2 * level) ' ' ++ category.mark :: ' ' ::
        (signature.toList ++ ' ' :: ':' :: Nat.toDigits 10 line)) =
      some { level, category, signature, line } := by
  have hspaces : ∀ c ∈ List.replicate (2 * level) ' ', (c == ' ') = true := by
    intro c hc
    exact beq_iff_eq.mpr (List.eq_of_mem_replicate hc)
  have hmark : (category.mark == ' ') = false := beq_false_of_ne category.mark_ne_space
  rw [ofLine?, List.takeWhile_append_of_pos hspaces, List.dropWhile_append_of_pos hspaces,
    List.takeWhile_cons_of_neg (by simp [hmark]), List.dropWhile_cons_of_neg (by simp [hmark]),
    List.append_nil, List.length_replicate, Nat.mul_div_cancel_left level (by decide)]
  simp [ofRest?, Category.ofMark?_mark, readNumber?_append]

end Headline

/-! ## Listings -/

theorem map_eq_map_iff_forall₂ {α β γ : Type} {f : α → γ} {g : β → γ} {first : List α}
    {second : List β} :
    first.map f = second.map g ↔ List.Forall₂ (fun a b => f a = g b) first second := by
  rw [← List.forall₂_eq_eq_eq, List.forall₂_map_left_iff, List.forall₂_map_right_iff]

namespace Entry

def headline (e : Entry) : Headline :=
  { level := e.level, category := e.category, signature := e.signature, line := e.line }

theorem toList_listing (e : Entry) :
    e.listing.toList =
      List.replicate (2 * e.level) ' ' ++ e.category.mark :: ' ' ::
        (e.signature.toList ++ ' ' :: ':' :: Nat.toDigits 10 e.line) ++ ['\n'] := by
  simp [listing, indent]

theorem ofLine?_dropLast_listing (e : Entry) :
    Headline.ofLine? e.listing.toList.dropLast = some e.headline := by
  rw [toList_listing, List.dropLast_concat]
  exact Headline.ofLine?_replicate_append e.level e.category e.signature e.line

/-- A listing of entries without line feeds is read back, line by line. -/
theorem ofListing?_listingAll {entries : List Entry} (h : ∀ e ∈ entries, e.lineFeeds = 0) :
    Headline.ofListing? (listingAll entries) = some (entries.map headline) := by
  have hread : (Headline.ofLine? ∘ fun e : Entry => e.listing.toList.dropLast) =
      fun e => pure e.headline := by
    funext e
    rw [Function.comp_apply, ofLine?_dropLast_listing]
    rfl
  rw [Headline.ofListing?, splitOn_listingAll h, List.dropLast_concat, List.mapM_map, hread,
    List.mapM_pure]
  rfl

/-- Entries that a listing does not tell apart. -/
structure SameHeadline (e f : Entry) : Prop where
  level : e.level = f.level
  category : e.category = f.category
  line : e.line = f.line
  signature : e.signature = f.signature

theorem headline_eq_iff {e f : Entry} : e.headline = f.headline ↔ SameHeadline e f := by
  rw [headline, headline, Headline.mk.injEq]
  constructor
  · rintro ⟨hlevel, hcategory, hsignature, hline⟩
    exact ⟨hlevel, hcategory, hline, hsignature⟩
  · rintro ⟨hlevel, hcategory, hline, hsignature⟩
    exact ⟨hlevel, hcategory, hsignature, hline⟩

theorem SameHeadline.listing_eq {e f : Entry} (h : SameHeadline e f) : e.listing = f.listing := by
  rw [listing, listing, indent, indent, h.level, h.category, h.line, h.signature]

/-- Listings of entries without line feeds are equal exactly if they have equally many entries,
which agree one by one in level, category, line and signature. -/
theorem listingAll_eq_iff {first second : List Entry} (hfirst : ∀ e ∈ first, e.lineFeeds = 0)
    (hsecond : ∀ e ∈ second, e.lineFeeds = 0) :
    listingAll first = listingAll second ↔ List.Forall₂ SameHeadline first second := by
  constructor
  · intro heq
    have hread := ofListing?_listingAll hfirst
    rw [heq, ofListing?_listingAll hsecond, Option.some_inj] at hread
    exact (map_eq_map_iff_forall₂.mp hread.symm).imp fun e f => headline_eq_iff.mp
  · intro hsame
    have hlines : first.map listing = second.map listing :=
      map_eq_map_iff_forall₂.mpr (hsame.imp fun e f h => h.listing_eq)
    rw [listingAll, listingAll, hlines]

/-- A name that ends like a line of a listing, and one argument that reads like two. -/
def sampleEntries : List Entry :=
  [⟨"g() :7", 3, .className, 1, []⟩, ⟨"f", 12, .publicName, 0, ["a, b"]⟩]

def sampleTwins : List Entry :=
  [⟨"g() :7", 3, .className, 1, []⟩, ⟨"f", 12, .publicName, 0, ["a", "b"]⟩]

theorem listingAll_eq_sample :
    (∀ e ∈ sampleEntries, e.lineFeeds = 0) ∧ (∀ e ∈ sampleTwins, e.lineFeeds = 0) ∧
      sampleEntries ≠ sampleTwins ∧
      listingAll sampleEntries = "  C g() :7() :3\n+ f(a, b) :12\n" ∧
      listingAll sampleTwins = "  C g() :7() :3\n+ f(a, b) :12\n" ∧
      List.Forall₂ SameHeadline sampleEntries sampleTwins :=
  ⟨by decide, by decide, by decide, by decide, by decide,
    (listingAll_eq_iff (by decide) (by decide)).mp (by decide)⟩

end Entry

end ScriptOutline
