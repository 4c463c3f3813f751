import Mathlib.Data.List.DropRight
import RecordCodec.Converter.Decode
import RecordCodec.Proofs.NumberTexts
import RecordCodec.Proofs.Scalars

set_option autoImplicit false

/-!
# Items that are joined to a text

A text for a container has its items between commas, and one for a mapping has in each item a key
and a value with a sign between them. Items are trimmed when they are read, and blank text has none.
So items come back that have no blanks around them and no comma in them, unless all their text is
blank.
-/
namespace RecordCodec.Text

/-- A text that stands for itself between commas. -/
structure IsItem (s : String) : Prop where
  trimmed : trim s.toList = s.toList
  whole : ',' ∉ s.toList

def joined (items : List String) : String := String.intercalate "," items

def pairText (key value : String) : String := key ++ "=" ++ value

theorem splitOn_eq (sep : Char) (s : List Char) : splitOn sep s = s.splitOn sep := by
  induction s with
  | nil => rfl
  | cons c rest ih =>
    have more : rest.splitOn sep ≠ [] := List.splitOn_ne_nil sep rest
    rw [splitOn, List.splitOn, List.splitOnP_cons_eq_if_modifyHead, ← List.splitOn, ih]
    by_cases same : c = sep
    · simp [same]
    · rw [if_neg same, if_neg (by simpa using same)]
      cases parts : rest.splitOn sep with
      | nil => exact absurd parts more
      | cons part others => rfl

theorem splitOnce_append {sep : Char} {before : List Char} (h : sep ∉ before) (after : List Char) :
    splitOnce sep (before ++ sep :: after) = some (before, after) := by
  induction before with
  | nil => simp [splitOnce]
  | cons c rest ih =>
    rw [List.mem_cons, not_or] at h
    rw [List.cons_append, splitOnce, if_neg (Ne.symm h.1), ih h.2]
    rfl

theorem trim_eq_self_iff {s : List Char} : trim s = s ↔ trimStart s = s ∧ trimEnd s = s := by
  constructor
  · intro h
    -- neither trimming takes anything away if both together do not
    have suffix : trimStart s <:+ s := List.dropWhile_suffix isBlank
    have ends : (trim s).length ≤ (trimStart s).length := by
      have := (List.dropWhile_suffix (l := (trimStart s).reverse) isBlank).length_le
      simpa [trim, trimEnd] using this
    rw [h] at ends
    have start : trimStart s = s := suffix.eq_of_length_le ends
    exact ⟨start, by rwa [trim, start] at h⟩
  · rintro ⟨start, ends⟩
    rw [trim, start, ends]

theorem trimStart_append_cons {sep : Char} {before : List Char} (visible : isBlank sep = false)
    (start : trimStart before = before) (after : List Char) :
    trimStart (before ++ sep :: after) = before ++ sep :: after := by
  cases before with
  | nil => exact List.dropWhile_cons_of_neg (by simp [visible])
  | cons c rest =>
    have shown := List.dropWhile_eq_self_iff.1 start rest.length.zero_lt_succ
    exact List.dropWhile_cons_of_neg shown

theorem trim_append_cons {sep : Char} {before after : List Char} (visible : isBlank sep = false)
    (h : trim before = before) (h' : trim after = after) :
    trim (before ++ sep :: after) = before ++ sep :: after := by
  obtain ⟨start, -⟩ := trim_eq_self_iff.1 h
  obtain ⟨-, ends⟩ := trim_eq_self_iff.1 h'
  refine trim_eq_self_iff.2 ⟨trimStart_append_cons visible start after, ?_⟩
  refine List.rdropWhile_eq_self_iff.2 fun _ => ?_
  cases after with
  | nil => simp [visible]
  | cons c rest =>
    have shown := List.rdropWhile_eq_self_iff.1 ends (List.cons_ne_nil c rest)
    simpa using shown

theorem listItems_joined {items : List String} (clean : ∀ s ∈ items, IsItem s)
    (visible : items ≠ [] → trim (joined items).toList ≠ []) :
    listItems (joined items) = items := by
  by_cases none : items = []
  · rw [none]
    rfl
  · have parts : splitOn ',' (joined items).toList = items.map String.toList := by
      rw [splitOn_eq, joined, String.toList_intercalate]
      refine List.splitOn_intercalate ',' (fun s mem => ?_) (by simpa using none)
      obtain ⟨item, isItem, rfl⟩ := List.mem_map.1 mem
      exact (clean item isItem).whole
    rw [listItems, if_neg (by simpa using visible none), parts, List.map_map]
    refine (List.map_congr_left fun s mem => ?_).trans (List.map_id items)
    simp [(clean s mem).trimmed]

theorem isItem_pairText {key value : String} (isKey : IsItem key) (isValue : IsItem value) :
    IsItem (pairText key value) := by
  have chars : (pairText key value).toList = key.toList ++ '=' :: value.toList := by
    simp [pairText]
  refine ⟨?_, ?_⟩ <;> rw [chars]
  · exact trim_append_cons rfl isKey.trimmed isValue.trimmed
  · simp [isKey.whole, isValue.whole]

theorem textEntry?_pairText {key value : String} (isKey : IsItem key) (isValue : IsItem value)
    (unsigned : '=' ∉ key.toList) :
    Converter.textEntry? (pairText key value) = some (key, .string value) := by
  have chars : (pairText key value).toList = key.toList ++ '=' :: value.toList := by
    simp [pairText]
  rw [Converter.textEntry?, chars, splitOnce_append unsigned]
  simp [isKey.trimmed, isValue.trimmed]

theorem isBlank_of_trim_eq_nil {s : List Char} (h : trim s = []) {c : Char} (mem : c ∈ s) :
    isBlank c = true := by
  have after : ∀ c ∈ trimStart s, isBlank c = true := List.rdropWhile_eq_nil_iff.1 h
  have start : trimStart s = [] := by
    by_contra some
    have visible : isBlank ((trimStart s).head some) = false :=
      List.head_dropWhile_not isBlank some
    rw [after _ (List.head_mem some)] at visible
    cases visible
  exact List.dropWhile_eq_nil_iff.1 start c mem

/-- The text of pairs is never blank, as there is a sign in it. -/
theorem trim_joined_pairs {pairs : List (String × String)} (some : pairs ≠ []) :
    trim (joined (pairs.map fun e => pairText e.1 e.2)).toList ≠ [] := by
  have sign : '=' ∈ (joined (pairs.map fun e => pairText e.1 e.2)).toList := by
    cases pairs with
    | nil => exact absurd rfl some
    | cons e rest => cases rest <;> simp [joined, pairText, String.toList_intercalate]
  intro blank
  cases isBlank_of_trim_eq_nil blank sign

theorem isBlank_of_isNumberChar {c : Char} (h : TypeExpr.isNumberChar c = true) :
    isBlank c = false := by
  simp only [TypeExpr.isNumberChar, Bool.or_eq_true, beq_iff_eq, or_assoc] at h
  rcases h with digit | rfl | rfl | rfl | rfl | rfl | rfl
  case inl =>
    obtain ⟨least, most⟩ : 48 ≤ c.toNat ∧ c.toNat ≤ 57 := by
      simpa [Char.isDigit, UInt32.le_iff_toNat_le] using digit
    simp only [isBlank, Bool.or_eq_false_iff, Bool.and_eq_false_iff, decide_eq_false_iff_not,
      beq_eq_false_iff_ne]
    omega
  all_goals rfl

theorem isItem_of_isNumeral {s : String} (h : TypeExpr.IsNumeral s.toList) : IsItem s where
  trimmed := trim_of_not_blank fun c mem => isBlank_of_isNumberChar (h.chars c mem).1
  whole mem := absurd (h.chars _ mem).1 (by decide)

end RecordCodec.Text
