import Std.Data.String.ToNat
import RecordCodec.Compile.Names
import RecordCodec.Proofs.Tokens

set_option autoImplicit false

/-!
# Names of routines are distinct

Routines are numbered after a hash sign. Where no record is named like another one with a number,
the name of a routine tells the record and the number. Identifiers have no hash sign.
-/
namespace RecordCodec

namespace TypeExpr

/-- The text is read as a single name. -/
def IsIdentifier (name : String) : Prop := lex name = some (.ok [⟨.ident name, 0⟩])

theorem hash_not_mem_nameChars (s : List Char) : '#' ∉ (nameChars s).1 := by
  fun_induction nameChars s with
  | case1 => exact List.not_mem_nil
  | case2 => exact List.not_mem_nil
  | case3 c rest _ nameChar _ _ split ih =>
    rw [split] at ih
    intro h
    rcases List.mem_cons.1 h with rfl | h
    · revert nameChar
      decide
    · exact ih h
  | case4 => exact List.not_mem_nil

theorem hash_not_mem_ident {s rest : List Char} {size : Nat} {name : String}
    (h : nextToken s = .ok (.ident name, size, rest)) : '#' ∉ name.toList := by
  unfold nextToken at h
  split at h
  case h_8 c tail =>
    split at h
    · split at h <;> cases h
    · split at h
      · simp only at h
        split at h <;> cases h
      · split at h
        · cases h
          rw [String.toList_ofList]
          exact hash_not_mem_nameChars _
        · cases h
  all_goals cases h

theorem IsIdentifier.hash_not_mem {name : String} (h : IsIdentifier name) :
    '#' ∉ name.toList := by
  obtain ⟨_, _, _, next⟩ := exists_nextToken_of_mem h List.mem_cons_self
  exact hash_not_mem_ident next

end TypeExpr

namespace Compile.NameScope

theorem plainName_injective {direction : Direction} {a b : String}
    (h : plainName direction a = plainName direction b) : a = b := by
  unfold plainName at h
  rw [String.append_assoc, String.append_assoc] at h
  have chars := congrArg String.toList h
  simp only [String.toList_append, List.append_cancel_left_eq] at chars
  exact String.toList_inj.1 chars

theorem numbered_plainName (direction : Direction) (record : String) (n : Nat) :
    numbered (plainName direction record) n = plainName direction (numbered record n) := by
  unfold numbered plainName
  split <;> simp only [String.append_assoc]

theorem hash_mem_numbered {base : String} {n : Nat} (h : 1 < n) :
    '#' ∈ (numbered base n).toList := by
  have hash : ("#" : String).toList = ['#'] := rfl
  rw [numbered, if_neg (by omega)]
  simp only [String.toList_append, hash, List.append_assoc, List.mem_append, List.mem_singleton,
    true_or, or_true]

theorem hash_not_mem_toString (n : Nat) : '#' ∉ (toString n).toList := by
  intro mem
  rw [Nat.toString_eq_repr, Nat.toList_repr] at mem
  have digit := Nat.isDigit_of_mem_toDigits (by decide) (by decide) mem
  revert digit
  decide

theorem eq_of_append_hash_eq {a b c d : List Char} (hc : '#' ∉ c) (hd : '#' ∉ d)
    (h : a ++ '#' :: c = b ++ '#' :: d) : a = b ∧ c = d := by
  induction a generalizing b with
  | nil =>
    cases b with
    | nil => exact ⟨rfl, List.cons_inj_right _ |>.1 h⟩
    | cons x b =>
      cases h
      exact absurd (List.mem_append_right _ List.mem_cons_self) hc
  | cons x a ih =>
    cases b with
    | nil =>
      cases h
      exact absurd (List.mem_append_right _ List.mem_cons_self) hd
    | cons y b =>
      obtain ⟨rfl, rest⟩ := List.cons.inj h
      obtain ⟨rfl, same⟩ := ih rest
      exact ⟨rfl, same⟩

/-- A number follows the last hash sign. -/
theorem numbered_injective {a b : String} {m n : Nat} (hm : 1 < m) (hn : 1 < n)
    (h : numbered a m = numbered b n) : a = b ∧ m = n := by
  have chars := congrArg String.toList h
  have hash : ("#" : String).toList = ['#'] := rfl
  rw [numbered, numbered, if_neg (by omega), if_neg (by omega)] at chars
  simp only [String.toList_append, hash, List.append_assoc, List.singleton_append] at chars
  obtain ⟨plain, number⟩ :=
    eq_of_append_hash_eq (hash_not_mem_toString m) (hash_not_mem_toString n) chars
  exact ⟨String.toList_inj.1 plain, Nat.repr_injective (String.toList_inj.1 number)⟩

theorem eq_of_numbered_eq {base : String} {m n : Nat} (hm : 1 ≤ m) (hn : 1 ≤ n)
    (h : numbered base m = numbered base n) : m = n := by
  have longer : ∀ n, 1 < n → base ≠ numbered base n := by
    intro n more same
    have size := congrArg (fun name => name.toList.length) same
    have hash : ("#" : String).toList = ['#'] := rfl
    rw [numbered, if_neg (by omega)] at size
    simp only [String.toList_append, List.length_append, hash, List.length_singleton] at size
    omega
  rcases Nat.eq_or_lt_of_le hm with rfl | hm <;> rcases Nat.eq_or_lt_of_le hn with rfl | hn
  · rfl
  · exact absurd h (longer n hn)
  · exact absurd h.symm (longer m hm)
  · exact (numbered_injective hm hn h).2

end Compile.NameScope

namespace Schema

open Compile.NameScope (numbered)

variable {schema : Schema}

/-- The records of the schema have names that a type expression can mention. -/
def HasIdentifiers (schema : Schema) : Prop :=
  ∀ name record, schema.record? name = some record → TypeExpr.IsIdentifier name

/-- No record has the name of another one with a number. -/
def Unnumbered (schema : Schema) : Prop :=
  ∀ a b ra rb n, schema.record? a = some ra → schema.record? b = some rb → 1 < n →
    a ≠ numbered b n

/-- A number stands after a hash sign, which no name has. -/
theorem unnumbered_of_hash
    (h : ∀ name record, schema.record? name = some record → '#' ∉ name.toList) :
    schema.Unnumbered := by
  rintro _ b ra rb n isA - more rfl
  exact h _ ra isA (Compile.NameScope.hash_mem_numbered more)

theorem HasIdentifiers.unnumbered (h : schema.HasIdentifiers) : schema.Unnumbered :=
  unnumbered_of_hash fun name record found => (h name record found).hash_not_mem

theorem Unnumbered.eq_of_numbered_eq (h : schema.Unnumbered) {a b : String} {ra rb : RecordType}
    (isA : schema.record? a = some ra) (isB : schema.record? b = some rb)
    {direction : Compile.Direction} {m n : Nat} (hm : 1 ≤ m) (hn : 1 ≤ n)
    (same : numbered (Compile.NameScope.plainName direction a) m =
      numbered (Compile.NameScope.plainName direction b) n) : a = b ∧ m = n := by
  rw [Compile.NameScope.numbered_plainName, Compile.NameScope.numbered_plainName] at same
  have same := Compile.NameScope.plainName_injective same
  rcases Nat.eq_or_lt_of_le hm with rfl | hm <;> rcases Nat.eq_or_lt_of_le hn with rfl | hn
  · exact ⟨same, rfl⟩
  · exact absurd same (h a b ra rb n isA isB hn)
  · exact absurd same.symm (h b a rb ra m isB isA hm)
  · exact Compile.NameScope.numbered_injective hm hn same

end Schema
end RecordCodec
