import RecordCodec.Proofs.Equality

set_option autoImplicit false

/-!
# Literals and variants are read as they were written

Both are matched by value first, before any text. The value of a variant is that of no other one.
-/
namespace RecordCodec

namespace Json.IsLiteral

variable {v w : Json}

theorem proper (h : v.IsLiteral) : v.Proper := by
  cases v with
  | null => exact .null
  | bool b => exact .bool b
  | number n => exact .number n
  | string s => exact .string s
  | array items => exact h.elim
  | object members => exact h.elim

theorem of_same (h : v.IsLiteral) (same : v.same w = true) : w.IsLiteral := by
  cases v with
  | null => cases w <;> simp_all [Json.same, IsLiteral]
  | bool b => cases w <;> simp_all [Json.same, IsLiteral]
  | string s => cases w <;> simp_all [Json.same, IsLiteral]
  | number n =>
    cases w with
    | number m =>
      cases n with
      | whole n =>
        cases m with
        | whole m =>
          have eq : n = m := by simpa [Json.same, Number.same] using same
          exact eq ▸ h
        | float y => trivial
      | float x =>
        cases m with
        | whole m => simp [Json.same, Number.same] at same
        | float y => trivial
    | _ => simp [Json.same] at same
  | array items => exact h.elim
  | object members => exact h.elim

theorem toJson_ofScalar (h : v.IsLiteral) : (Instance.ofScalar v).toJson = v := by
  cases v with
  | number n =>
    cases n with
    | whole n =>
      have inRange : n.val < 0x8000000000000000 := h
      have known : (Number.whole n).toInt64? = some (Int64.ofInt n.val) := by
        rw [Number.toInt64?, if_pos inRange]
      have value : (Int64.ofInt n.val).toInt = n.val :=
        Int64.toInt_ofInt_of_le n.inRange.1 inRange
      simp [Instance.ofScalar, known, Instance.toJson, Json.ofInt64, value]
    | float x => rfl
  | array items => exact h.elim
  | object members => exact h.elim
  | _ => rfl

end Json.IsLiteral

theorem Json.contains_iff {values : List Json} {v : Json} :
    Json.contains values v = true ↔ ∃ w ∈ values, w.same v = true := by
  simp [Json.contains]

namespace Converter

theorem decodeLiteral_encodeLiteral {values : List Json} (literals : ∀ v ∈ values, v.IsLiteral)
    {v : Json} (listed : v ∈ values ∨ Json.contains values v = true) :
    encodeLiteral values (.ofScalar v) = .ok v ∧ decodeLiteral values v = .ok (.ofScalar v) := by
  have equal : ∃ w ∈ values, w.same v = true := by
    rcases listed with mem | contained
    · exact ⟨v, mem, (literals v mem).proper.same_self⟩
    · exact Json.contains_iff.1 contained
  obtain ⟨w, mem, same⟩ := equal
  have isLiteral := (literals w mem).of_same same
  have contained := Json.contains_iff.2 ⟨w, mem, same⟩
  rw [encodeLiteral, decodeLiteral, isLiteral.toJson_ofScalar, if_pos contained, if_pos contained]
  exact ⟨rfl, rfl⟩

theorem find?_same {variants : List (String × Json)}
    (different : variants.Pairwise fun a b => a.2.same b.2 = false) {variant : String}
    {value : Json}
    (mem : (variant, value) ∈ variants) (self : value.same value = true) :
    variants.find? (fun (_, v) => v.same value) = some (variant, value) := by
  induction variants with
  | nil => cases mem
  | cons e rest ih =>
    obtain ⟨name, v⟩ := e
    obtain ⟨first, others⟩ := List.pairwise_cons.1 different
    rcases List.mem_cons.1 mem with eq | mem
    · cases eq
      simp [self]
    · have other : v.same value = false := first _ mem
      simp only [List.find?_cons, other]
      exact ih others mem

theorem decodeEnum_encodeEnum {e : EnumType} (distinct : e.Distinct) {variant : String}
    {value : Json} (isValue : e.valueOf? variant = some value) :
    encodeEnum e (.enumeration ⟨e.name, variant, value⟩) = .ok value ∧
      decodeEnum e value = .ok (.enumeration ⟨e.name, variant, value⟩) := by
  have mem := Assoc.mem_of_get? isValue
  have self := (distinct.proper _ mem).same_self
  have found : variant? e value = some variant := by
    rw [variant?, EnumType.variantOfValue?, find?_same distinct.values mem self]
    rfl
  constructor
  · simp [encodeEnum, isValue]
  · simp [decodeEnum, found, isValue]

end Converter
end RecordCodec
