import RecordCodec.Converter.Scalar
import RecordCodec.Proofs.Inhabitants

set_option autoImplicit false

/-!
# Scalars are read as they were written

Octets come back from their base64 text, which has no blanks to trim, and numbers from the numbers
that they are written as.
-/
namespace RecordCodec

namespace Text

theorem trim_of_not_blank {s : List Char} (h : ∀ c ∈ s, isBlank c = false) : trim s = s := by
  have keep : ∀ t : List Char, (∀ c ∈ t, isBlank c = false) → t.dropWhile isBlank = t := by
    intro t all
    cases t with
    | nil => rfl
    | cons c rest => simp [all c List.mem_cons_self]
  have start : trimStart s = s := keep s h
  have finish : s.reverse.dropWhile isBlank = s.reverse :=
    keep _ fun c mem => h c (List.mem_reverse.1 mem)
  rw [trim, start, trimEnd, finish, List.reverse_reverse]

namespace Base64

theorem value?_digit {n : Nat} (h : n < 64) : value? (digit n) = some n := by
  have all : ∀ m : Fin 64, value? (digit m) = some m.val := by decide
  exact all ⟨n, h⟩

theorem digit_ne_padding {n : Nat} (h : n < 64) : digit n ≠ '=' := by
  have all : ∀ m : Fin 64, digit m ≠ '=' := by decide
  exact all ⟨n, h⟩

theorem isBlank_digit {n : Nat} (h : n < 64) : isBlank (digit n) = false := by
  have all : ∀ m : Fin 64, isBlank (digit m) = false := by decide
  exact all ⟨n, h⟩

theorem ofNat_eq {a : UInt8} {n : Nat} (h : n = a.toNat) : UInt8.ofNat n = a := by
  rw [h, UInt8.ofNat_toNat]

section Groups
variable (a b c : UInt8)

theorem decodeLast_one :
    decodeLast (digit (a.toNat * 16 / 64)) (digit (a.toNat * 16 % 64)) '=' '=' = some [a] := by
  have := a.toNat_lt
  rw [decodeLast, value?_digit (by omega), value?_digit (by omega)]
  have unused : a.toNat * 16 % 64 % 16 = 0 := by omega
  simp only [Option.bind_eq_bind, Option.bind_some, unused, and_self, if_true, Option.some.injEq,
    List.cons.injEq, and_true]
  exact ofNat_eq (by omega)

theorem decodeLast_two :
    let n := (a.toNat * 256 + b.toNat) * 4
    decodeLast (digit (n / 4096)) (digit (n / 64 % 64)) (digit (n % 64)) '=' = some [a, b] := by
  have := a.toNat_lt
  have := b.toNat_lt
  intro n
  have isGroup : n = (a.toNat * 256 + b.toNat) * 4 := rfl
  clear_value n
  rw [decodeLast, value?_digit (by omega), value?_digit (by omega), value?_digit (by omega)]
  have unused : n % 64 % 4 = 0 := by omega
  have used : digit (n % 64) ≠ '=' := digit_ne_padding (by omega)
  simp only [Option.bind_eq_bind, Option.bind_some, used, unused, if_false, if_true,
    Option.some.injEq, List.cons.injEq, and_true]
  exact ⟨ofNat_eq (by omega), ofNat_eq (by omega)⟩

theorem decodeGroup_three :
    let n := (a.toNat * 256 + b.toNat) * 256 + c.toNat
    decodeGroup (digit (n / 262144)) (digit (n / 4096 % 64)) (digit (n / 64 % 64))
      (digit (n % 64)) = some [a, b, c] := by
  have := a.toNat_lt
  have := b.toNat_lt
  have := c.toNat_lt
  intro n
  have isGroup : n = (a.toNat * 256 + b.toNat) * 256 + c.toNat := rfl
  clear_value n
  rw [decodeGroup, value?_digit (by omega), value?_digit (by omega), value?_digit (by omega),
    value?_digit (by omega)]
  simp only [Option.bind_eq_bind, Option.bind_some, Option.some.injEq, List.cons.injEq, and_true]
  exact ⟨ofNat_eq (by omega), ofNat_eq (by omega), ofNat_eq (by omega)⟩

/-- A group without padding is read in the same way in the last place. -/
theorem decodeLast_three :
    let n := (a.toNat * 256 + b.toNat) * 256 + c.toNat
    decodeLast (digit (n / 262144)) (digit (n / 4096 % 64)) (digit (n / 64 % 64))
      (digit (n % 64)) = some [a, b, c] := by
  intro n
  have third : digit (n / 64 % 64) ≠ '=' := digit_ne_padding (Nat.mod_lt _ (by decide))
  have fourth : digit (n % 64) ≠ '=' := digit_ne_padding (Nat.mod_lt _ (by decide))
  have group : decodeGroup _ _ _ _ = some [a, b, c] := decodeGroup_three a b c
  rw [decodeGroup] at group
  simp only [decodeLast, third, fourth, if_false]
  exact group

end Groups

theorem decode_encode (octets : List UInt8) : decode (encode octets) = some octets := by
  fun_induction encode octets with
  | case1 => rfl
  | case2 a n => exact decodeLast_one a
  | case3 a b n => exact decodeLast_two a b
  | case4 a b c rest n ih =>
    cases others : encode rest with
    | nil =>
      rw [others] at ih
      cases ih
      exact decodeLast_three a b c
    | cons d more =>
      rw [others] at ih
      rw [decode, decodeGroup_three a b c, ih]
      · rfl
      · exact fun h => by cases h

theorem not_blank_of_mem_encode (octets : List UInt8) : ∀ c ∈ encode octets, isBlank c = false := by
  have padding : isBlank '=' = false := by decide
  fun_induction encode octets with
  | case1 => simp
  | case2 a n =>
    have := a.toNat_lt
    simp only [List.forall_mem_cons]
    exact ⟨isBlank_digit (by omega), isBlank_digit (by omega), padding, padding, by simp⟩
  | case3 a b n =>
    have := a.toNat_lt
    have := b.toNat_lt
    simp only [List.forall_mem_cons]
    exact ⟨isBlank_digit (by omega), isBlank_digit (by omega), isBlank_digit (by omega), padding,
      by simp⟩
  | case4 a b c rest n ih =>
    have := a.toNat_lt
    have := b.toNat_lt
    have := c.toNat_lt
    simp only [List.forall_mem_cons]
    exact ⟨isBlank_digit (by omega), isBlank_digit (by omega), isBlank_digit (by omega),
      isBlank_digit (by omega), ih⟩

end Base64
end Text

namespace Scalar

/-- Every scalar but those of the calendar is read from what it is written as. -/
theorem decode_encode {p : Primitive} (known : p ∈ [.null, .bool, .int, .float, .str, .bytes, .any])
    {v : Instance} (holds : p.Holds v) (finite : ∀ x, v = .float x → ∃ y, x = .finite y) :
    ∃ j, encode p v = .ok j ∧ decode p j = .ok v := by
  cases p with
  | null =>
    cases v with
    | null => exact ⟨_, rfl, rfl⟩
    | _ => exact holds.elim
  | bool =>
    cases v with
    | bool b => exact ⟨_, rfl, rfl⟩
    | _ => exact holds.elim
  | int =>
    cases v with
    | int n =>
      refine ⟨_, rfl, ?_⟩
      have inRange : n.toInt < 0x8000000000000000 := by
        have := n.toInt_lt
        omega
      simp [decode, Json.ofInt64, int?, integer?, Json.Number.toInt64?, inRange, orRefuse]
    | _ => exact holds.elim
  | float =>
    cases v with
    | float x =>
      obtain ⟨y, rfl⟩ := finite x rfl
      exact ⟨_, rfl, rfl⟩
    | _ => exact holds.elim
  | str =>
    cases v with
    | str s => exact ⟨_, rfl, rfl⟩
    | _ => exact holds.elim
  | bytes =>
    cases v with
    | bytes octets =>
      refine ⟨_, rfl, ?_⟩
      have text : trimmedChars (String.ofList (Text.Base64.encode octets)) =
          Text.Base64.encode octets := by
        rw [trimmedChars, String.toList_ofList]
        exact Text.trim_of_not_blank (Text.Base64.not_blank_of_mem_encode octets)
      simp only [decode, decodeBytes, text, Text.Base64.decode_encode, orRefuse]
    | _ => exact holds.elim
  | any =>
    cases v with
    | dynamic j => exact ⟨_, rfl, rfl⟩
    | _ => exact holds.elim
  | _ => simp at known

end Scalar
end RecordCodec
