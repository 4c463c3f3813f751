import RecordCodec.Proofs.Matching
import RecordCodec.Proofs.RoundTrip

set_option autoImplicit false

/-!
# Values are read from whatever equals their encoded form

Decoding respects equality: of all values that equal the encoded form of an instance it makes
instances that match. Members may stand in another order there, and so the entries of a mapping do
in what comes back.
-/
namespace RecordCodec

open Routine

namespace Json

variable {v w : Json}

/-- The kinds of which equal values are the same one. -/
def isExact : Json → Bool
  | null | bool _ | string _ | number (.whole _) => true
  | _ => false

theorem eq_of_same (exact : v.isExact = true) (h : v.same w = true) : w = v := by
  cases v with
  | null => cases w <;> simp_all [same]
  | bool b => cases w <;> simp_all [same]
  | string s => cases w <;> simp_all [same]
  | number n =>
    cases n with
    | whole n =>
      cases w with
      | number m => cases m <;> simp_all [same, Number.same]
      | _ => simp [same] at h
    | float x => cases exact
  | _ => cases exact

theorem proper_of_isExact (exact : v.isExact = true) : v.Proper := by
  cases v with
  | null => exact .null
  | bool b => exact .bool b
  | number n => exact .number n
  | string s => exact .string s
  | _ => cases exact

theorem exists_of_float_same {x : Binary64.Finite} (h : same (.number (.float x)) w = true) :
    ∃ y, w = .number (.float y) ∧ x.same y = true := by
  cases w with
  | number m =>
    cases m with
    | float y => exact ⟨y, rfl, by simpa only [same, Number.same] using h⟩
    | whole m => simp [same, Number.same] at h
  | _ => simp [same] at h

end Json

theorem Json.IsLiteral.same_ofScalar {v w : Json} (h : v.IsLiteral) (equal : v.same w = true) :
    Instance.same (.ofScalar v) (.ofScalar w) = true := by
  cases v with
  | null | bool | string =>
    rw [Json.eq_of_same rfl equal]
    simp [Instance.ofScalar, Instance.same]
  | number n =>
    cases n with
    | whole n =>
      have inRange : n.val < 0x8000000000000000 := h
      rw [Json.eq_of_same rfl equal]
      simp [Instance.ofScalar, Json.Number.toInt64?, inRange, Instance.same]
    | float x =>
      obtain ⟨y, rfl, values⟩ := Json.exists_of_float_same equal
      simpa [Instance.ofScalar, Json.Number.toInt64?, Json.Number.toBinary64, Instance.same,
        Binary64.same] using values
  | array | object => exact h.elim

namespace Converter

/-- The instance given is encoded, and all that equals its encoded form decodes to something that
matches the other one. -/
def Restores (encode : Encode) (decode : Decode) (given v : Instance) : Prop :=
  ∃ j, (encode given).Returns j ∧ j.Proper ∧
    ∀ j', j.same j' = true → ∃ back, (decode j').Returns back ∧ v.Matches back

/-- It is enough that the encoded form has no other equal. -/
theorem Restores.of_isExact {encode : Encode} {decode : Decode} {given v : Instance} {j : Json}
    (exact : j.isExact = true) (encoded : (encode given).Returns j)
    (decoded : (decode j).Returns v) (regular : v.Regular) : Restores encode decode given v := by
  refine ⟨j, encoded, Json.proper_of_isExact exact, fun j' equal => ⟨v, ?_, ?_⟩⟩
  · rw [Json.eq_of_same exact equal]
    exact decoded
  · exact .of_same regular regular.same_self

end Converter

theorem Scalar.isExact_of_encode {p : Primitive} (known : p ∈ [.null, .bool, .int, .str, .bytes])
    {v : Instance} (holds : p.Holds v) {j : Json} (encoded : encode p v = .ok j) :
    j.isExact = true := by
  cases v with
  | null | bool | int | str | bytes =>
    cases p <;> simp at known <;> first | exact holds.elim | (cases encoded; rfl)
  | _ => cases p <;> simp at known <;> exact holds.elim

namespace Converter

theorem Restores.scalar {p : Primitive}
    (known : p ∈ [.null, .bool, .int, .float, .str, .bytes, .any]) {v : Instance}
    (holds : p.Holds v) (regular : v.Regular) :
    Restores (fun v => .ofExcept (Scalar.encode p v)) (fun j => .ofExcept (Scalar.decode p j))
      v v := by
  obtain ⟨j, encoded, decoded⟩ := Scalar.decode_encode known holds regular.finite
  cases p with
  | float =>
    cases v with
    | float x =>
      obtain ⟨x, rfl⟩ := regular.finite x rfl
      refine ⟨.number (.float x), Run.Returns.ofExcept_iff.2 rfl, .number _, fun j' equal => ?_⟩
      obtain ⟨y, rfl, equal⟩ := Json.exists_of_float_same equal
      refine ⟨.float (.finite y), Run.Returns.ofExcept_iff.2 rfl, .flat rfl ?_⟩
      rw [Instance.same]
      exact equal
    | _ => exact holds.elim
  | any =>
    cases v with
    | dynamic j =>
      cases regular with
      | dynamic proper =>
        refine ⟨j, Run.Returns.ofExcept_iff.2 rfl, proper, fun j' equal => ?_⟩
        refine ⟨.dynamic j', Run.Returns.ofExcept_iff.2 rfl, .flat rfl ?_⟩
        rw [Instance.same]
        exact equal
    | _ => exact holds.elim
  | date | time | dateTime | duration => simp at known
  | _ =>
    exact .of_isExact (Scalar.isExact_of_encode (by simp) holds encoded)
      (Run.Returns.ofExcept_iff.2 encoded) (Run.Returns.ofExcept_iff.2 decoded) regular

theorem Restores.items {encode : Encode} {decode : Decode} {items given : List Instance}
    (h : List.Forall₂ (fun v w => Restores encode decode w v) items given) (index index' : Nat) :
    ∃ js, (encodeItems encode index given).Returns js ∧ (∀ j ∈ js, j.Proper) ∧
      ∀ js', List.Forall₂ (fun j j' => Json.same j j' = true) js js' →
        ∃ back, (decodeItems decode index' js').Returns back ∧
          List.Forall₂ Instance.Matches items back := by
  induction h generalizing index index' with
  | nil =>
    refine ⟨[], by simp [encodeItems], by simp, fun js' equal => ⟨[], ?_, .nil⟩⟩
    cases equal
    simp [decodeItems]
  | cons first _ ih =>
    obtain ⟨j, encoded, proper, restores⟩ := first
    obtain ⟨js, allEncoded, allProper, allRestore⟩ := ih (index + 1) (index' + 1)
    refine ⟨j :: js, ?_, List.forall_mem_cons.2 ⟨proper, allProper⟩, fun js' equal => ?_⟩
    · simp only [encodeItems, Run.Returns.bind_iff, Run.Returns.mapError_iff,
        Run.Returns.pure_iff]
      exact ⟨j, encoded, js, allEncoded, rfl⟩
    · cases equal with
      | cons equal others =>
        obtain ⟨v, decoded, isBack⟩ := restores _ equal
        obtain ⟨back, allDecoded, areBack⟩ := allRestore _ others
        refine ⟨v :: back, ?_, .cons isBack areBack⟩
        simp only [decodeItems, Run.Returns.bind_iff, Run.Returns.mapError_iff,
          Run.Returns.pure_iff]
        exact ⟨v, decoded, back, allDecoded, rfl⟩

theorem Restores.parts {α : Type} {encode : α → Encode} {decode : α → Decode} {parts : List α}
    {items given : List Instance} (even : items.length = given.length)
    (evenParts : items.length = parts.length)
    (h : ∀ e ∈ parts.zip (items.zip given), Restores (encode e.1) (decode e.1) e.2.2 e.2.1)
    (index index' : Nat) :
    ∃ js, js.length = parts.length ∧ (encodeParts index (parts.map encode) given).Returns js ∧
      (∀ j ∈ js, j.Proper) ∧
      ∀ js', List.Forall₂ (fun j j' => Json.same j j' = true) js js' →
        ∃ back, (decodeParts index' (parts.map decode) js').Returns back ∧
          List.Forall₂ Instance.Matches items back := by
  induction items generalizing given parts index index' with
  | nil =>
    have none : parts = [] := List.eq_nil_of_length_eq_zero evenParts.symm
    subst none
    exact ⟨[], rfl, by simp [encodeParts], by simp, fun js' _ => ⟨[], by simp [decodeParts], .nil⟩⟩
  | cons v items ih =>
    cases given with
    | nil => cases even
    | cons w given =>
      cases parts with
      | nil => cases evenParts
      | cons part parts =>
        obtain ⟨first, later⟩ := List.forall_mem_cons.1 h
        obtain ⟨j, encoded, proper, restores⟩ := first
        obtain ⟨js, length, allEncoded, allProper, allRestore⟩ :=
          ih (Nat.succ.inj even) (Nat.succ.inj evenParts) later (index + 1) (index' + 1)
        refine ⟨j :: js, by simp [length], ?_, List.forall_mem_cons.2 ⟨proper, allProper⟩,
          fun js' equal => ?_⟩
        · simp only [List.map_cons, encodeParts, Run.Returns.bind_iff, Run.Returns.mapError_iff,
            Run.Returns.pure_iff]
          exact ⟨j, encoded, js, allEncoded, rfl⟩
        · cases equal with
          | cons equal others =>
            obtain ⟨v, decoded, isBack⟩ := restores _ equal
            obtain ⟨back, allDecoded, areBack⟩ := allRestore _ others
            refine ⟨v :: back, ?_, .cons isBack areBack⟩
            simp only [List.map_cons, decodeParts, Run.Returns.bind_iff,
              Run.Returns.mapError_iff, Run.Returns.pure_iff]
            exact ⟨v, decoded, back, allDecoded, rfl⟩

def RestoresEntry (itemBack : Decode) (e : Instance × Instance) (m : String × Json) : Prop :=
  e.1 = .str m.1 ∧ m.2.Proper ∧
    ∀ j', m.2.same j' = true → ∃ back, (itemBack j').Returns back ∧ e.2.Matches back

theorem Restores.entries {key item : Encode} {itemBack : Decode}
    (keys : ∀ s, (key (.str s)).Returns (.string s)) {entries given : List (Instance × Instance)}
    (h : List.Forall₂ (fun e e' => (∃ s, e.1 = .str s ∧ e'.1 = .str s) ∧
      Restores item itemBack e'.2 e.2) entries given)
    (distinct : (entries.map fun e => e.1.keyString).Nodup) (out : List (String × Json))
    (new : ∀ e ∈ entries, e.1.keyString ∉ Assoc.keys out) :
    ∃ members, (encodeEntries key item given out).Returns (out ++ members) ∧
      List.Forall₂ (RestoresEntry itemBack) entries members := by
  induction h generalizing out with
  | nil => exact ⟨[], by simp [encodeEntries], .nil⟩
  | @cons e e' _ _ first _ ih =>
    obtain ⟨l, y⟩ := e
    obtain ⟨k, x⟩ := e'
    obtain ⟨⟨s, isKey, isKey'⟩, j, encoded, proper, restores⟩ := first
    simp only at isKey isKey' encoded restores
    subst isKey isKey'
    obtain ⟨fresh, distinct⟩ := List.nodup_cons.1 distinct
    obtain ⟨unwritten, others⟩ := List.forall_mem_cons.1 new
    have written : Assoc.insert s j out = out ++ [(s, j)] := Assoc.insert_of_not_mem unwritten j
    obtain ⟨members, allEncoded, allRestore⟩ := ih distinct (out ++ [(s, j)]) fun e mem isOld => by
      rcases List.mem_append.1 (show _ ∈ Assoc.keys out ++ [s] by
        simpa [Assoc.keys] using isOld) with old | isNew
      · exact others e mem old
      · have same : e.1.keyString = s := List.mem_singleton.1 isNew
        exact fresh (List.mem_map.2 ⟨e, mem, same⟩)
    refine ⟨(s, j) :: members, ?_, .cons ⟨rfl, proper, restores⟩ allRestore⟩
    simp only [encodeEntries, Run.Returns.bind_iff, Run.Returns.mapError_iff]
    refine ⟨.string s, keys s, j, encoded, ?_⟩
    rw [show Instance.keyText (.string s) = s from rfl, written]
    simpa using allEncoded

section
variable {given v : Instance}

theorem Restores.list {encode : Encode} {decode : Decode} (form : ItemsForm)
    {items others : List Instance} (isItems : given.items? = some others)
    (building : ∀ back, List.Forall₂ Instance.Matches items back → v.Matches (form.build back))
    (h : List.Forall₂ (fun v w => Restores encode decode w v) items others) :
    Restores (Direct.encodeList form encode) (Direct.decodeList form decode) given v := by
  obtain ⟨js, encoded, proper, restores⟩ := Restores.items h 0 0
  refine ⟨.array js, ?_, .array proper, fun j' same => ?_⟩
  · simp only [Direct.encodeList, isItems, Run.Returns.bind_iff, Run.Returns.pure_iff]
    exact ⟨js, encoded, rfl⟩
  · obtain ⟨js', rfl, equal⟩ := Json.exists_of_array_same same
    obtain ⟨back, decoded, areBack⟩ := restores js' equal
    refine ⟨form.build back, ?_, building back areBack⟩
    simp only [Direct.decodeList, listItems?, Run.Returns.bind_iff, Run.Returns.pure_iff]
    exact ⟨back, decoded, rfl⟩

theorem Restores.tuple {α : Type} {encode : α → Encode} {decode : α → Decode} {parts : List α}
    {items others : List Instance} (isItems : given.items? = some others)
    (even : items.length = others.length) (evenParts : items.length = parts.length)
    (h : ∀ e ∈ parts.zip (items.zip others), Restores (encode e.1) (decode e.1) e.2.2 e.2.1) :
    Restores (encodeTuple (parts.map encode)) (decodeTuple (parts.map decode)) given
      (.tuple items) := by
  obtain ⟨js, length, encoded, proper, restores⟩ := Restores.parts even evenParts h 0 0
  refine ⟨.array js, ?_, .array proper, fun j' same => ?_⟩
  · have fits : others.length = (parts.map encode).length := by
      rw [List.length_map, ← even, evenParts]
    simp only [encodeTuple, isItems, if_pos fits, Run.Returns.bind_iff, Run.Returns.pure_iff]
    exact ⟨js, encoded, rfl⟩
  · obtain ⟨js', rfl, equal⟩ := Json.exists_of_array_same same
    obtain ⟨back, decoded, areBack⟩ := restores js' equal
    have fits : js'.length = (parts.map decode).length := by
      rw [List.length_map, ← length, equal.length_eq]
    refine ⟨.tuple back, ?_, .tuple_of_forall₂ areBack⟩
    simp only [decodeTuple, listItems?, if_pos fits, Run.Returns.bind_iff, Run.Returns.pure_iff]
    exact ⟨back, decoded, rfl⟩

/-- Either kind of mapping from texts. The members are decoded in the order in which they come. -/
theorem Restores.mapping {key item : Encode} {keyBack itemBack : Decode}
    (build : List (Instance × Instance) → Instance)
    (keys : ∀ s, (key (.str s)).Returns (.string s))
    (keysBack : ∀ s, (keyBack (.string s)).Returns (.str s))
    {entries others : List (Instance × Instance)} (isEntries : given.entries? = some others)
    (building : ∀ b c, List.Forall₂ (fun e e' =>
      Instance.same e.1 e'.1 = true ∧ Instance.Matches e.2 e'.2) entries b → b.Perm c →
      v.Matches (build c))
    (h : List.Forall₂ (fun e e' => (∃ s, e.1 = .str s ∧ e'.1 = .str s) ∧
      Restores item itemBack e'.2 e.2) entries others)
    (distinct : (entries.map fun e => e.1.keyString).Nodup) :
    Restores (encodeMapping key item) (Direct.decodeMapping build keyBack itemBack) given v := by
  obtain ⟨members, encoded, restores⟩ :=
    Restores.entries keys h distinct [] fun e mem => List.not_mem_nil
  have named : Assoc.keys members = entries.map fun e => e.1.keyString := by
    rw [Assoc.keys, ← List.forall₂_eq_eq_eq, List.forall₂_map_left_iff, List.forall₂_map_right_iff]
    refine restores.flip.imp fun m e entry => ?_
    rw [entry.1]
    rfl
  rw [← named] at distinct
  refine ⟨.object members, ?_, .object distinct ?_, fun j' same => ?_⟩
  · simp only [encodeMapping, isEntries, Run.Returns.bind_iff, Run.Returns.pure_iff]
    exact ⟨members, encoded, rfl⟩
  · intro m mem
    obtain ⟨e, -, -, proper, -⟩ := exists_of_forall₂ restores mem
    exact proper
  · obtain ⟨members', rfl, even, found⟩ := Json.exists_of_object_same same
    obtain ⟨b, permuted, related⟩ :=
      Assoc.exists_perm_of_found (R := fun v w => Json.same v w = true) distinct even found
    -- each entry is read from the member that equals the one that was written
    have read : List.Forall₂ (fun e m => e.1 = .str m.1 ∧
        ∃ back, (itemBack m.2).Returns back ∧ e.2.Matches back) entries b :=
      forall₂_comp restores related fun e _ m m' entry equal =>
        ⟨entry.1.trans (congrArg _ equal.1), entry.2.2 _ equal.2⟩
    obtain ⟨back, decoded, areBack⟩ := exists_forall₂_of_forall₂ read
      (R := fun m e => (keyBack (.string m.1)).Returns e.1 ∧ (itemBack m.2).Returns e.2)
      (T := fun e e' => Instance.same e.1 e'.1 = true ∧ Instance.Matches e.2 e'.2)
      fun e m ⟨isKey, y, decoded, isBack⟩ =>
        ⟨(.str m.1, y), ⟨keysBack m.1, decoded⟩, by simp [isKey, Instance.same], isBack⟩
    obtain ⟨back', decoded', permuted'⟩ := List.perm_comp_forall₂ permuted.symm decoded
    refine ⟨build back', ?_, building back back' areBack permuted'.symm⟩
    simp only [Direct.decodeMapping, mapEntries, Run.Returns.bind_iff, Run.Returns.pure_iff,
      Run.Returns.ofExcept_iff]
    exact ⟨members', rfl, back', decodeEntries_returns_iff.2 decoded', rfl⟩

end

/-- A literal that equals one of the listed ones is one itself. -/
theorem Restores.literal {values : List Json} (literals : ∀ v ∈ values, v.IsLiteral) {raw : Json}
    (listed : raw ∈ values ∨ Json.contains values raw = true) :
    Restores (fun v => .ofExcept (encodeLiteral values v))
      (fun j => .ofExcept (decodeLiteral values j)) (.ofScalar raw) (.ofScalar raw) := by
  obtain ⟨encoded, -⟩ := decodeLiteral_encodeLiteral literals listed
  have isLiteral : raw.IsLiteral ∧ ∃ w ∈ values, w.same raw = true := by
    rcases listed with mem | contained
    · exact ⟨literals raw mem, raw, mem, (literals raw mem).proper.same_self⟩
    · obtain ⟨w, mem, equal⟩ := Json.contains_iff.1 contained
      exact ⟨(literals w mem).of_same equal, w, mem, equal⟩
  obtain ⟨isLiteral, w, mem, equal⟩ := isLiteral
  refine ⟨raw, Run.Returns.ofExcept_iff.2 encoded, isLiteral.proper, fun j' equal' => ?_⟩
  have contained := Json.contains_iff.2 ⟨w, mem, Json.same_trans equal equal'⟩
  refine ⟨.ofScalar j', ?_, .flat (Instance.depth_ofScalar raw) (isLiteral.same_ofScalar equal')⟩
  rw [Run.Returns.ofExcept_iff, decodeLiteral, if_pos contained]

theorem Restores.enumeration {e : EnumType} (distinct : e.Distinct) {variant : String}
    {value : Json} (isValue : e.valueOf? variant = some value) :
    Restores (fun v => .ofExcept (encodeEnum e v)) (fun j => .ofExcept (decodeEnum e j))
      (.enumeration ⟨e.name, variant, value⟩) (.enumeration ⟨e.name, variant, value⟩) := by
  obtain ⟨encoded, decoded⟩ := decodeEnum_encodeEnum distinct isValue
  have mem := Assoc.mem_of_get? isValue
  have proper := distinct.proper _ mem
  refine ⟨value, Run.Returns.ofExcept_iff.2 encoded, proper, fun j' equal => ?_⟩
  refine ⟨.enumeration ⟨e.name, variant, value⟩, ?_, .of_same (.enumeration proper) ?_⟩
  · have found : e.variantOfValue? j' = some variant := by
      have compared : (fun v : String × Json => v.2.same j') = fun v => v.2.same value :=
        funext fun v => (proper.same_congr equal v.2).symm
      have first := find?_same distinct.values mem proper.same_self
      change (e.variants.find? fun v => v.2.same j').map Prod.fst = some variant
      rw [compared]
      exact congrArg (Option.map Prod.fst) first
    rw [Run.Returns.ofExcept_iff, decodeEnum, variant?, found]
    simp [isValue]
  · exact (Instance.Regular.enumeration proper).same_self

end Converter
end RecordCodec
