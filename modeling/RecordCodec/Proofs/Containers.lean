import RecordCodec.Proofs.Entries
import RecordCodec.Proofs.Results

set_option autoImplicit false

/-!
# Containers are read as they were written

The items of an instance are encoded one by one, and each decodes to the item of another list at
the same place. The second list is the first one or, where fields were put in another order, the
instances that decoding makes of it.
-/
namespace RecordCodec.Converter

open Routine

/-- The encoded form of one instance decodes to the other one. -/
def Recovers (encode : Encode) (decode : Decode) (given back : Instance) : Prop :=
  ∃ j, (encode given).Returns j ∧ (decode j).Returns back

theorem Recovers.items {encode : Encode} {decode : Decode} {given back : List Instance}
    (even : back.length = given.length)
    (h : ∀ e ∈ back.zip given, Recovers encode decode e.2 e.1) (index index' : Nat) :
    ∃ js, (encodeItems encode index given).Returns js ∧
      (decodeItems decode index' js).Returns back := by
  induction back generalizing given index index' with
  | nil =>
    have none : given = [] := List.eq_nil_of_length_eq_zero even.symm
    subst none
    exact ⟨[], by simp [encodeItems], by simp [decodeItems]⟩
  | cons w back ih =>
    cases given with
    | nil => cases even
    | cons v given =>
      obtain ⟨first, later⟩ := List.forall_mem_cons.1 h
      obtain ⟨j, encoded, decoded⟩ := first
      obtain ⟨js, allEncoded, allDecoded⟩ :=
        ih (Nat.succ.inj even) later (index + 1) (index' + 1)
      refine ⟨j :: js, ?_, ?_⟩
      · simp only [encodeItems, Run.Returns.bind_iff, Run.Returns.mapError_iff,
          Run.Returns.pure_iff]
        exact ⟨j, encoded, js, allEncoded, rfl⟩
      · simp only [decodeItems, Run.Returns.bind_iff, Run.Returns.mapError_iff,
          Run.Returns.pure_iff]
        exact ⟨w, decoded, back, allDecoded, rfl⟩

theorem Recovers.parts {α : Type} {encode : α → Encode} {decode : α → Decode} {parts : List α}
    {given back : List Instance} (even : back.length = given.length)
    (evenParts : back.length = parts.length)
    (h : ∀ e ∈ parts.zip (back.zip given), Recovers (encode e.1) (decode e.1) e.2.2 e.2.1)
    (index index' : Nat) :
    ∃ js, js.length = parts.length ∧
      (encodeParts index (parts.map encode) given).Returns js ∧
      (decodeParts index' (parts.map decode) js).Returns back := by
  induction back generalizing given parts index index' with
  | nil =>
    have none : parts = [] := List.eq_nil_of_length_eq_zero evenParts.symm
    subst none
    exact ⟨[], rfl, by simp [encodeParts], by simp [decodeParts]⟩
  | cons w back ih =>
    cases given with
    | nil => cases even
    | cons v given =>
      cases parts with
      | nil => cases evenParts
      | cons part parts =>
        obtain ⟨first, later⟩ := List.forall_mem_cons.1 h
        obtain ⟨j, encoded, decoded⟩ := first
        obtain ⟨js, length, allEncoded, allDecoded⟩ :=
          ih (Nat.succ.inj even) (Nat.succ.inj evenParts) later (index + 1) (index' + 1)
        refine ⟨j :: js, by simp [length], ?_, ?_⟩
        · simp only [List.map_cons, encodeParts, Run.Returns.bind_iff, Run.Returns.mapError_iff,
            Run.Returns.pure_iff]
          exact ⟨j, encoded, js, allEncoded, rfl⟩
        · simp only [List.map_cons, decodeParts, Run.Returns.bind_iff, Run.Returns.mapError_iff,
            Run.Returns.pure_iff]
          exact ⟨w, decoded, back, allDecoded, rfl⟩

/-- Entries whose keys are texts, distinct ones and not those that were written before. -/
theorem Recovers.entries {key item : Encode} {keyBack itemBack : Decode}
    (keys : ∀ s, (key (.str s)).Returns (.string s))
    (keysBack : ∀ s, (keyBack (.string s)).Returns (.str s))
    {given back : List (Instance × Instance)} (even : back.length = given.length)
    (h : ∀ e ∈ back.zip given, (∃ s, e.1.1 = .str s ∧ e.2.1 = .str s) ∧
      Recovers item itemBack e.2.2 e.1.2)
    (distinct : (back.map fun e => e.1.keyString).Nodup) (out : List (String × Json))
    (new : ∀ e ∈ back, e.1.keyString ∉ Assoc.keys out) :
    ∃ members, (encodeEntries key item given out).Returns (out ++ members) ∧
      (decodeEntries keyBack itemBack members).Returns back := by
  induction back generalizing given out with
  | nil =>
    have none : given = [] := List.eq_nil_of_length_eq_zero even.symm
    subst none
    exact ⟨[], by simp [encodeEntries], by simp [decodeEntries]⟩
  | cons w back ih =>
    cases given with
    | nil => cases even
    | cons v given =>
      obtain ⟨l, y⟩ := w
      obtain ⟨k, x⟩ := v
      obtain ⟨first, later⟩ := List.forall_mem_cons.1 h
      obtain ⟨⟨s, isKey, isKey'⟩, j, encoded, decoded⟩ := first
      simp only at isKey isKey' encoded decoded
      subst isKey isKey'
      obtain ⟨fresh, distinct⟩ := List.nodup_cons.1 distinct
      obtain ⟨unwritten, others⟩ := List.forall_mem_cons.1 new
      have written : Assoc.insert s j out = out ++ [(s, j)] := Assoc.insert_of_not_mem unwritten j
      obtain ⟨members, allEncoded, allDecoded⟩ :=
        ih (Nat.succ.inj even) later distinct (out ++ [(s, j)]) fun e mem isOld => by
          rcases List.mem_append.1 (show _ ∈ Assoc.keys out ++ [s] by
            simpa [Assoc.keys] using isOld) with old | isNew
          · exact others e mem old
          · have same : e.1.keyString = s := List.mem_singleton.1 isNew
            exact fresh (List.mem_map.2 ⟨e, mem, same⟩)
      refine ⟨(s, j) :: members, ?_, ?_⟩
      · simp only [encodeEntries, Run.Returns.bind_iff, Run.Returns.mapError_iff]
        refine ⟨.string s, keys s, j, encoded, ?_⟩
        rw [show Instance.keyText (.string s) = s from rfl, written]
        simpa using allEncoded
      · simp only [decodeEntries, Run.Returns.bind_iff, Run.Returns.mapError_iff,
          Run.Returns.pure_iff]
        exact ⟨.str s, keysBack s, y, decoded, back, allDecoded, rfl⟩

section
variable {given : Instance}

theorem Recovers.list {encode : Encode} {decode : Decode} (form : ItemsForm)
    {items back : List Instance} (isItems : given.items? = some items)
    (even : back.length = items.length)
    (h : ∀ e ∈ back.zip items, Recovers encode decode e.2 e.1) :
    Recovers (Direct.encodeList form encode) (Direct.decodeList form decode) given
      (form.build back) := by
  obtain ⟨js, encoded, decoded⟩ := Recovers.items even h 0 0
  refine ⟨.array js, ?_, ?_⟩
  · simp only [Direct.encodeList, isItems, Run.Returns.bind_iff, Run.Returns.pure_iff]
    exact ⟨js, encoded, rfl⟩
  · simp only [Direct.decodeList, listItems?, Run.Returns.bind_iff, Run.Returns.pure_iff]
    exact ⟨back, decoded, rfl⟩

theorem Recovers.tuple {α : Type} {encode : α → Encode} {decode : α → Decode} {parts : List α}
    {items back : List Instance} (isItems : given.items? = some items)
    (even : back.length = items.length) (evenParts : back.length = parts.length)
    (h : ∀ e ∈ parts.zip (back.zip items), Recovers (encode e.1) (decode e.1) e.2.2 e.2.1) :
    Recovers (encodeTuple (parts.map encode)) (decodeTuple (parts.map decode)) given
      (.tuple back) := by
  obtain ⟨js, length, encoded, decoded⟩ := Recovers.parts even evenParts h 0 0
  refine ⟨.array js, ?_, ?_⟩
  · have fits : items.length = (parts.map encode).length := by
      rw [List.length_map, ← even, evenParts]
    simp only [encodeTuple, isItems, if_pos fits, Run.Returns.bind_iff, Run.Returns.pure_iff]
    exact ⟨js, encoded, rfl⟩
  · have fits : js.length = (parts.map decode).length := by rw [List.length_map, length]
    simp only [decodeTuple, listItems?, if_pos fits, Run.Returns.bind_iff, Run.Returns.pure_iff]
    exact ⟨back, decoded, rfl⟩

theorem Recovers.mapping {key item : Encode} {keyBack itemBack : Decode}
    (build : List (Instance × Instance) → Instance)
    (keys : ∀ s, (key (.str s)).Returns (.string s))
    (keysBack : ∀ s, (keyBack (.string s)).Returns (.str s))
    {entries back : List (Instance × Instance)} (isEntries : given.entries? = some entries)
    (even : back.length = entries.length)
    (h : ∀ e ∈ back.zip entries, (∃ s, e.1.1 = .str s ∧ e.2.1 = .str s) ∧
      Recovers item itemBack e.2.2 e.1.2)
    (distinct : (back.map fun e => e.1.keyString).Nodup) :
    Recovers (encodeMapping key item) (Direct.decodeMapping build keyBack itemBack) given
      (build back) := by
  obtain ⟨members, encoded, decoded⟩ :=
    Recovers.entries keys keysBack even h distinct [] fun e mem => List.not_mem_nil
  refine ⟨.object members, ?_, ?_⟩
  · simp only [encodeMapping, isEntries, Run.Returns.bind_iff, Run.Returns.pure_iff]
    exact ⟨members, encoded, rfl⟩
  · simp only [Direct.decodeMapping, mapEntries, Run.Returns.bind_iff, Run.Returns.pure_iff,
      Run.Returns.ofExcept_iff]
    exact ⟨members, rfl, back, decoded, rfl⟩

end

end RecordCodec.Converter
