import Mathlib.Data.List.Pairwise
import RecordCodec.Proofs.Fields

set_option autoImplicit false

/-!
# Members under the first keys of fields

A decoder tries the keys of a field in order. If no key belongs to two fields, members under the
first keys of some fields are found for these fields, and for no others, and none is left over.
-/
namespace RecordCodec

open Routine Compile

namespace Compile.Locator

def firstKey (config : Config) (field : Field) : String := (keysOf config field).headD ""

def KeysApart (config : Config) (fields : List Field) : Prop :=
  fields.Pairwise fun f g => ∀ key ∈ keysOf config f, key ∉ keysOf config g

def firstMembers (config : Config) (values : List (Field × Json)) : List (String × Json) :=
  values.map fun e => (firstKey config e.1, e.2)

/-- Of the keys of a field at most the first one is there, with this value. -/
def HoldsFirst (config : Config) (members : List (String × Json)) (field : Field)
    (value : Option Json) : Prop :=
  ∀ key ∈ keysOf config field,
    Assoc.get? key members = if key = firstKey config field then value else none

variable {config : Config} {f g : Field} {fields : List Field} {values : List (Field × Json)}
  {key : String}

theorem exists_keysOf (config : Config) (field : Field) :
    ∃ others, keysOf config field = firstKey config field :: others := by
  cases keys : keysOf config field with
  | nil =>
    unfold keysOf at keys
    split at keys
    · cases keys
    · contradiction
  | cons key others => exact ⟨others, by rw [firstKey, keys]; rfl⟩

theorem firstKey_mem (config : Config) (field : Field) :
    firstKey config field ∈ keysOf config field := by
  obtain ⟨others, keys⟩ := exists_keysOf config field
  rw [keys]
  exact List.mem_cons_self

namespace KeysApart

theorem not_mem (apart : KeysApart config fields) (isF : f ∈ fields) (isG : g ∈ fields)
    (ne : f ≠ g) (isKey : key ∈ keysOf config f) : key ∉ keysOf config g :=
  have : Std.Symm fun f g => ∀ key ∈ keysOf config f, key ∉ keysOf config g :=
    ⟨fun _ _ disjoint key isG isF => disjoint key isF isG⟩
  apart.forall isF isG ne key isKey

theorem nodup_firstKeys (apart : KeysApart config fields) :
    (fields.map (firstKey config)).Nodup := by
  refine List.pairwise_map.2 (apart.imp fun {f g} disjoint same => ?_)
  exact disjoint _ (firstKey_mem config f) (same ▸ firstKey_mem config g)

theorem nodup (apart : KeysApart config fields) : fields.Nodup := .of_map _ apart.nodup_firstKeys

end KeysApart

theorem keys_firstMembers :
    Assoc.keys (firstMembers config values) = (values.map Prod.fst).map (firstKey config) := by
  simp [Assoc.keys, firstMembers]

theorem nodup_keys_firstMembers (apart : KeysApart config (values.map Prod.fst)) :
    (Assoc.keys (firstMembers config values)).Nodup := by
  rw [keys_firstMembers]
  exact apart.nodup_firstKeys

theorem exists_of_mem_keys_firstMembers (h : key ∈ Assoc.keys (firstMembers config values)) :
    ∃ e ∈ values, key = firstKey config e.1 := by
  rw [keys_firstMembers, List.map_map] at h
  obtain ⟨e, mem, rfl⟩ := List.mem_map.1 h
  exact ⟨e, mem, rfl⟩

theorem holdsFirst_some (apart : KeysApart config (values.map Prod.fst)) {v : Json}
    (mem : (f, v) ∈ values) : HoldsFirst config (firstMembers config values) f (some v) := by
  intro key isKey
  split
  case isTrue first =>
    subst first
    exact Assoc.get?_of_mem (nodup_keys_firstMembers apart) (List.mem_map_of_mem mem)
  case isFalse other =>
    refine Assoc.get?_eq_none_iff.2 fun present => ?_
    obtain ⟨e, isValue, rfl⟩ := exists_of_mem_keys_firstMembers present
    have ne : f ≠ e.1 := by
      rintro rfl
      exact other rfl
    exact apart.not_mem (List.mem_map_of_mem mem) (List.mem_map_of_mem isValue) ne isKey
      (firstKey_mem config e.1)

theorem holdsFirst_none (apart : KeysApart config fields) (isField : f ∈ fields)
    (subset : values.map Prod.fst ⊆ fields) (absent : f ∉ values.map Prod.fst) :
    HoldsFirst config (firstMembers config values) f none := by
  intro key isKey
  rw [ite_self]
  refine Assoc.get?_eq_none_iff.2 fun present => ?_
  obtain ⟨e, isValue, rfl⟩ := exists_of_mem_keys_firstMembers present
  have isOther : e.1 ∈ values.map Prod.fst := List.mem_map_of_mem isValue
  have ne : f ≠ e.1 := by
    rintro rfl
    exact absent isOther
  exact apart.not_mem isField (subset isOther) ne isKey (firstKey_mem config e.1)

def valuesOf (value? : Field → Option Json) (fields : List Field) : List (Field × Json) :=
  fields.filterMap fun f => (value? f).map fun v => (f, v)

theorem mem_valuesOf {value? : Field → Option Json} {e : Field × Json} :
    e ∈ valuesOf value? fields ↔ e.1 ∈ fields ∧ value? e.1 = some e.2 := by
  obtain ⟨f, v⟩ := e
  simp only [valuesOf, List.mem_filterMap, Option.map_eq_some_iff, Prod.mk.injEq]
  constructor
  · rintro ⟨f, isField, v, isValue, rfl, rfl⟩
    exact ⟨isField, isValue⟩
  · rintro ⟨isField, isValue⟩
    exact ⟨f, isField, v, isValue, rfl, rfl⟩

theorem map_fst_valuesOf_sublist (value? : Field → Option Json) (fields : List Field) :
    ((valuesOf value? fields).map Prod.fst).Sublist fields := by
  induction fields with
  | nil => exact .slnil
  | cons f rest ih =>
    rw [valuesOf, List.filterMap_cons]
    cases value? f with
    | none => exact ih.cons f
    | some v => exact ih.cons_cons f

theorem holdsFirst_valuesOf (apart : KeysApart config fields) (value? : Field → Option Json)
    (isField : f ∈ fields) :
    HoldsFirst config (firstMembers config (valuesOf value? fields)) f (value? f) := by
  have sublist := map_fst_valuesOf_sublist value? fields
  cases isValue : value? f with
  | some v => exact holdsFirst_some (apart.sublist sublist) (mem_valuesOf.2 ⟨isField, isValue⟩)
  | none =>
    refine holdsFirst_none apart isField sublist.subset fun mem => ?_
    obtain ⟨e, isPair, rfl⟩ := List.mem_map.1 mem
    cases isValue.symm.trans (mem_valuesOf.1 isPair).2

end Compile.Locator

namespace Direct

open Locator

variable {record : RecordType} {config : Config} {members : List (String × Json)} {f : Field}
  {value : Option Json}

section
variable (noPath : f.path = none) (cased : config.decodesWith ≠ .caseInsensitive)
  (holds : HoldsFirst config members f value)
include noPath cased holds

theorem place?_of_holdsFirst (index : Nat) :
    place? record config (.object members) index f =
      value.map fun _ => .key (firstKey config f) := by
  have present : ∀ key ∈ keysOf config f,
      (Assoc.keys members).contains key = (decide (key = firstKey config f) && value.isSome) := by
    intro key isKey
    rw [Bool.eq_iff_iff, List.contains_iff_mem, ← Assoc.isSome_get?_iff, holds key isKey]
    split <;> simp [*]
  have found : (keysOf config f).find? (fun key => (Assoc.keys members).contains key) =
      value.map fun _ => firstKey config f := by
    obtain ⟨others, keys⟩ := exists_keysOf config f
    cases value with
    | some v => rw [keys, List.find?_cons, present _ (firstKey_mem config f)]; simp
    | none =>
      refine List.find?_eq_none.2 fun key isKey => ?_
      rw [present key isKey]
      simp
  have sensitive : (config.decodesWith == .caseInsensitive) = false := by simpa using cased
  unfold place?
  simp only [Locator.locate, Locator.ofField, noPath, Locator.keyAmong?, Json.keys]
  rw [found, sensitive]
  cases value <;> rfl

theorem located?_of_holdsFirst (index : Nat) :
    located? record config (.object members) index f = value := by
  unfold located?
  rw [place?_of_holdsFirst noPath cased holds]
  cases value with
  | none => rfl
  | some v =>
    change Assoc.get? _ _ = _
    rw [holds _ (firstKey_mem config f), if_pos rfl]

end

theorem leftOver_of_holdsFirst (noPaths : ∀ f ∈ record.fields, f.path = none)
    (cased : config.decodesWith ≠ .caseInsensitive)
    (noCatchAll : ∀ f ∈ record.fields, f.catchAll = false)
    (all : ∀ key ∈ Assoc.keys members, ∃ f ∈ record.fields, ∃ v,
      HoldsFirst config members f (some v) ∧ key = firstKey config f) :
    leftOver record config (.object members) = [] := by
  refine List.filter_eq_nil_iff.2 fun key mem => ?_
  obtain ⟨f, isField, v, holds, rfl⟩ := all key mem
  have taken : firstKey config f ∈
      takenKeys record config (.object members) 0 record.fields := by
    refine mem_takenKeys isField (noCatchAll f isField) fun index =>
      ⟨.key (firstKey config f), ?_, rfl⟩
    rw [place?_of_holdsFirst (noPaths f isField) cased holds]
    rfl
  simp [taken]

end Direct
end RecordCodec
