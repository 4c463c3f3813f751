import RecordCodec.Proofs.FailurePaths
import RecordCodec.Proofs.Fields

set_option autoImplicit false

/-!
# Unknown keys

A record that refuses unknown keys does not compare the keys of the input with its fields but with
the keys that its fields were found at. So a key that it refuses belongs to no field that the input
spells once. But a field may be spelled more than once, under two of its keys, or only in part, if
the input has the start of its path and no more: then a key of the field itself can be refused.
-/
namespace RecordCodec

open Routine Run Compile
open Converter (Decode)

namespace Compile.Locator

/-- The decoder of the field looks for the key in an object: the path of the field starts with it,
or it is one of the keys of the field. -/
def looksFor (config : Config) (field : Field) (key : String) : Bool :=
  match field.path with
  | some path => path.head? == some key
  | none => (keysOf config field).any fun wanted =>
      wanted == key || (config.decodesWith == .caseInsensitive && sameIgnoringCase wanted key)

/-- The input has at most one of the keys of a field, and the whole path of a field if it has the
start of it. -/
def spellsOnce (config : Config) (input : Json) (field : Field) : Bool :=
  match field.path with
  | some path => (fetchPath path input).isSome || !(input.keys.any (looksFor config field))
  | none => input.keys.all fun key => input.keys.all fun other =>
      key == other || !(looksFor config field key && looksFor config field other)

variable {config : Config} {field : Field} {members : List (String × Json)} {index : Option Nat}
  {key : String}

theorem exists_keyAmong? (index : Option Nat) (noPath : field.path = none) {present : List String}
    (isPresent : key ∈ present) (wanted : looksFor config field key = true) :
    ∃ other ∈ present, looksFor config field other = true ∧
      (ofField config index field).keyAmong? present = some other := by
  simp only [looksFor, noPath, List.any_eq_true, Bool.or_eq_true, Bool.and_eq_true, beq_iff_eq]
    at wanted ⊢
  simp only [keyAmong?, ofField]
  -- keys as they are spelled come first, and only then those in any case
  cases exact : (keysOf config field).find? fun k => present.contains k with
  | some other =>
    have mem := List.mem_of_find?_eq_some exact
    have isThere := List.find?_some exact
    exact ⟨other, by simpa using isThere, ⟨other, mem, .inl rfl⟩, rfl⟩
  | none =>
    obtain ⟨k, isKey, rfl | ⟨ignoresCase, same⟩⟩ := wanted
    · have unseen := List.find?_eq_none.1 exact k isKey
      exact absurd isPresent (by simpa using unseen)
    · have isFound : (present.find? (sameIgnoringCase k)).isSome = true :=
        List.find?_isSome.2 ⟨key, isPresent, same⟩
      have isSome : ((keysOf config field).findSome? fun k =>
          present.find? (sameIgnoringCase k)).isSome = true :=
        List.findSome?_isSome_iff.2 ⟨k, isKey, isFound⟩
      obtain ⟨other, found⟩ := Option.isSome_iff_exists.1 isSome
      obtain ⟨k', isKey', isFirst⟩ := List.exists_of_findSome?_eq_some found
      refine ⟨other, List.mem_of_find?_eq_some isFirst,
        ⟨k', isKey', .inr ⟨ignoresCase, List.find?_some isFirst⟩⟩, ?_⟩
      simp [ignoresCase, found]

theorem takes_of_spellsOnce (once : spellsOnce config (.object members) field = true)
    (isPresent : key ∈ (Json.object members).keys) (wanted : looksFor config field key = true) :
    ∃ place, (ofField config index field).locate (.object members) = some place ∧
      takenKey? place = some key := by
  cases isPath : field.path with
  | some path =>
    have start : (Json.object members).keys.any (looksFor config field) = true :=
      List.any_eq_true.2 ⟨key, isPresent, wanted⟩
    simp only [spellsOnce, isPath, start, Bool.not_true, Bool.or_false] at once
    simp only [looksFor, isPath, beq_iff_eq] at wanted
    refine ⟨.path path, ?_, wanted⟩
    simp only [locate, ofField, isPath, once, if_true]
  | none =>
    obtain ⟨other, isOther, wanted', found⟩ := exists_keyAmong? index isPath isPresent wanted
    simp only [spellsOnce, isPath, List.all_eq_true] at once
    have same : key = other := by simpa [wanted, wanted'] using once key isPresent other isOther
    refine ⟨.key other, ?_, congrArg some same.symm⟩
    simp only [locate, ofField, isPath]
    exact congrArg (Option.map Location.key) found

end Compile.Locator

section Records
variable {record : RecordType} {config : Config} {input : Json} {convert : Field → Decode}
  {owner key : String}

theorem Routine.Run.mapError_inField_inside {α : Type} (r : Run α) (field : String) :
    (r.mapError (Failure.inField owner field)).FailsOnly (·.path ≠ []) :=
  FailsOnly.mapError (Q := fun _ => True) (fun _ _ => trivial) fun _ _ => List.cons_ne_nil _ _

theorem Direct.decodeInTurn_inside (index : Nat) (field : Field) :
    (decodeInTurn record config input (convert field) index field).FailsOnly (·.path ≠ []) := by
  unfold decodeInTurn
  split
  case isTrue => exact .pure _
  case isFalse =>
    unfold decodeField
    split
    case h_1 => exact FailsOnly.bind (mapError_inField_inside _ _) fun _ _ => .pure _
    case h_2 =>
      unfold decodeAbsent
      split
      case h_3 => exact FailsOnly.bind (mapError_inField_inside _ _) fun _ _ => .pure _
      all_goals exact .pure _

theorem Direct.mem_leftOver_of_unknownKey
    (failed : (decodeRecord record config input convert).Fails (.of (.unknownKey owner key))) :
    owner = record.name ∧ config.policy = .raise ∧ (∀ f ∈ record.fields, f.catchAll = false) ∧
      key ∈ leftOver record config input := by
  -- every other way to fail has another kind of failure, or a field in its path
  rcases Fails.bind_iff.1 failed with refused | ⟨-, -, failed⟩
  · rcases refuses_of_checkForm (Fails.ofExcept_iff.1 refused) with ⟨⟨⟩⟩ | ⟨⟨⟩⟩
  rcases Fails.bind_iff.1 failed with failed | ⟨values, -, failed⟩
  · exact absurd rfl (decodeFields_fails (fun k f _ => decodeInTurn_inside _ f) _ failed)
  rcases Fails.bind_iff.1 failed with failed | ⟨values, -, failed⟩
  · unfold decodeLeftOver at failed
    split at failed
    case h_1 field index _ =>
      refine absurd rfl (FailsOnly.bind (Q := (·.path ≠ [])) (mapError_inField_inside _ _)
        (fun _ _ => .pure _) _ failed)
    case h_2 noCatchAll =>
      split at failed
      case h_1 first rest isRaise isFirst =>
        cases Fails.throw_iff.1 failed
        exact ⟨rfl, isRaise, catchAllAt_eq_none_iff.1 noCatchAll,
          isFirst ▸ List.mem_cons_self⟩
      case h_2 => exact (Fails.pure_iff.1 failed).elim
  · split at failed
    · exact (Fails.pure_iff.1 failed).elim
    · cases Fails.throw_iff.1 failed

/-- A key that is left over is looked for by no field that the input spells once. -/
theorem Direct.not_looksFor_of_mem_leftOver (noCatchAll : ∀ f ∈ record.fields, f.catchAll = false)
    (left : key ∈ leftOver record config input) {field : Field} (isField : field ∈ record.fields)
    (once : Locator.spellsOnce config input field = true) :
    Locator.looksFor config field key = false := by
  simp only [leftOver, List.mem_filter, Bool.and_eq_true, Bool.not_eq_true', List.contains_eq_mem,
    decide_eq_false_iff_not] at left
  obtain ⟨isPresent, untaken, -⟩ := left
  by_contra wanted
  have wanted : Locator.looksFor config field key = true := by simpa using wanted
  cases input with
  | object members =>
    exact untaken (mem_takenKeys isField (noCatchAll field isField) fun _ =>
      Locator.takes_of_spellsOnce once isPresent wanted)
  | _ => cases isPresent

end Records

theorem Compile.TracedTo.unknownKey_of_callWithin {schema : Schema} {registry : Registry}
    (declarations : schema.Declared) {fuel : Nat} {routine : RoutineKey} {d : Decoder}
    (traced : TracedTo schema registry .decoding routine d) {record : RecordType}
    (declared : schema.record? routine.record = some record) {input : Json} {owner key : String}
    (failed : (d.callWithin fuel input).Fails (.of (.unknownKey owner key))) :
    owner = record.name ∧ routine.config.policy = .raise ∧
      (∀ f ∈ record.fields, f.catchAll = false) ∧
      key ∈ Direct.leftOver record routine.config input := by
  cases fuel with
  | zero => cases failed
  | succ fuel =>
    obtain ⟨bound, r, parts, made, -⟩ := traced.code
    obtain rfl := Option.some.inj (declared.symm.trans made.declared)
    rw [made.callWithin_decode declarations] at failed
    exact Direct.mem_leftOver_of_unknownKey failed

/-- Whatever a codec did before, and with whatever handlers: if decoding fails for a key that is
unknown to the record itself, the policy is to raise and no catch-all field is there, and the key is
one of the input, not the discriminator, and none that a field is looked for under, unless the input
spells this field more than once or in part. -/
theorem Codec.unknownKey_of_decode {c : Codec} (declarations : c.schema.Declared)
    (history : c.cache.History c.schema c.registry) {name : String} {overrides config : Config}
    {record : RecordType} (resolved : c.resolvedConfig name overrides = .ok config)
    (declared : c.schema.record? name = some record) {input : Json} {owner key : String}
    (failed : (c.decode name input overrides).1.Fails (.of (.unknownKey owner key))) :
    owner = record.name ∧ config.policy = .raise ∧ (∀ f ∈ record.fields, f.catchAll = false) ∧
      key ∈ input.keys ∧ tagKeyOf? record config ≠ some key ∧
      ∀ f ∈ record.fields, Locator.spellsOnce config input f = true →
        Locator.looksFor config f key = false := by
  rcases Fails.bind_iff.1 failed with uncompiled | ⟨d, isDecoder, failed⟩
  · cases decoder_isCompilation _ uncompiled
  · obtain ⟨config', resolved', traced⟩ := decoder_traced history isDecoder
    obtain rfl := Except.ok.inj (resolved.symm.trans resolved')
    obtain ⟨isOwner, raises, noCatchAll, left⟩ :=
      traced.unknownKey_of_callWithin declarations declared failed
    have ofInput := List.mem_filter.1 left
    refine ⟨isOwner, raises, noCatchAll, ofInput.1, ?_, fun f isField once =>
      Direct.not_looksFor_of_mem_leftOver noCatchAll left isField once⟩
    simpa using (Bool.and_eq_true_iff.1 ofInput.2).2

namespace Parcels

def weightField : Field := { name := "weight", type := .primitive .int, aliasKey := some "mass" }

def columnField : Field := { name := "column", type := .primitive .int, path := some ["at", "x"] }

def parcel : RecordType where
  name := "Parcel"
  fields := [weightField, columnField]

def codec : Codec where
  schema := { records := Table.empty.insert "Parcel" parcel }

theorem declared : codec.schema.Declared := .record parcel .empty rfl

theorem history : codec.cache.History codec.schema codec.registry := .empty 0 0

/-- Refuses unknown keys, and accepts the weight under its name as well. -/
def strict : Config where
  decodeAliases := Table.empty.insert "weight" ["weight"]
  unknownKeys := some .raise

def labelled : Json :=
  .object [("at", .object [("x", .ofInt64 4)]), ("label", .string "fragile"), ("mass", .ofInt64 3)]

def weighedTwice : Json :=
  .object [("at", .object [("x", .ofInt64 4)]), ("mass", .ofInt64 3), ("weight", .ofInt64 3)]

def refuses (key : String) (e : Failure) : Bool :=
  match e with
  | ⟨.unknownKey owner refused, []⟩ => owner == "Parcel" && refused == key
  | _ => false

theorem fails_of_refuses {α : Type} (key : String) {r : Run α}
    (h : r.failsWith (refuses key) = true) : r.Fails (.of (.unknownKey "Parcel" key)) := by
  obtain ⟨e, failed, isUnknown⟩ := exists_of_failsWith h
  unfold refuses at isUnknown
  split at isUnknown
  case h_1 owner refused =>
    obtain ⟨isOwner, isKey⟩ := Bool.and_eq_true_iff.1 isUnknown
    exact beq_iff_eq.1 isOwner ▸ beq_iff_eq.1 isKey ▸ failed
  case h_2 => cases isUnknown

end Parcels

theorem Codec.unknownKey_of_decode_labelled :
    (Parcels.codec.decode "Parcel" Parcels.labelled Parcels.strict).1.Fails
        (.of (.unknownKey "Parcel" "label")) ∧
      ∀ f ∈ Parcels.parcel.fields, Locator.looksFor Parcels.strict f "label" = false := by
  have failed : (Parcels.codec.decode "Parcel" Parcels.labelled Parcels.strict).1.Fails
      (.of (.unknownKey "Parcel" "label")) := Parcels.fails_of_refuses _ rfl
  have resolved : Parcels.codec.resolvedConfig "Parcel" Parcels.strict = .ok Parcels.strict := rfl
  obtain ⟨-, -, -, -, -, justified⟩ := unknownKey_of_decode Parcels.declared Parcels.history
    resolved rfl failed
  have once : ∀ f ∈ Parcels.parcel.fields,
      Locator.spellsOnce Parcels.strict Parcels.labelled f = true := by decide
  exact ⟨failed, fun f isField => justified f isField (once f isField)⟩

/-- The alias of the weight is refused, because the weight is found under its name. -/
theorem Codec.not_justified_of_decode_weighedTwice :
    Parcels.codec.schema.Declared ∧
      Parcels.codec.resolvedConfig "Parcel" Parcels.strict = .ok Parcels.strict ∧
      (Parcels.codec.decode "Parcel" Parcels.weighedTwice Parcels.strict).1.Fails
        (.of (.unknownKey "Parcel" "mass")) ∧
      Parcels.weightField ∈ Parcels.parcel.fields ∧
      Locator.looksFor Parcels.strict Parcels.weightField "mass" = true :=
  ⟨Parcels.declared, rfl, Parcels.fails_of_refuses _ rfl, List.mem_cons_self,
    rfl⟩

end RecordCodec
