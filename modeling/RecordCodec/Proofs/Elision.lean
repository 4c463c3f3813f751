import RecordCodec.Proofs.EqualInputs
import RecordCodec.Proofs.Restoring

set_option autoImplicit false

/-!
# Fields that are left out

An encoder leaves a field out if its value equals the default, before it encodes the value or, for
a declared default, after. The decoder finds nothing at the places of the field and puts the
default there, which matches the value for this very reason.
-/
namespace RecordCodec

open Routine

/-- The fields of a record are found where they are written, and only defaults are left out. -/
structure Elides (schema : Schema) (r : RecordType) (config : Config) : Prop where
  types : ∀ f ∈ r.fields, Reversible schema f.type
  locates : Locates r config
  keepsNone : config.omitsNone = false
  skips : ∀ f ∈ r.fields,
    f.skip.always = false ∧ f.skip.ifNone = false ∧ f.skip.when?.isSome = false
  /-- What is declared as a default was read from a text. -/
  declared : ∀ f ∈ r.fields, ∀ raw, f.default = some (.declared raw) → raw.Proper
  offTag : Compile.Encoder.inArrayForm r config = false →
    ∀ f ∈ r.fields, ∀ p ∈ Compile.decodePlaces config f,
      ∀ e ∈ Direct.tagMembers r config, ¬p <+: [e.1]

namespace Compile.Target

theorem proper_insert {key : String} {v : Json} {members : List (String × Json)}
    (h : (Json.object members).Proper) (proper : v.Proper) :
    (Json.object (Assoc.insert key v members)).Proper := by
  cases h with
  | object distinct inner =>
    refine .object (Assoc.nodup_keys_insert distinct) fun e mem => ?_
    rcases Assoc.mem_insert mem with rfl | mem
    · exact proper
    · exact inner e mem

theorem proper_membersOf {v : Option Json} (h : ∀ x, v = some x → x.Proper) :
    (Json.object (membersOf v)).Proper := by
  have empty : (Json.object []).Proper := .object .nil nofun
  cases v with
  | none => exact empty
  | some v =>
    cases v with
    | object members => exact h _ rfl
    | _ => exact empty

theorem proper_writePath {v : Json} (proper : v.Proper) {path : List String}
    {members : List (String × Json)} (h : (Json.object members).Proper) :
    (Json.object (writePath v path members)).Proper := by
  induction path generalizing members with
  | nil => exact h
  | cons first rest ih =>
    cases rest with
    | nil => exact proper_insert h proper
    | cons second more =>
      exact proper_insert h (ih (proper_membersOf fun x isMember => h.get? isMember))

theorem proper_writeAll {writes : List (List String × Json)} (proper : ∀ e ∈ writes, e.2.Proper)
    {members : List (String × Json)} (h : (Json.object members).Proper) :
    (Json.object (writeAll writes members)).Proper := by
  induction writes generalizing members with
  | nil => exact h
  | cons e rest ih =>
    obtain ⟨first, others⟩ := List.forall_mem_cons.1 proper
    exact ih others (proper_writePath first h)

end Compile.Target

namespace Direct

open Compile Converter

section
variable {record : RecordType} {config : Config}

theorem proper_tagMembers : (Json.object (tagMembers record config)).Proper := by
  unfold tagMembers
  split
  · exact .object (List.nodup_singleton _) (by simp [Json.Proper.string])
  · exact .object .nil nofun

theorem proper_written {json : Field → Option Json}
    (proper : ∀ f ∈ record.fields, ∀ j, json f = some j → j.Proper) :
    (Json.object (written record config json)).Proper := by
  refine Target.proper_writeAll (fun e mem => ?_) proper_tagMembers
  obtain ⟨f, isField, isJson, -⟩ := mem_writes.1 mem
  exact proper f isField e.2 isJson

/-- From whatever equals the encoded form of a field, or from its absence, comes an instance that
matches the value of the field. -/
structure Reads (record : RecordType) (config : Config) (convert : Decode) (field : Field)
    (value : Option Instance) (json : Option Json) : Prop where
  proper : ∀ j, json = some j → j.Proper
  missed : json = none → field.isRequired record.kind = false
  read : ∀ input index,
    Option.Rel (fun x y => Json.same x y = true) json (located? record config input index field) →
    ∃ o, (decodeInTurn record config input convert index field).Returns o ∧
      Option.Rel Instance.Matches value o

namespace Reads

variable {convert : Decode} {field : Field} (notLast : field.catchAll = false)
include notLast

theorem of_written {v : Instance} {j : Json} (proper : j.Proper)
    (restores : ∀ j', j.same j' = true → ∃ back, (convert j').Returns back ∧ v.Matches back) :
    Reads record config convert field (some v) (some j) where
  proper _ is := Option.some.inj is ▸ proper
  missed := nofun
  read input index found := by
    rcases rel_cases found with ⟨is, -⟩ | ⟨x, j', is, isFound, equal⟩
    · cases is
    · cases is
      obtain ⟨back, decoded, isBack⟩ := restores j' equal
      refine ⟨some back, ?_, .some isBack⟩
      simp only [decodeInTurn, notLast, Bool.false_eq_true, if_false, decodeField, isFound,
        Run.Returns.bind_iff, Run.Returns.mapError_iff, Run.Returns.pure_iff]
      exact ⟨back, decoded, rfl⟩

theorem of_absent {value back : Option Instance} (optional : field.isRequired record.kind = false)
    (decoded : (decodeAbsent record convert field).Returns back)
    (isBack : Option.Rel Instance.Matches value back) :
    Reads record config convert field value none where
  proper := nofun
  missed _ := optional
  read input index found := by
    rcases rel_cases found with ⟨-, isFound⟩ | ⟨_, _, is, -⟩
    · refine ⟨back, ?_, isBack⟩
      simp only [decodeInTurn, notLast, Bool.false_eq_true, if_false, decodeField, isFound]
      exact decoded
    · cases is

end Reads

end

section Values
variable {record : RecordType} {config : Config} {input j : Json} {convert : Field → Decode}
  {json : Field → Option Json} {back : List (String × Instance)}

theorem forall₂_present {R : Instance → Instance → Prop} {fields : List Field}
    {values others : List (Option Instance)} (h : List.Forall₂ (Option.Rel R) values others) :
    List.Forall₂ (fun e e' => e.1 = e'.1 ∧ R e.2 e'.2) (present fields values)
      (present fields others) := by
  induction fields generalizing values others with
  | nil => cases h <;> exact .nil
  | cons f fields ih =>
    cases h with
    | nil => exact .nil
    | cons related later =>
      cases related with
      | none => exact ih later
      | some related => exact .cons ⟨rfl, related⟩ (ih later)

/-- Whatever equals the encoded form of a record decodes to a record that matches it. -/
theorem exists_decodeRecord_returns (checked : record.Checked) (locates : Locates record config)
    (form : Decoder.checkForm record j = .ok ())
    (located : ∀ e ∈ record.fields.zipIdx, located? record config j e.2 e.1 = json e.1)
    (nothing : leftOver record config j = [])
    (reads : ∀ f ∈ record.fields,
      Reads record config (convert f) f (Assoc.get? f.name back) (json f))
    (shape : record.HasFields back) (proper : j.Proper) (equal : j.same input = true) :
    ∃ w, (decodeRecord record config input convert).Returns w ∧
      (Instance.record record.name back).Matches w := by
  have found : ∀ e ∈ record.fields.zipIdx, Option.Rel (fun x y => Json.same x y = true)
      (json e.1) (located? record config input e.2 e.1) := fun e mem => by
    rw [← located e mem]
    exact located?_same locates.cased proper equal e.2 e.1
  obtain ⟨values, areRead⟩ := exists_forall₂ fun e mem =>
    (reads e.1 (List.fst_mem_of_mem_zipIdx mem)).read input e.2 (found e mem)
  have optional : missingFields record config input 0 record.fields = [] := by
    refine missingFields_eq_nil_iff.2 fun e mem absent => ?_
    refine (reads e.1 (List.fst_mem_of_mem_zipIdx mem)).missed ?_
    rcases rel_cases (found e mem) with ⟨isJson, -⟩ | ⟨_, _, -, isFound, -⟩
    · exact isJson
    · rw [absent] at isFound
      cases isFound
  refine ⟨.record record.name (present record.fields values), ?_, ?_⟩
  · rw [decodeRecord_returns_iff]
    refine ⟨Decoder.checkForm_same equal form, optional, values, values, ?_, ?_, rfl⟩
    · exact decodeFields_returns_iff.2 (areRead.imp fun _ _ both => both.1)
    · exact decodeLeftOver_of_none locates.noCatchAll
        (leftOver_same locates.cased proper equal nothing) values
  · rw [← present_get? checked.distinct shape.order]
    have byField : List.Forall₂ (fun f o => Option.Rel Instance.Matches (Assoc.get? f.name back) o)
        (record.fields.zipIdx.map Prod.fst) values :=
      List.forall₂_map_left_iff.2 (areRead.imp fun _ _ both => both.2)
    rw [List.zipIdx_map_fst] at byField
    exact .record_of_forall₂ (forall₂_present (List.forall₂_map_left_iff.2 byField))

end Values

section Defaults
variable {record : RecordType} {config : Config} {field : Field} {convert : Decode}

theorem isRequired_of_default (h : field.default.isSome = true) (kind : RecordKind) :
    field.isRequired kind = false := by
  simp [Field.isRequired, h]

theorem exists_of_isDefault {w : Instance} (h : Omission.isDefault w field.default = true) :
    field.default.isSome = true ∧
      ∃ d, (decodeAbsent record convert field).Returns (some d) ∧ Instance.same w d = true := by
  cases isDefault : field.default with
  | none => simp [isDefault, Omission.isDefault] at h
  | some default =>
    rw [isDefault] at h
    refine ⟨rfl, ?_⟩
    cases default with
    | value d | fresh d =>
      refine ⟨d, ?_, h⟩
      simp [decodeAbsent, isDefault]
    | declared raw => cases h

theorem exists_of_omitsEncoded {j : Json}
    (h : (Omission.ofField config field).omitsEncoded j = true) :
    ∃ raw, field.default = some (.declared raw) ∧ raw.same j = true := by
  unfold Omission.omitsEncoded at h
  split at h
  case h_1 raw isDefault => exact ⟨raw, isDefault, (Bool.and_eq_true_iff.1 h).2⟩
  case h_2 => cases h

end Defaults

section Records
variable {schema : Schema} {record : RecordType} {config : Config} {given : Instance}
  {back : List (String × Instance)} (elides : Elides schema record config)
include elides

theorem omits_eq {field : Field} (mem : field ∈ record.fields) (v : Instance) :
    (Omission.ofField config field).omits v =
      ((field.skip.ifDefault || config.omitsDefault) && Omission.isDefault v field.default) := by
  obtain ⟨-, ifNone, noCondition⟩ := elides.skips field mem
  have none : field.skip.when? = none := by simpa using noCondition
  simp [Omission.omits, Omission.ofField, ifNone, elides.keepsNone, none]

theorem exists_reads {field : Field} (mem : field ∈ record.fields) {encode : Encode}
    {decode : Decode} {v w : Instance} (isGiven : given.field? field.name = some w)
    (restores : Restores encode decode w v) (regular : v.Regular)
    (equal : Instance.same v w = true) :
    ∃ json, (∀ members, (encodeInTurn record config given encode field members).Returns
        (withMember config field members json)) ∧
      Reads record config decode field (some v) json := by
  have notLast := elides.locates.noCatchAll field mem
  obtain ⟨j, encoded, proper, restored⟩ := restores
  cases omitted : (Omission.ofField config field).omits w with
  | true =>
    rw [omits_eq elides mem, Bool.and_eq_true] at omitted
    obtain ⟨hasDefault, d, isAbsent, equal'⟩ := exists_of_isDefault omitted.2
    have isBack := Instance.Matches.of_same regular (regular.same_trans equal equal')
    refine ⟨none, fun members => ?_,
      .of_absent notLast (isRequired_of_default hasDefault _) isAbsent (.some isBack)⟩
    simp [encodeInTurn, notLast, encodeMember, isGiven, omits_eq elides mem, omitted, withMember]
  | false =>
    cases omittedEncoded : (Omission.ofField config field).omitsEncoded j with
    | true =>
      obtain ⟨raw, isDefault, same⟩ := exists_of_omitsEncoded omittedEncoded
      obtain ⟨d, decoded, isBack⟩ :=
        restored raw ((elides.declared field mem raw isDefault).same_symm same)
      refine ⟨none, fun members => ?_, .of_absent notLast
        (isRequired_of_default (by rw [isDefault]; rfl) _) ?_ (.some isBack)⟩
      · simp only [encodeInTurn, notLast, Bool.false_eq_true, if_false, encodeMember, isGiven,
          omitted, Run.Returns.bind_iff, Run.Returns.mapError_iff, Run.Returns.pure_iff]
        exact ⟨j, encoded, by simp [omittedEncoded, withMember]⟩
      · simp only [decodeAbsent, isDefault, Run.Returns.bind_iff, Run.Returns.mapError_iff,
          Run.Returns.pure_iff]
        exact ⟨d, decoded, rfl⟩
    | false =>
      refine ⟨some j, fun members => ?_, .of_written notLast proper restored⟩
      simp only [encodeInTurn, notLast, Bool.false_eq_true, if_false, encodeMember, isGiven,
        omitted, Run.Returns.bind_iff, Run.Returns.mapError_iff, Run.Returns.pure_iff]
      exact ⟨j, encoded, by simp [omittedEncoded, withMember]⟩

theorem exists_reads_of_absent (shape : record.HasFields back) {field : Field}
    (mem : field ∈ record.fields) {encode : Encode} {decode : Decode}
    (isGiven : given.field? field.name = none) (isBack : Assoc.get? field.name back = none) :
    (∀ members, (encodeInTurn record config given encode field members).Returns members) ∧
      Reads record config decode field none none := by
  have notLast := elides.locates.noCatchAll field mem
  have optional : ¬(field.isRequired record.kind = true ∨ field.default.isSome = true) :=
    fun needed => Assoc.get?_eq_none_iff.1 isBack (shape.complete field mem needed)
  obtain ⟨optional, noDefault⟩ := not_or.1 optional
  refine ⟨fun members => by simp [encodeInTurn, notLast, encodeMember, isGiven], ?_⟩
  have none : field.default = none := by simpa using noDefault
  have absent : (decodeAbsent record decode field).Returns Option.none := by
    simp [decodeAbsent, none]
  exact .of_absent notLast (by simpa using optional) absent .none

theorem encoderFields_eq : Encoder.fields record config = record.fields :=
  List.filter_eq_self.2 fun f mem => by simp [(elides.skips f mem).1]

variable {encode : Field → Encode} {decode : Field → Decode} (checked : record.Checked)
  (shape : record.HasFields back) (isRecord : Encoder.checkType record given = .ok ())
  (h : ∀ f ∈ record.fields, Option.Rel
    (fun w v => Restores (encode f) (decode f) w v ∧ v.Regular ∧ Instance.same v w = true)
    (given.field? f.name) (Assoc.get? f.name back))
include checked shape isRecord h

theorem restores_array (isArray : Encoder.inArrayForm record config = true) :
    Restores (fun v => encodeRecord record config v encode)
      (fun j => decodeRecord record config j decode) given (.record record.name back) := by
  have positional : record.kind = .positional := by
    simp only [Encoder.inArrayForm, Bool.and_eq_true, beq_iff_eq] at isArray
    exact isArray.1
  have forms : ∀ f ∈ record.fields, ∃ o : Option Json, o.isSome = true ∧
      Option.Rel (fun w j => (encode f w).Returns j) (given.field? f.name) o ∧
      Reads record config (decode f) f (Assoc.get? f.name back) o := by
    intro f mem
    have isSome := isSome_of_positional positional elides.locates.noCatchAll shape mem
    rcases rel_cases (h f mem) with ⟨-, isBack⟩ | ⟨w, v, isGiven, isBack, restores, -⟩
    · simp [isBack] at isSome
    · obtain ⟨j, encoded, proper, restored⟩ := restores
      rw [isGiven, isBack]
      exact ⟨some j, rfl, .some encoded,
        .of_written (elides.locates.noCatchAll f mem) proper restored⟩
  obtain ⟨json, forms⟩ := exists_forall_mem forms
  have all : ∀ f ∈ record.fields, (json f).isSome = true := fun f mem => (forms f mem).1
  have proper : (Json.array (record.fields.filterMap json)).Proper := by
    refine .array fun j mem => ?_
    obtain ⟨f, isField, isJson⟩ := List.mem_filterMap.1 mem
    exact (forms f isField).2.2.proper j isJson
  refine ⟨.array (record.fields.filterMap json), encodeRecord_returns_iff.2 ?_, proper,
    fun j' equal => ?_⟩
  · have present := absentFields_eq_nil shape fun f mem => isSome_of_rel (h f mem)
    rw [encoderFields_eq elides, encodeOutput, if_pos isArray]
    exact ⟨isRecord, present, Run.Returns.bind_iff.2
      ⟨_, encodeElements_returns (fun f mem => (forms f mem).2.1) all, rfl⟩⟩
  · have short := List.length_filterMap_le json record.fields
    have form : Decoder.checkForm record (.array (record.fields.filterMap json)) = .ok () := by
      simp [Decoder.checkForm, positional, short]
    exact exists_decodeRecord_returns checked elides.locates form
      (fun e mem => located?_elements positional all mem) rfl (fun f mem => (forms f mem).2.2)
      shape proper equal

theorem restores_object (isArray : Encoder.inArrayForm record config = false) :
    Restores (fun v => encodeRecord record config v encode)
      (fun j => decodeRecord record config j decode) given (.record record.name back) := by
  have forms : ∀ f ∈ record.fields, ∃ o,
      (∀ members, (encodeInTurn record config given (encode f) f members).Returns
        (withMember config f members o)) ∧
      Reads record config (decode f) f (Assoc.get? f.name back) o := by
    intro f mem
    rcases rel_cases (h f mem) with ⟨isGiven, isBack⟩ | ⟨w, v, isGiven, isBack, restores, both⟩
    · rw [isBack]
      exact ⟨none, exists_reads_of_absent elides shape mem isGiven isBack⟩
    · rw [isBack]
      exact exists_reads elides mem isGiven restores both.1 both.2
  obtain ⟨json, forms⟩ := exists_forall_mem forms
  have noLast : record.fields.find? Field.catchAll = none := by
    simpa using elides.locates.noCatchAll
  have proper : (Json.object (written record config json)).Proper :=
    proper_written fun f mem => (forms f mem).2.proper
  refine ⟨.object (written record config json), encodeRecord_returns_iff.2 ?_, proper,
    fun j' equal => ?_⟩
  · have present := absentFields_eq_nil shape fun f mem => isSome_of_rel (h f mem)
    rw [encoderFields_eq elides, encodeOutput, isArray, encodeObject, noLast]
    have members : (encodeMembers record config given encode record.fields
        (tagMembers record config)).Returns (written record config json) :=
      encodeMembers_returns (fun f mem => (forms f mem).1) _
    exact ⟨isRecord, present, Run.Returns.bind_iff.2 ⟨_, members, rfl⟩⟩
  · exact exists_decodeRecord_returns checked elides.locates rfl
      (fun e mem => located?_written elides.locates checked (elides.offTag isArray)
        (List.fst_mem_of_mem_zipIdx mem) e.2)
      (leftOver_written elides.locates checked) (fun f mem => (forms f mem).2) shape proper equal

theorem restores_record :
    Restores (fun v => encodeRecord record config v encode)
      (fun j => decodeRecord record config j decode) given (.record record.name back) := by
  cases isArray : Encoder.inArrayForm record config with
  | true => exact restores_array elides checked shape isRecord h isArray
  | false => exact restores_object elides checked shape isRecord h isArray

end Records

end Direct
end RecordCodec
