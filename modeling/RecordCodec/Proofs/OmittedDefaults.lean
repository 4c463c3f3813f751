import RecordCodec.Proofs.Elision
import RecordCodec.Proofs.Encodable
import RecordCodec.Proofs.MappingKeys
import RecordCodec.Proofs.MissingFields
import RecordCodec.Proofs.Overwriting

set_option autoImplicit false

/-!
# Defaults that are left out

An encoder that omits defaults leaves out a field whose value the decoder would supply, so that it
writes what it writes for the instance without the field. A default that is an instance is compared
with the value. A default that is declared as JSON is compared with what the value is encoded to, so
that the declaration has to be spelled as the encoder spells it. What a record of defaults makes of
an empty object is encoded to an empty object again, but for the tag that a configured discriminator
asks for.
-/
namespace RecordCodec

open Routine Run Compile Direct
open Converter (Encode Decode)

/-- The instance that has all fields of a record but one. -/
def Instance.without (name : String) : Instance → Instance
  | record type fields => record type (fields.filter fun e => e.1 != name)
  | v => v

theorem Assoc.get?_filter_ne {α : Type} {name other : String} (entries : List (String × α)) :
    get? other (entries.filter fun e => e.1 != name) =
      if other = name then none else get? other entries := by
  induction entries with
  | nil => simp [get?]
  | cons e rest ih =>
    obtain ⟨key, v⟩ := e
    by_cases dropped : key = name
    · subst dropped
      by_cases same : other = key
      · simpa [same] using ih
      · simpa [get?, same, Ne.symm same] using ih
    · by_cases same : key = other
      · subst same
        simp [get?, dropped]
      · simpa [get?, dropped, same] using ih

theorem Instance.field?_without (name other : String) (v : Instance) :
    (v.without name).field? other = if other = name then none else v.field? other := by
  cases v with
  | record type fields => exact Assoc.get?_filter_ne fields
  | _ => simp [without, field?]

section Encoding
variable {record : RecordType} {config : Config} {given : Instance} {convert : Field → Encode}
  {field : Field} {v : Instance}

/-- A rule leaves the field out if it has this value. -/
def Direct.LeavesOut (config : Config) (convert : Encode) (field : Field) (v : Instance) : Prop :=
  (Omission.ofField config field).omits v = true ∨
    ∃ w, (convert v).Returns w ∧ (Omission.ofField config field).omitsEncoded w = true

theorem Direct.encodeMember_of_leavesOut {convert : Encode}
    (isGiven : given.field? field.name = some v) (out : LeavesOut config convert field v)
    (members : List (String × Json)) :
    encodeMember record config given convert field members = pure members := by
  unfold encodeMember
  simp only [isGiven]
  rcases out with omitted | ⟨w, returns, omitted⟩
  · rw [if_pos omitted]
  · split
    · rfl
    · rw [returns.eq_pure]
      change (pure (if _ then members else _) : Run _) = pure members
      rw [if_pos omitted]

theorem Direct.default_of_decodeAbsent {decode : Decode} {x : Instance}
    (supplied : (decodeAbsent record decode field).Returns (some x)) :
    field.default.isSome = true := by
  cases isDefault : field.default with
  | none =>
    simp only [decodeAbsent, isDefault] at supplied
    cases Returns.pure_iff.1 supplied
  | some => rfl

/-- A field that has the value that the decoder supplies is left out, if a declared default is
spelled as the encoder spells the value. -/
theorem Direct.leavesOut_of_decodeAbsent {convert : Encode} {decode : Decode} {x : Instance}
    (omits : config.omitsDefault = true)
    (supplied : (decodeAbsent record decode field).Returns (some x)) (same : v.same x = true)
    (spelled : ∀ raw, field.default = some (.declared raw) →
      ∃ w, (convert v).Returns w ∧ raw.same w = true) : LeavesOut config convert field v := by
  have ifDefault : (Omission.ofField config field).ifDefault = true := by
    simp [Omission.ofField, omits]
  have isDefault : (Omission.ofField config field).default = field.default := rfl
  unfold decodeAbsent at supplied
  split at supplied
  case h_1 d given | h_2 d given =>
    cases Returns.pure_iff.1 supplied
    left
    simp [Omission.omits, ifDefault, isDefault, given, Omission.isDefault, same]
  case h_3 raw given =>
    obtain ⟨w, returns, sameText⟩ := spelled raw given
    refine .inr ⟨w, returns, ?_⟩
    simp [Omission.omitsEncoded, ifDefault, isDefault, given, sameText]
  case h_4 => cases Returns.pure_iff.1 supplied

theorem Direct.encodeMembers_of_leavesOut {fields : List Field} (members : List (String × Json))
    (out : ∀ f ∈ fields, f.catchAll = false → ∀ v, given.field? f.name = some v →
      LeavesOut config (convert f) f v) :
    encodeMembers record config given convert fields members = pure members := by
  induction fields with
  | nil => rfl
  | cons f rest ih =>
    obtain ⟨first, others⟩ := List.forall_mem_cons.1 out
    have skipped : encodeInTurn record config given (convert f) f members = pure members := by
      unfold encodeInTurn
      split
      case isTrue => rfl
      case isFalse notLast =>
        cases isGiven : given.field? f.name with
        | none => simp only [encodeMember, isGiven]
        | some v =>
          have notLast : f.catchAll = false := by simpa using notLast
          exact encodeMember_of_leavesOut isGiven (first notLast v isGiven) _
    rw [encodeMembers, skipped, pure_bind, ih others]

section Without
variable (distinct : (record.fields.map Field.name).Nodup) (isField : field ∈ record.fields)
  (isGiven : given.field? field.name = some v)
include distinct isField isGiven

theorem Direct.encodeMembers_without {fields : List Field} (own : ∀ f ∈ fields, f ∈ record.fields)
    (out : field ∈ fields → LeavesOut config (convert field) field v)
    (members : List (String × Json)) :
    encodeMembers record config given convert fields members =
      encodeMembers record config (given.without field.name) convert fields members := by
  induction fields generalizing members with
  | nil => rfl
  | cons f rest ih =>
    obtain ⟨isOwn, others⟩ := List.forall_mem_cons.1 own
    have turn : encodeInTurn record config given (convert f) f members =
        encodeInTurn record config (given.without field.name) (convert f) f members := by
      unfold encodeInTurn
      -- the field itself adds nothing either way, and the others have the same values
      by_cases same : f.name = field.name
      · obtain rfl : f = field := List.inj_on_of_nodup_map distinct isOwn isField same
        have absent : (given.without f.name).field? f.name = none := by
          rw [Instance.field?_without, if_pos rfl]
        rw [encodeMember_of_leavesOut isGiven (out List.mem_cons_self)]
        simp only [encodeMember, absent]
      · simp only [encodeMember, Instance.field?_without, if_neg same]
    rw [encodeMembers, encodeMembers, turn]
    exact bind_congr fun members => ih others (fun mem => out (List.mem_cons_of_mem _ mem)) members

end Without

/-- A record is encoded to an object as if it did not have a field that is left out. -/
theorem Direct.encodeRecord_without (checked : record.Checked)
    (form : Encoder.inArrayForm record config = false)
    (isInstance : Encoder.checkType record given = .ok ()) (isField : field ∈ record.fields)
    (notLast : field.catchAll = false) (default : field.default.isSome = true)
    (isGiven : given.field? field.name = some v)
    (out : field ∈ Encoder.fields record config → LeavesOut config (convert field) field v) :
    encodeRecord record config given convert =
      encodeRecord record config (given.without field.name) convert := by
  have own : ∀ f ∈ Encoder.fields record config, f ∈ record.fields :=
    fun f mem => (List.mem_filter.1 mem).1
  have others : ∀ f ∈ record.fields, f ≠ field →
      (given.without field.name).field? f.name = given.field? f.name := by
    intro f mem other
    have apart : f.name ≠ field.name := fun same =>
      other (List.inj_on_of_nodup_map checked.distinct mem isField same)
    rw [Instance.field?_without, if_neg apart]
  have stillInstance : Encoder.checkType record (given.without field.name) = .ok () := by
    cases given with
    | record type fields => simpa [Encoder.checkType, Instance.without] using isInstance
    | _ => cases isInstance
  have absent : absentFields record given (Encoder.fields record config) =
      absentFields record (given.without field.name) (Encoder.fields record config) := by
    refine congrArg (List.map Field.name) (List.filter_congr fun f mem => ?_)
    by_cases same : f = field
    · rw [same, isRequired_of_default default, Bool.false_and, Bool.false_and]
    · rw [others f (own f mem) same]
  have splat : ∀ f ∈ record.fields, f.catchAll = true →
      splatMembers record given (convert f) f =
        splatMembers record (given.without field.name) (convert f) f := by
    intro f mem last
    have other : f ≠ field := by
      rintro rfl
      cases notLast.symm.trans last
    simp only [splatMembers, others f mem other]
  simp only [encodeRecord, encodeOutput, form, Bool.false_eq_true, if_false, encodeObject,
    isInstance, stillInstance, absent,
    encodeMembers_without checked.distinct isField isGiven own out]
  cases found : (Encoder.fields record config).find? Field.catchAll with
  | none => rfl
  | some f =>
    have mem := own f (List.mem_of_find?_eq_some found)
    simp only [splat f mem (List.find?_some found)]

theorem Direct.encodeRecord_of_leavesOut (form : Encoder.inArrayForm record config = false)
    (isInstance : Encoder.checkType record given = .ok ())
    (defaults : ∀ f ∈ record.fields, f.default.isSome = true)
    (out : ∀ f ∈ Encoder.fields record config, f.catchAll = false → ∀ v,
      given.field? f.name = some v → LeavesOut config (convert f) f v)
    (nothing : ∀ f ∈ Encoder.fields record config, f.catchAll = true → ∀ v,
      given.field? f.name = some v → (convert f v).Returns (.object [])) :
    (encodeRecord record config given convert).Returns (.object (tagMembers record config)) := by
  have own : ∀ f ∈ Encoder.fields record config, f ∈ record.fields :=
    fun f mem => (List.mem_filter.1 mem).1
  have complete : absentFields record given (Encoder.fields record config) = [] := by
    refine List.map_eq_nil_iff.2 (List.filter_eq_nil_iff.2 fun f mem => ?_)
    simp [isRequired_of_default (defaults f (own f mem))]
  refine encodeRecord_returns_iff.2 ⟨isInstance, complete, ?_⟩
  simp only [encodeOutput, form, Bool.false_eq_true, if_false, encodeObject,
    encodeMembers_of_leavesOut _ out, pure_bind]
  cases found : (Encoder.fields record config).find? Field.catchAll with
  | none => exact Returns.pure_iff.2 rfl
  | some f =>
    have mem := List.mem_of_find?_eq_some found
    have empty : (splatMembers record given (convert f) f).Returns [] := by
      unfold splatMembers
      split
      case h_1 => exact Returns.pure_iff.2 rfl
      case h_2 v isGiven =>
        have returns := nothing f mem (List.find?_some found) v isGiven
        exact Returns.mapError_iff.2 (Returns.bind_iff.2 ⟨_, returns, Returns.pure_iff.2 rfl⟩)
    exact Returns.bind_iff.2 ⟨[], empty, Returns.pure_iff.2 rfl⟩

end Encoding

section Decoding
variable {record : RecordType} {config : Config} {input : Json} {convert : Field → Decode}

theorem Direct.field_of_decodeRecord (checked : record.Checked) {back x : Instance}
    (decoded : (decodeRecord record config input convert).Returns back) {k : Nat} {f : Field}
    (isField : record.fields[k]? = some f) (isValue : back.field? f.name = some x) :
    (f.catchAll = false → (decodeField record config input (convert f) k f).Returns (some x)) ∧
      (f.catchAll = true → (convert f (gathered record config input)).Returns x) := by
  obtain ⟨-, -, values, values', filled, completed, rfl⟩ := decodeRecord_returns_iff.1 decoded
  have atIndex : values'[k]? = some (some x) := getElem?_of_mem_present checked.distinct isField
    (Assoc.mem_of_get? (isValue : Assoc.get? f.name _ = some x))
  have own : values[k]? = some (some x) →
      f.catchAll = false ∧ (decodeField record config input (convert f) k f).Returns (some x) :=
    fun isOwn => decodeField_of_decodeInTurn (decodeInTurn_of_decodeFields filled isField isOwn)
  rcases decodeLeftOver_returns completed with
    ⟨rfl, -⟩ | ⟨index, last, i, isLast, isCatchAll, returns, rfl⟩
  · obtain ⟨notCatchAll, returns⟩ := own atIndex
    exact ⟨fun _ => returns, fun isCatchAll => by cases notCatchAll.symm.trans isCatchAll⟩
  by_cases here : index = k
  · subst here
    obtain rfl := Option.some.inj (isField.symm.trans isLast)
    have inRange : index < values.length := by
      simpa using (List.getElem?_eq_some_iff.1 atIndex).1
    rw [List.getElem?_set_self inRange] at atIndex
    cases atIndex
    exact ⟨fun notCatchAll => (by cases notCatchAll.symm.trans isCatchAll), fun _ => returns⟩
  · rw [List.getElem?_set_ne here] at atIndex
    obtain ⟨notCatchAll, returns⟩ := own atIndex
    exact ⟨fun _ => returns, fun isCatchAll => by cases notCatchAll.symm.trans isCatchAll⟩

theorem Direct.located?_emptyObject (checked : record.Checked) {f : Field}
    (isField : f ∈ record.fields) (k : Nat) : located? record config (.object []) k f = none := by
  simp only [located?, place?, Locator.locate, Locator.ofField]
  cases isPath : f.path with
  | some path =>
    have ne := checked.path f isField path isPath
    cases path with
    | nil => contradiction
    | cons first rest => rfl
  | none =>
    simp only
    cases Locator.keyAmong? _ _ <;> rfl

end Decoding

namespace Routine.Linked

/-- What a converter makes of a value while the encoder is called for an instance. -/
def convertIn (given : Instance) (c : Converter) (e : Encoder) : Encode :=
  c.encode (e.calls (e.callBound given.depth - 1))

/-- If the default of the field is declared as JSON, the encoder writes the value as declared. -/
def WritesAsDeclared (e : Encoder) (parts : List (Field × Converter)) (given : Instance)
    (field : Field) (v : Instance) : Prop :=
  ∀ raw, field.default = some (.declared raw) → ∀ c, (field, c) ∈ parts →
    ∃ w, (e.convertIn given c v).Returns w ∧ raw.same w = true

end Routine.Linked

section Calls
variable {schema : Schema} {registry : Registry} {bound : Binding} {name : String}
  {config : Config} {record : RecordType} {parts : List (Field × Converter)} {e : Encoder}
  (declarations : schema.Declared)
  (made : Made schema registry .encoding bound name config record parts e.code)
  (omits : config.omitsDefault = true)
include declarations made omits

theorem Compile.Made.leavesOut {given v x : Instance} {field : Field} {decode : Decode}
    (supplied : (decodeAbsent record decode field).Returns (some x)) (same : v.same x = true)
    (spelled : e.WritesAsDeclared parts given field v)
    (isField : field ∈ Encoder.fields record config) {fuel : Nat}
    (enough : e.callBound given.depth = fuel + 1) :
    LeavesOut config (convertBy (fun c => c.encode (e.calls fuel)) parts field) field v := by
  have distinct := made.distinct declarations List.filter_sublist
  obtain ⟨c, isPart⟩ := made.exists_part isField
  rw [convertBy_of_mem distinct isPart]
  refine leavesOut_of_decodeAbsent omits supplied same fun raw given => ?_
  have returns := spelled raw given c isPart
  rwa [Linked.convertIn, enough] at returns

variable (form : Encoder.inArrayForm record config = false)
include form

theorem Compile.Made.call_eq_without {given v x : Instance} {field : Field} {decode : Decode}
    (isField : field ∈ record.fields) (notLast : field.catchAll = false)
    (supplied : (decodeAbsent record decode field).Returns (some x))
    (isInstance : Encoder.checkType record given = .ok ())
    (isGiven : given.field? field.name = some v) (same : v.same x = true)
    (spelled : e.WritesAsDeclared parts given field v) :
    Encoder.call e given = e.callWithin (e.callBound given.depth) (given.without field.name) := by
  have checked := (declarations.checked made.declared).2.2
  obtain ⟨fuel, enough⟩ := e.exists_callBound given.depth
  rw [Encoder.call, enough, made.callWithin_encode declarations,
    made.callWithin_encode declarations]
  exact encodeRecord_without checked form isInstance isField notLast
    (default_of_decodeAbsent supplied) isGiven fun inFields =>
      made.leavesOut declarations omits supplied same spelled inFields enough

end Calls

section Decoders
variable {schema : Schema} {bound : Binding} {name : String} {config : Config}
  {record : RecordType} {parts : List (Field × Converter)}

theorem Compile.Made.entries?_of_decode (declarations : schema.Declared)
    {calls : Calls Json Instance} {code : Code Json Instance}
    (made : Made schema .builtin .decoding bound name config record parts code) {back x : Instance}
    (decoded : (decodeRecord record config (.object [])
      (convertBy (fun c => c.decode calls) parts)).Returns back)
    {f : Field} (isField : f ∈ record.fields) (last : f.catchAll = true)
    (isValue : back.field? f.name = some x) : x.entries? = some [] := by
  have checked := (declarations.checked made.declared).2.2
  obtain ⟨k, atIndex⟩ := List.mem_iff_getElem?.1 isField
  have returns := (field_of_decodeRecord checked decoded atIndex isValue).2 last
  obtain ⟨c, isPart⟩ := made.exists_part isField
  rw [convertBy_of_mem (made.distinct declarations (.refl _)) isPart] at returns
  have isMapping := checked.isMapping isField last
  obtain ⟨key, item, isMapping, -⟩ := (made.compiled f c isPart).isMapping isMapping
  exact isMapping.entries?_of_decode_empty returns

theorem Compile.Made.encode_catchAll (declarations : schema.Declared) (calls : Calls Instance Json)
    {code : Code Instance Json}
    (made : Made schema .builtin .encoding bound name config record parts code) {x : Instance}
    {f : Field} (isField : f ∈ Encoder.fields record config) (last : f.catchAll = true)
    (nothing : x.entries? = some []) :
    (convertBy (fun c => c.encode calls) parts f x).Returns (.object []) := by
  have checked := (declarations.checked made.declared).2.2
  have isMapping := checked.isMapping (List.mem_filter.1 isField).1 last
  obtain ⟨c, isPart⟩ := made.exists_part isField
  rw [convertBy_of_mem (made.distinct declarations List.filter_sublist) isPart]
  obtain ⟨key, item, isMapping, -⟩ := (made.compiled f c isPart).isMapping isMapping
  exact (isMapping.encode_returns_iff nothing).2 ⟨[], rfl, Returns.pure_iff.2 rfl⟩

end Decoders

theorem Codec.exists_decodeRecord_of_decode {c : Codec} (declarations : c.schema.Declared)
    (history : c.cache.History c.schema c.registry) {record : String} {overrides config : Config}
    {r : RecordType} (declared : c.schema.record? record = some r)
    (resolved : c.resolvedConfig record overrides = .ok config) {input : Json} {back : Instance}
    (decoded : (c.decode record input overrides).1.Returns back) :
    ∃ bound parts calls code, Made c.schema c.registry .decoding bound record config r parts code ∧
      (decodeRecord r config input (convertBy (fun c => c.decode calls) parts)).Returns back := by
  obtain ⟨d, isDecoder, -⟩ := Returns.bind_iff.1 decoded
  obtain ⟨bound, parts, made, -, decodes⟩ :=
    exists_made_of_decoder declarations history declared resolved isDecoder
  rw [decodes] at decoded
  exact ⟨bound, parts, _, d.code, made, decoded⟩

/-- Whatever a codec did before, and with whatever handlers: an encoder that omits defaults encodes
an instance to an object as if it did not have a field whose value equals the one that the decoder
supplied where it did not find the field, if a default that is declared as JSON is declared as the
encoder writes the value. If all fields of a record have defaults, what the decoder makes of an
empty object is encoded to an object with the tag or with nothing. -/
theorem Codec.encode_omits_defaults {c : Codec} (declarations : c.schema.Declared)
    (history : c.cache.History c.schema c.registry) {record : String}
    {reading writing readUnder writtenUnder : Config} {r : RecordType}
    (declared : c.schema.record? record = some r)
    (reads : c.resolvedConfig record reading = .ok readUnder)
    (writes : c.resolvedConfig record writing = .ok writtenUnder)
    (omits : writtenUnder.omitsDefault = true)
    (form : Encoder.inArrayForm r writtenUnder = false) {input : Json} {back : Instance}
    (decoded : (c.decode record input reading).1.Returns back) {e : Encoder}
    (compiled : ((c.decode record input reading).2.encoder record writing).1.Returns e) :
    ∃ bound parts,
      Made c.schema c.registry .encoding bound record writtenUnder r parts e.code ∧
      CallsAsBound c.schema c.registry .encoding bound e ∧
      (∀ k f x, r.fields[k]? = some f → f.catchAll = false →
        located? r readUnder input k f = none → back.field? f.name = some x →
        ∀ given v, Encoder.checkType r given = .ok () → given.field? f.name = some v →
        v.same x = true → e.WritesAsDeclared parts given f v →
        ((c.decode record input reading).2.encode record given writing).1 =
          e.callWithin (e.callBound given.depth) (given.without f.name)) ∧
      (input = .object [] → (∀ f ∈ r.fields, f.default.isSome = true) →
        (c.registry = .builtin ∨ ∀ f ∈ r.fields, f.catchAll = false) →
        (∀ f ∈ r.fields, f.catchAll = false → ∀ x, back.field? f.name = some x →
          x.same x = true ∧ e.WritesAsDeclared parts back f x) →
        ((c.decode record input reading).2.encode record back writing).1.Returns
          (.object (tagMembers r writtenUnder))) := by
  obtain ⟨readBound, readParts, calls, code, readMade, isBack⟩ :=
    exists_decodeRecord_of_decode declarations history declared reads decoded
  have checked := (declarations.checked declared).2.2
  -- the codec has the same schema and handlers as before
  obtain ⟨cache, after, later, -⟩ := decoder_snd record reading history
  have successor : (c.decode record input reading).2 = { c with cache } := after
  rw [successor] at compiled ⊢
  obtain ⟨config, writes', traced⟩ := encoder_traced (c := { c with cache }) later compiled
  obtain rfl := Except.ok.inj (writes.symm.trans writes')
  obtain ⟨bound, r', parts, made, callsAsBound⟩ := traced.code
  obtain rfl := Option.some.inj (declared.symm.trans made.declared)
  have encodes := encode_of_encoder compiled
  refine ⟨bound, parts, made, callsAsBound, ?_, ?_⟩
  · intro k f x isField notLast absent isValue given v isInstance isGiven same spelled
    have supplied := (field_of_decodeRecord checked isBack isField isValue).1 notLast
    simp only [decodeField, absent] at supplied
    rw [encodes]
    exact made.call_eq_without declarations omits form (List.mem_of_getElem? isField) notLast
      supplied isInstance isGiven same spelled
  · rintro rfl defaults plain default
    obtain ⟨fuel, enough⟩ := e.exists_callBound back.depth
    rw [encodes, Encoder.call, enough, made.callWithin_encode declarations]
    have isInstance : Encoder.checkType r back = .ok () := by
      obtain ⟨-, -, -, values, -, -, rfl⟩ := decodeRecord_returns_iff.1 isBack
      simp [Encoder.checkType]
    refine encodeRecord_of_leavesOut form isInstance defaults
      (fun f inFields notLast x isValue => ?_) fun f inFields last x isValue => ?_
    · have isField := (List.mem_filter.1 inFields).1
      obtain ⟨k, atIndex⟩ := List.mem_iff_getElem?.1 isField
      have supplied := (field_of_decodeRecord checked isBack atIndex isValue).1 notLast
      simp only [decodeField, located?_emptyObject checked isField] at supplied
      obtain ⟨same, spelled⟩ := default f isField notLast x isValue
      exact made.leavesOut declarations omits supplied same spelled inFields enough
    · have isField := (List.mem_filter.1 inFields).1
      have builtin : c.registry = .builtin := by
        refine plain.resolve_right fun none => ?_
        cases last.symm.trans (none f isField)
      rw [builtin] at readMade made
      have nothing := readMade.entries?_of_decode declarations isBack isField last isValue
      exact made.encode_catchAll declarations _ inFields last nothing

namespace Retrying

def retriesField : Field where
  name := "retries"
  type := .primitive .int
  default := some (.declared (.ofInt64 3))

def labelField : Field :=
  { name := "label", type := .primitive .str, default := some (.value (.str "none")) }

def marksField : Field where
  name := "marks"
  type := .apply .set [.primitive .int]
  default := some (.fresh (.set []))

def options : RecordType where
  name := "Options"
  fields := [retriesField, labelField, marksField]

/-- The default is spelled as a text, which an integer may be decoded from. -/
def quotedField : Field := { retriesField with default := some (.declared (.string "3")) }

def quoted : RecordType where
  name := "Quoted"
  fields := [quotedField]

def codec : Codec where
  schema := { records := (Table.empty.insert "Options" options).insert "Quoted" quoted }

theorem declared : codec.schema.Declared := .record quoted (.record options .empty rfl) rfl

theorem history : codec.cache.History codec.schema codec.registry := .empty 0 0

def sparse : Config := { omitDefault := some true }

def isDefaults (v : Instance) : Bool :=
  match v with
  | .record "Options" [("retries", .int n), ("label", .str s), ("marks", .set [])] =>
    n == 3 && s == "none"
  | _ => false

def defaults : Instance :=
  .record "Options" [("retries", .int 3), ("label", .str "none"), ("marks", .set [])]

theorem eq_defaults {v : Instance} (h : isDefaults v = true) : v = defaults := by
  unfold isDefaults at h
  split at h
  case h_1 n s =>
    obtain ⟨isThree, isNone⟩ := Bool.and_eq_true_iff.1 h
    rw [beq_iff_eq.1 isThree, beq_iff_eq.1 isNone, defaults]
  case h_2 => cases h

def isThreeRetries (v : Instance) : Bool :=
  match v with
  | .record "Quoted" [("retries", .int n)] => n == 3
  | _ => false

def threeRetries : Instance := .record "Quoted" [("retries", .int 3)]

theorem eq_threeRetries {v : Instance} (h : isThreeRetries v = true) : v = threeRetries := by
  unfold isThreeRetries at h
  split at h
  case h_1 n => rw [beq_iff_eq.1 h, threeRetries]
  case h_2 => cases h

end Retrying

theorem Codec.encode_omits_defaults_options :
    (Retrying.codec.decode "Options" (.object []) {}).1.Returns Retrying.defaults ∧
      ((Retrying.codec.decode "Options" (.object []) {}).2.encode "Options" Retrying.defaults
        Retrying.sparse).1.Returns (.object []) := by
  have decodes : (Retrying.codec.decode "Options" (.object []) {}).1.returnsWith
      Retrying.isDefaults = true := rfl
  obtain ⟨back, decoded, isBack⟩ := exists_of_returnsWith decodes
  obtain rfl := Retrying.eq_defaults isBack
  have compiles : ((Retrying.codec.decode "Options" (.object []) {}).2.encoder "Options"
      Retrying.sparse).1.returnsWith (fun _ => true) = true := rfl
  obtain ⟨e, compiled, -⟩ := exists_of_returnsWith compiles
  have isOptions : Retrying.codec.schema.record? "Options" = some Retrying.options := rfl
  obtain ⟨bound, parts, made, -, -, empties⟩ := encode_omits_defaults Retrying.declared
    Retrying.history isOptions rfl rfl rfl rfl decoded compiled
  refine ⟨decoded, empties rfl (by decide) (.inl rfl) fun f isField _ x isValue => ?_⟩
  simp only [Retrying.options, List.mem_cons, List.not_mem_nil, or_false] at isField
  rcases isField with rfl | rfl | rfl
  · cases isValue
    refine ⟨by simp [Instance.same], fun raw given c isPart => ⟨.ofInt64 3, ?_, ?_⟩⟩
    · have handled : Handled Retrying.codec.schema .builtin (.primitive .int) (.scalar .int)
          (.primitive .int) := rfl
      obtain rfl : c = .scalar .int := (made.compiled _ c isPart).compiledBy handled
      exact Returns.pure_iff.2 rfl
    · cases given
      decide
  · cases isValue
    exact ⟨by simp [Instance.same], fun _ given => by cases given⟩
  · cases isValue
    exact ⟨by simp [Instance.same, Instance.sameItems], fun _ given => by cases given⟩

/-- The three retries of the default are written, because they are declared as a text. -/
theorem Codec.not_encode_omits_defaults_quoted :
    ∃ j, Retrying.codec.schema.Declared ∧ Retrying.sparse.omitsDefault = true ∧
      (∀ f ∈ Retrying.quoted.fields, f.default.isSome = true ∧ f.catchAll = false) ∧
      (Retrying.codec.decode "Quoted" (.object []) {}).1.Returns Retrying.threeRetries ∧
      ((Retrying.codec.decode "Quoted" (.object []) {}).2.encode "Quoted" Retrying.threeRetries
        Retrying.sparse).1.Returns j ∧
      j.same (.object [("retries", .ofInt64 3)]) = true := by
  have decodes : (Retrying.codec.decode "Quoted" (.object []) {}).1.returnsWith
      Retrying.isThreeRetries = true := rfl
  obtain ⟨back, decoded, isBack⟩ := exists_of_returnsWith decodes
  obtain rfl := Retrying.eq_threeRetries isBack
  have encodes : ((Retrying.codec.decode "Quoted" (.object []) {}).2.encode "Quoted"
      Retrying.threeRetries Retrying.sparse).1.returnsWith
      (fun j => j.same (.object [("retries", .ofInt64 3)])) = true := rfl
  obtain ⟨j, encoded, isObject⟩ := exists_of_returnsWith encodes
  exact ⟨j, Retrying.declared, rfl, by decide, decoded, encoded, isObject⟩

end RecordCodec
