import RecordCodec.Proofs.UnionTags

set_option autoImplicit false

/-!
# Which arm of a union decides

An instance of a record is encoded by the arm of this record, whether it has a tag or not. The
object that comes out of an arm with a tag has the tag in it, and so the same arm decodes it. An
object without a tag is tried at all arms, those that fit objects first, and goes to the first one
that accepts it: this may be an arm with a tag, as no arm insists on its tag.
-/
namespace RecordCodec

open Routine Run Compile Direct
open Converter (Decode decodeUnion firstSuccess fitsInstance fitsValue trialOrder)

namespace Converter

/-- A candidate accepts the value with this result, and all before it refuse the value. -/
def FirstAccepts {α β : Type} (v : α) (candidates : List (α → Run β)) (b : β) : Prop :=
  ∃ before f after, candidates = before ++ f :: after ∧ (∀ g ∈ before, ∃ e, (g v).Fails e) ∧
    (f v).Returns b

section
variable {α β : Type} {v : α} {b : β}

theorem firstAccepts_cons {f : α → Run β} {rest : List (α → Run β)} :
    FirstAccepts v (f :: rest) b ↔
      (f v).Returns b ∨ (∃ e, (f v).Fails e) ∧ FirstAccepts v rest b := by
  constructor
  · rintro ⟨before, g, after, split, refuse, accepts⟩
    cases before with
    | nil =>
      cases split
      exact .inl accepts
    | cons first before =>
      cases split
      obtain ⟨refuses, later⟩ := List.forall_mem_cons.1 refuse
      exact .inr ⟨refuses, before, g, after, rfl, later, accepts⟩
  · rintro (accepts | ⟨refuses, before, g, after, rfl, later, accepts⟩)
    · exact ⟨[], f, rest, rfl, by simp, accepts⟩
    · exact ⟨f :: before, g, after, rfl, List.forall_mem_cons.2 ⟨refuses, later⟩, accepts⟩

theorem firstSuccess_returns_iff {failure : Failure} {candidates : List (α → Run β)} :
    (firstSuccess failure v candidates).Returns b ↔ FirstAccepts v candidates b := by
  induction candidates with
  | nil => simp [firstSuccess, FirstAccepts]
  | cons f rest ih =>
    rw [firstAccepts_cons, firstSuccess, ← ih]
    unfold Returns Fails
    cases ran : (f v).run with
    | none => simp
    | some result =>
      cases result with
      | ok a => simp
      | error e => simp

end

/-- The conversions of the arms in the order in which a value without a tag is tried at them. -/
def decodersInTurn (calls : Calls Json Instance) (plan : UnionPlan) (arms : List Converter)
    (j : Json) : List Decode :=
  (trialOrder (fun x => fitsValue x.1.type j) (plan.arms.zip arms)).map fun x => x.2.decode calls

theorem decodeUnion_returns_iff {plan : UnionPlan} {arms : List Converter} {j : Json}
    (noTag : plan.isTagged = true → ∀ text, j.get? plan.key ≠ some (.string text))
    (calls : Calls Json Instance) (u : Instance) :
    (decodeUnion plan (arms.map (Converter.decode calls)) j).Returns u ↔
      FirstAccepts j (decodersInTurn calls plan arms j) u := by
  have none : (if plan.isTagged then (j.get? plan.key).bind Json.string? else none) = none := by
    cases isTagged : plan.isTagged with
    | false => rfl
    | true =>
      cases found : j.get? plan.key with
      | none => rfl
      | some given =>
        cases given with
        | string text => exact absurd found (noTag isTagged text)
        | _ => rfl
  simp only [decodeUnion, none, firstSuccess_returns_iff, decodersInTurn, trialOrder,
    List.zip_map_right, List.filter_map, List.map_append, List.map_map]
  rfl

end Converter

section Arms
variable {schema : Schema} {here : Position} {target : TypeExpr} {name : String} {config : Config}

theorem Direct.Position.record_arm_congr {ty other : TypeExpr}
    (isName : ty.shape.recordName? = some name) (isOther : other.shape.recordName? = some name) :
    (here.arm schema other).record = (here.arm schema ty).record := by
  unfold Position.arm
  rw [isName, isOther]

theorem Direct.Position.exists_first_of_record
    (literals : ∀ ty ∈ target.args, ∀ v ∈ ty.literals, v.IsLiteral)
    (free : Primitive.ofName? name = none) {k : Nat} {arm : UnionArm}
    (isArm : (here.plan schema target).arms[k]? = some arm)
    (isRecord : arm.record = some (name, config)) (fields : List (String × Instance)) :
    ∃ i first, (here.plan schema target).arms[i]? = some first ∧
      first.record = some (name, config) ∧ (here.plan schema target).arms.findIdx?
        (fun arm => fitsInstance arm.type (.record name fields)) = some i := by
  obtain ⟨ty, isType, rfl⟩ := Position.exists_of_plan_arm isArm
  have isName := (Position.of_arm_record isRecord).1
  have fits : fitsInstance ty (.record name fields) = true :=
    TypeExpr.fitsInstance_of_recordName? isName fields
  have found : ((here.plan schema target).arms.findIdx?
      fun arm => fitsInstance arm.type (.record name fields)).isSome = true := by
    rw [List.findIdx?_isSome, List.any_eq_true]
    exact ⟨_, List.mem_of_getElem? isArm, by rw [arm_type]; exact fits⟩
  obtain ⟨i, isFirst⟩ := Option.isSome_iff_exists.1 found
  obtain ⟨inRange, holds, -⟩ := List.findIdx?_eq_some_iff_getElem.1 isFirst
  have isOther := List.getElem?_eq_getElem inRange
  refine ⟨i, _, isOther, ?_, isFirst⟩
  obtain ⟨other, isItem, same⟩ := Position.exists_of_plan_arm isOther
  rw [← same, arm_type] at holds
  have isName' :=
    TypeExpr.recordName?_of_fits (literals other (List.mem_of_getElem? isItem)) free holds
  rw [← same, Position.record_arm_congr isName isName', isRecord]

end Arms

namespace Compile

variable {schema : Schema} {registry : Registry} {name : String} {config : Config}
  {record : RecordType}

theorem Serves.callWithin_eq_encodeRecord {r : Encoder} (declarations : schema.Declared)
    (serves : Serves schema registry .encoding r name config)
    (declared : schema.record? name = some record) (fuel : Nat) (v : Instance) :
    ∃ convert, r.callWithin (fuel + 1) v = encodeRecord record config v convert := by
  obtain ⟨bound, record', parts, made, -⟩ := serves.elim
  obtain rfl := Option.some.inj (made.declared.symm.trans declared)
  exact ⟨_, made.callWithin_encode declarations fuel v⟩

theorem Serves.exists_fields {r : Decoder} (declarations : schema.Declared)
    (serves : Serves schema registry .decoding r name config) {fuel : Nat} {j : Json} {w : Instance}
    (returns : (r.callWithin fuel j).Returns w) : ∃ fields, w = .record name fields := by
  cases fuel with
  | zero => cases returns
  | succ fuel =>
    obtain ⟨bound, record, parts, made, -⟩ := serves.elim
    rw [made.callWithin_decode declarations] at returns
    obtain ⟨-, -, values, values', -, -, rfl⟩ := decodeRecord_returns_iff.1 returns
    rw [(declarations.checked made.declared).1]
    exact ⟨_, rfl⟩

theorem Serves.get?_tag {r : Encoder} (declarations : schema.Declared)
    (serves : Serves schema registry .encoding r name config)
    (declared : schema.record? name = some record)
    (form : Encoder.inArrayForm record config = false) {key tag : String}
    (isKey : config.tagKey? = some key) (isTag : record.tagUnder config = some tag)
    (off : ∀ f ∈ record.fields, f.catchAll = false →
      (Target.ofField config f).place.head? ≠ some key) {fuel : Nat} {v : Instance} {j : Json}
    (returns : (r.callWithin fuel v).Returns j) : j.get? key = some (.string tag) := by
  cases fuel with
  | zero => cases returns
  | succ fuel =>
    obtain ⟨convert, same⟩ := serves.callWithin_eq_encodeRecord declarations declared fuel v
    rw [same] at returns
    exact get?_of_encodeRecord form isKey isTag
      (fun f mem plain _ => off f (List.mem_filter.1 mem).1 plain) returns

namespace Assembled

variable {owner : String} {ownerConfig : Config} {bound : Binding}
  {parts : List (Field × Converter)} {f : Field} {c : Converter} {plan : UnionPlan}
  {arms : List Converter} {k : Nat} {arm : UnionArm}

section
variable {I O : Type} {mode : Mode I O} {r : Linked I O}
  (assembled : Assembled schema registry mode r owner ownerConfig bound parts)
  (mem : (f, c) ∈ parts) (isPart : (Converter.union plan arms).PartOf c)
include assembled mem isPart

theorem exists_plan : ∃ target, plan = Position.plan schema ⟨ownerConfig, f.discriminator⟩ target ∧
    (plan.arms.filterMap UnionArm.tag).Nodup := by
  obtain ⟨inner, compiled, -⟩ := (assembled.compiled mem).part (hereditary_true _ _) isPart trivial
  cases compiled with
  | @union _ target _ _ _ distinct _ _ => exact ⟨target, rfl, distinct⟩

theorem exists_callee (isArm : plan.arms[k]? = some arm)
    (isRecord : arm.record = some (name, config)) {own : Converter}
    (isConverter : arms[k]? = some own) : ∃ routine callee, own = .record routine ∧
      r.callee? routine = some callee ∧ Serves schema registry mode callee name config := by
  obtain ⟨-, routine, callee, isRoutine, isCallee, serves⟩ :=
    (assembled.taggedUnder mem isPart).carry k arm name config isArm isRecord
  obtain rfl := Option.some.inj (isRoutine.symm.trans isConverter)
  exact ⟨routine, callee, rfl, isCallee, serves⟩

end

section
variable {e : Encoder} (declarations : schema.Declared)
  (assembled : Assembled schema registry .encoding e owner ownerConfig bound parts)
  (mem : (f, c) ∈ parts) (isPart : (Converter.union plan arms).PartOf c)
  (isArm : plan.arms[k]? = some arm) (isRecord : arm.record = some (name, config))
  (declared : schema.record? name = some record) {enc : Converter} (isEncoder : arms[k]? = some enc)
  {fuel : Nat} {j : Json}
include declarations assembled mem isPart isArm isRecord declared isEncoder

/-- A union encodes an instance of a record as the arm of this record does. -/
theorem encode_of_arm (literals : ∀ other ∈ plan.arms, ∀ v ∈ other.type.literals, v.IsLiteral)
    {fields : List (String × Instance)}
    (encoded : (enc.encode (e.calls fuel) (.record name fields)).Returns j) :
    ((Converter.union plan arms).encode (e.calls fuel) (.record name fields)).Returns j := by
  obtain ⟨routine, callee, rfl, isCallee, serves⟩ :=
    assembled.exists_callee mem isPart isArm isRecord isEncoder
  obtain ⟨target, rfl, -⟩ := assembled.exists_plan mem isPart
  have literals : ∀ ty ∈ target.args, ∀ v ∈ ty.literals, v.IsLiteral := fun ty isType v listed =>
    literals _ (List.mem_map_of_mem isType) v (by rw [arm_type]; exact listed)
  obtain ⟨i, first, isFirst, isRecord', found⟩ := Position.exists_first_of_record literals
    (declarations.checked declared).2.1 isArm isRecord fields
  -- another arm of the record has a routine that does the same
  obtain ⟨-, routine', callee', isRoutine', isCallee', serves'⟩ :=
    (assembled.taggedUnder mem isPart).carry i first _ _ isFirst isRecord'
  have same := serves.callWithin_eq (Mode.encodingLocality declarations registry) fuel serves'
  have isEncode : (arms.map (Converter.encode (e.calls fuel)))[i]? =
      some (callee'.callWithin fuel) := by
    rw [List.getElem?_map, isRoutine', ← Linked.calls_of_callee fuel isCallee']
    rfl
  rw [Converter.encode, Linked.calls_of_callee fuel isCallee, same] at encoded
  rw [Converter.encode, Compiles.encodeAll_eq]
  exact Converter.encodeUnion_returns found isFirst isEncode encoded

theorem get?_of_arm {tag : String} (isTag : arm.tag = some tag)
    (form : Encoder.inArrayForm record config = false)
    (off : ∀ field ∈ record.fields, field.catchAll = false →
      (Target.ofField config field).place.head? ≠ some plan.key)
    {v : Instance} (encoded : (enc.encode (e.calls fuel) v).Returns j) :
    j.get? plan.key = some (.string tag) := by
  obtain ⟨routine, callee, rfl, isCallee, serves⟩ :=
    assembled.exists_callee mem isPart isArm isRecord isEncoder
  obtain ⟨target, rfl, -⟩ := assembled.exists_plan mem isPart
  obtain ⟨ty, -, rfl⟩ := Position.exists_of_plan_arm isArm
  obtain ⟨-, isKey, tagged⟩ := Position.of_arm_record isRecord
  rw [tagged, declared, Option.bind_some] at isTag
  rw [Converter.encode, Linked.calls_of_callee fuel isCallee] at encoded
  exact serves.get?_tag declarations declared form isKey isTag off encoded

end

/-- An instance of a record that is an arm of a union is encoded as this arm encodes it. If the arm
has a tag, it also decodes what it has encoded, whatever other arms would make of that. If it has
none, the first arm that accepts the object decodes it, unless a text stands where tags do. -/
theorem union_restores_record (declarations : schema.Declared) {e : Encoder} {d : Decoder}
    {boundE boundD : Binding} {partsE partsD : List (Field × Converter)}
    (encoder : Assembled schema registry .encoding e owner ownerConfig boundE partsE)
    (decoder : Assembled schema registry .decoding d owner ownerConfig boundD partsD)
    {c' : Converter} (inEncoder : (f, c) ∈ partsE) (inDecoder : (f, c') ∈ partsD)
    {armsE armsD : List Converter} (isPart : (Converter.union plan armsE).PartOf c)
    (isPart' : (Converter.union plan armsD).PartOf c')
    (literals : ∀ other ∈ plan.arms, ∀ v ∈ other.type.literals, v.IsLiteral)
    (isArm : plan.arms[k]? = some arm) (isRecord : arm.record = some (name, config))
    (declared : schema.record? name = some record)
    (form : Encoder.inArrayForm record config = false)
    (off : ∀ field ∈ record.fields, field.catchAll = false →
      (Target.ofField config field).place.head? ≠ some plan.key)
    {enc dec : Converter} (isEncoder : armsE[k]? = some enc) (isDecoder : armsD[k]? = some dec)
    {fields : List (String × Instance)} {fuel fuel' : Nat} {j : Json} {w : Instance}
    (encoded : (enc.encode (e.calls fuel) (.record name fields)).Returns j)
    (decoded : (dec.decode (d.calls fuel') j).Returns w) :
    ((Converter.union plan armsE).encode (e.calls fuel) (.record name fields)).Returns j ∧
    (∃ restored, w = .record name restored) ∧
    (arm.tag.isSome = true → ((Converter.union plan armsD).decode (d.calls fuel') j).Returns w) ∧
    (arm.tag = none →
      (plan.isTagged = true → ∀ text, j.get? plan.key ≠ some (.string text)) → ∀ u,
        ((Converter.union plan armsD).decode (d.calls fuel') j).Returns u ↔
          Converter.FirstAccepts j (Converter.decodersInTurn (d.calls fuel') plan armsD j) u) := by
  refine ⟨encoder.encode_of_arm declarations inEncoder isPart isArm isRecord declared isEncoder
    literals encoded, ?_, fun isTagged => ?_, fun _ noTag u => ?_⟩
  · obtain ⟨routine, callee, rfl, isCallee, serves⟩ :=
      decoder.exists_callee inDecoder isPart' isArm isRecord isDecoder
    rw [Converter.decode, Linked.calls_of_callee fuel' isCallee] at decoded
    exact serves.exists_fields declarations decoded
  · obtain ⟨tag, isTag⟩ := Option.isSome_iff_exists.1 isTagged
    have tagged := encoder.get?_of_arm declarations inEncoder isPart isArm isRecord declared
      isEncoder isTag form off encoded
    obtain ⟨-, -, distinct⟩ := decoder.exists_plan inDecoder isPart'
    have isDecode : (armsD.map (Converter.decode (d.calls fuel')))[k]? =
        some (dec.decode (d.calls fuel')) := by
      rw [List.getElem?_map, isDecoder, Option.map_some]
    rw [Converter.decode, Compiles.decodeAll_eq]
    exact Converter.decodeUnion_returns_of_tag distinct isArm isTag tagged isDecode decoded
  · rw [Converter.decode, Compiles.decodeAll_eq]
    exact Converter.decodeUnion_returns_iff noTag _ u

end Assembled
end Compile

namespace Drawings

def circle : RecordType where
  name := "Circle"
  fields :=
    [{ name := "radius", type := .primitive .int, default := some (.declared (.ofInt64 1)) }]
  tag := some "circle"

def square : RecordType where
  name := "Square"
  fields := [{ name := "side", type := .primitive .int }]

def shapeField : Field := { name := "shape", type := .union [.named "Circle", .named "Square"] }

def drawing : RecordType where
  name := "Drawing"
  fields := [shapeField]

def schema : Schema where
  records := ((Table.empty.insert "Circle" circle).insert "Square" square).insert "Drawing" drawing

theorem schema_declared : schema.Declared :=
  .record drawing (.record square (.record circle .empty rfl) rfl) rfl

def codec : Codec where
  schema := schema

def plan : UnionPlan := Position.plan schema ⟨{}, none⟩ (schema.resolve shapeField.type)

def armedConfig : Config := armConfig Config.defaultTagKey false {}

def circleInstance : Instance := .record "Circle" [("radius", .int 3)]

def circleValue : Json :=
  .object [(Config.defaultTagKey, .string "circle"), ("radius", .ofInt64 3)]

def squareInstance : Instance := .record "Square" [("side", .int 2)]

def squareValue : Json := .object [("side", .ofInt64 2)]

def unitCircle : Instance := .record "Circle" [("radius", .int 1)]

theorem plan_literals : ∀ other ∈ plan.arms, ∀ v ∈ other.type.literals, v.IsLiteral := by
  have none : ∀ other ∈ plan.arms, other.type.literals = [] := by decide
  intro other mem v listed
  rw [none other mem] at listed
  cases listed

theorem exists_arms {I O : Type} {mode : Mode I O} {r : Linked I O}
    (all : mode.fields drawing {} = [shapeField])
    (serves : Serves schema .builtin mode r "Drawing" {}) :
    ∃ bound parts circleRoutine squareRoutine circles squares,
      Assembled schema .builtin mode r "Drawing" {} bound parts ∧
      (shapeField, .union plan [.record circleRoutine, .record squareRoutine]) ∈ parts ∧
      r.callee? circleRoutine = some circles ∧
      Serves schema .builtin mode circles "Circle" armedConfig ∧
      r.callee? squareRoutine = some squares ∧
      Serves schema .builtin mode squares "Square" armedConfig := by
  obtain ⟨bound, parts, assembled⟩ := serves.exists_assembled
  obtain ⟨c, mem⟩ := assembled.exists_part rfl (all ▸ List.mem_singleton.2 rfl)
  have handled : Handled schema .builtin shapeField.type .union
      (schema.resolve shapeField.type) := rfl
  obtain ⟨arms, rfl, count, -⟩ := (assembled.compiled mem).form handled
  obtain ⟨first, second, rfl⟩ := List.length_eq_two.1 count
  obtain ⟨circleRoutine, circles, rfl, isCircles, servesCircles⟩ :=
    assembled.exists_callee (k := 0) mem .self rfl rfl rfl
  obtain ⟨squareRoutine, squares, rfl, isSquares, servesSquares⟩ :=
    assembled.exists_callee (k := 1) mem .self rfl rfl rfl
  exact ⟨bound, parts, circleRoutine, squareRoutine, circles, squares, assembled, mem, isCircles,
    servesCircles, isSquares, servesSquares⟩

theorem exists_serving : ∃ e d, (codec.encoder "Drawing" {}).1.Returns e ∧
    (codec.decoder "Drawing" {}).1.Returns d ∧ Serves schema .builtin .encoding e "Drawing" {} ∧
    Serves schema .builtin .decoding d "Drawing" {} := by
  have history : codec.cache.History codec.schema codec.registry := .empty 0 0
  have encodes : (codec.encoder "Drawing" {}).1.returnsWith (fun _ => true) = true := by
    decide +kernel
  have decodes : (codec.decoder "Drawing" {}).1.returnsWith (fun _ => true) = true := by
    decide +kernel
  obtain ⟨e, isEncoder, -⟩ := exists_of_returnsWith encodes
  obtain ⟨d, isDecoder, -⟩ := exists_of_returnsWith decodes
  have declared : codec.schema.record? "Drawing" = some drawing := rfl
  exact ⟨e, d, isEncoder, isDecoder,
    Codec.encoder_serves_own history (.inl rfl) declared isEncoder,
    Codec.decoder_serves_own history (.inl rfl) declared isDecoder⟩

theorem noTag_square (text : String) :
    Drawings.squareValue.get? Drawings.plan.key ≠ some (.string text) := by
  have absent : Drawings.squareValue.get? Drawings.plan.key = none := rfl
  simp [absent]

section
variable {routine name : String} {v : Instance} {j : Json}

theorem encodes {e callee : Encoder} (isCallee : e.callee? routine = some callee)
    (serves : Serves schema .builtin .encoding callee name armedConfig)
    (returns : (Direct.encode schema .builtin 1 name armedConfig v).Returns j) :
    ((Converter.record routine).encode (e.calls 1) v).Returns j := by
  rw [Converter.encode, Linked.calls_of_callee 1 isCallee,
    serves.callWithin_encode Registry.keepsAny_builtin schema_declared]
  exact returns

theorem decodes {d callee : Decoder} (isCallee : d.callee? routine = some callee)
    (serves : Serves schema .builtin .decoding callee name armedConfig)
    (returns : (Direct.decode schema .builtin 1 name armedConfig j).Returns v) :
    ((Converter.record routine).decode (d.calls 1) j).Returns v := by
  rw [Converter.decode, Linked.calls_of_callee 1 isCallee,
    serves.callWithin_decode Registry.keepsAny_builtin]
  exact returns

end
end Drawings

theorem Compile.Assembled.union_restores_record_circle :
    ∃ (e : Encoder) (d : Decoder) (armsE armsD : List Converter) (j : Json),
    (Drawings.codec.encoder "Drawing" {}).1.Returns e ∧
    (Drawings.codec.decoder "Drawing" {}).1.Returns d ∧
    ((Converter.union Drawings.plan armsE).encode (e.calls 1) Drawings.circleInstance).Returns j ∧
    ((Converter.union Drawings.plan armsD).decode (d.calls 1) j).Returns
      Drawings.circleInstance := by
  obtain ⟨e, d, isEncoder, isDecoder, servesE, servesD⟩ := Drawings.exists_serving
  obtain ⟨_, _, routine, _, _, _, encoder, inEncoder, isCallee, serves, -, -⟩ :=
    Drawings.exists_arms rfl servesE
  obtain ⟨_, _, routine', _, _, _, decoder, inDecoder, isCallee', serves', -, -⟩ :=
    Drawings.exists_arms rfl servesD
  have encoded : ((Converter.record routine).encode (e.calls 1) Drawings.circleInstance).Returns
      Drawings.circleValue := Drawings.encodes isCallee serves rfl
  have decoded : ((Converter.record routine').decode (d.calls 1) Drawings.circleValue).Returns
      Drawings.circleInstance := Drawings.decodes isCallee' serves' rfl
  have isArm : Drawings.plan.arms[0]? = some _ := rfl
  have declared : Drawings.schema.record? "Circle" = some Drawings.circle := rfl
  obtain ⟨written, -, tagged, -⟩ := Assembled.union_restores_record Drawings.schema_declared
    encoder decoder inEncoder inDecoder .self .self Drawings.plan_literals isArm rfl declared rfl
    (List.forall_mem_singleton.2 fun _ =>
      (Option.some_injective String).ne (by simp : "radius" ≠ "__tag__")) rfl rfl encoded decoded
  exact ⟨e, d, _, _, _, isEncoder, isDecoder, written, tagged rfl⟩

/-- A square has no tag, and the arm of circles accepts it first, though it is the only record of
the union without one and the arm of squares would read it back. -/
theorem Codec.not_union_restores_square :
    ∃ (e : Encoder) (d : Decoder) (armsE armsD : List Converter) (enc dec : Converter),
    (Drawings.codec.encoder "Drawing" {}).1.Returns e ∧
    (Drawings.codec.decoder "Drawing" {}).1.Returns d ∧
    Config.allowsAmbiguousUnions {} = false ∧ untagged Drawings.plan.arms = ["Square"] ∧
    (∃ bound parts, Assembled Drawings.schema .builtin .encoding e "Drawing" {} bound parts ∧
      (Drawings.shapeField, .union Drawings.plan armsE) ∈ parts) ∧
    (∃ bound parts, Assembled Drawings.schema .builtin .decoding d "Drawing" {} bound parts ∧
      (Drawings.shapeField, .union Drawings.plan armsD) ∈ parts) ∧
    Drawings.plan.arms[1]?.bind UnionArm.record = some ("Square", Drawings.armedConfig) ∧
    (∀ field ∈ Drawings.square.fields,
      (Target.ofField Drawings.armedConfig field).place.head? ≠ some Drawings.plan.key) ∧
    armsE[1]? = some enc ∧ armsD[1]? = some dec ∧
    (enc.encode (e.calls 1) Drawings.squareInstance).Returns Drawings.squareValue ∧
    (dec.decode (d.calls 1) Drawings.squareValue).Returns Drawings.squareInstance ∧
    ((Converter.union Drawings.plan armsE).encode (e.calls 1) Drawings.squareInstance).Returns
      Drawings.squareValue ∧
    ((Converter.union Drawings.plan armsD).decode (d.calls 1) Drawings.squareValue).Returns
      Drawings.unitCircle := by
  obtain ⟨e, d, isEncoder, isDecoder, servesE, servesD⟩ := Drawings.exists_serving
  obtain ⟨_, _, _, routine, _, _, encoder, inEncoder, -, -, isCallee, serves⟩ :=
    Drawings.exists_arms rfl servesE
  obtain ⟨_, _, circleRoutine, squareRoutine, _, _, decoder, inDecoder, isCircle, servesCircle,
    isSquare, servesSquare⟩ := Drawings.exists_arms rfl servesD
  have encoded : ((Converter.record routine).encode (e.calls 1) Drawings.squareInstance).Returns
      Drawings.squareValue := Drawings.encodes isCallee serves rfl
  have decoded : ((Converter.record squareRoutine).decode (d.calls 1) Drawings.squareValue).Returns
      Drawings.squareInstance := Drawings.decodes isSquare servesSquare rfl
  have mistaken : ((Converter.record circleRoutine).decode (d.calls 1) Drawings.squareValue).Returns
      Drawings.unitCircle := Drawings.decodes isCircle servesCircle rfl
  have first : Converter.FirstAccepts Drawings.squareValue (Converter.decodersInTurn (d.calls 1)
      Drawings.plan [.record circleRoutine, .record squareRoutine] Drawings.squareValue)
      Drawings.unitCircle :=
    ⟨[], _, _, rfl, by simp, mistaken⟩
  have isArm : Drawings.plan.arms[1]? = some _ := rfl
  refine ⟨e, d, _, _, _, _, isEncoder, isDecoder, rfl, rfl,
    ⟨_, _, encoder, inEncoder⟩, ⟨_, _, decoder, inDecoder⟩, rfl, List.forall_mem_singleton.2
      ((Option.some_injective String).ne (by simp : "side" ≠ "__tag__")), rfl, rfl,
    encoded, decoded, ?_, ?_⟩
  · exact encoder.encode_of_arm Drawings.schema_declared inEncoder .self isArm rfl rfl rfl
      Drawings.plan_literals encoded
  · rw [Converter.decode, Compiles.decodeAll_eq]
    exact (Converter.decodeUnion_returns_iff (fun _ => Drawings.noTag_square) _ _).2 first

end RecordCodec
