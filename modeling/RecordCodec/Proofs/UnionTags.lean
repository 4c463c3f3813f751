import RecordCodec.Proofs.Encodable
import RecordCodec.Proofs.UnionKeys

set_option autoImplicit false

/-!
# The tags that unions write

An instance of a record fits the arm of this record and no other arm with a tag, so the encoder of a
union tries that arm first, and the arm does not refuse it. The routine of the arm writes the tag
before anything else. Fields come later, and those that are written at the key of the tag take its
place; the entries of a catch-all field are only added under keys that are free.
-/
namespace RecordCodec

open Routine Run Compile Direct
open Converter (Encode encodeUnion firstSuccess fitsInstance trialOrder)

namespace Converter

theorem firstSuccess_of_preferred {α β γ : Type} {failure : Failure} {v : α} {b : β}
    {p : γ → Bool} {candidates : List (γ × (α → Run β))} {c : γ × (α → Run β)}
    (first : candidates.find? (fun x => p x.1) = some c)
    (returns : (firstSuccess failure v
      ((trialOrder (fun x => p x.1) candidates).map Prod.snd)).Returns b) :
    (c.2 v).Returns b ∨ ∃ e, (c.2 v).Fails e := by
  rw [← List.head?_filter] at first
  obtain ⟨rest, preferred⟩ := List.head?_eq_some_iff.1 first
  rw [trialOrder, preferred, List.cons_append, List.map_cons, firstSuccess] at returns
  cases ran : (c.2 v).run with
  | none =>
    rw [ran] at returns
    cases returns
  | some result =>
    cases result with
    | ok a =>
      rw [ran] at returns
      exact .inl (Returns.pure_iff.1 returns ▸ ran)
    | error e => exact .inr ⟨e, ran⟩

variable {plan : UnionPlan} {encoders : List Encode} {encode : Encode} {k : Nat} {arm : UnionArm}
  {v : Instance} {j : Json}

theorem encodeUnion_of_first
    (first : plan.arms.findIdx? (fun arm => fitsInstance arm.type v) = some k)
    (isArm : plan.arms[k]? = some arm) (isEncoder : encoders[k]? = some encode)
    (returns : (encodeUnion plan encoders v).Returns j) :
    (encode v).Returns j ∨ ∃ e, (encode v).Fails e :=
  firstSuccess_of_preferred (find?_zip first isArm isEncoder) returns

end Converter

theorem TypeExpr.recordName?_of_fits {ty : TypeExpr} (literals : ∀ v ∈ ty.literals, v.IsLiteral)
    {name : String} (free : Primitive.ofName? name = none) {fields : List (String × Instance)}
    (fits : fitsInstance ty (.record name fields) = true) :
    ty.shape.recordName? = some name := by
  obtain ⟨shape, args, values⟩ := ty
  cases shape with
  | primitive p =>
    have same : p.name = name := by simpa [fitsInstance, Instance.kindName] using fits
    rw [← same, Primitive.ofName?_name] at free
    cases free
  | record kind other =>
    have same : other = name := by simpa [fitsInstance] using fits
    rw [Shape.recordName?, same]
  | literal =>
    obtain ⟨v, listed, same⟩ := Json.contains_iff.1 fits
    exact ((literals v listed).of_same same).elim
  | _ => cases fits

theorem TypeExpr.fitsInstance_of_recordName? {ty : TypeExpr} {name : String}
    (isName : ty.shape.recordName? = some name) (fields : List (String × Instance)) :
    fitsInstance ty (.record name fields) = true := by
  obtain ⟨shape, args, values⟩ := ty
  cases shape with
  | record kind other =>
    cases isName
    simp [fitsInstance]
  | _ => cases isName

section Arms
variable {schema : Schema} {here : Position} {target : TypeExpr} {name : String}

theorem Direct.Position.tag_arm_congr {ty other : TypeExpr}
    (isName : ty.shape.recordName? = some name) (isOther : other.shape.recordName? = some name) :
    (here.arm schema other).tag = (here.arm schema ty).tag := by
  unfold Position.arm
  rw [isName, isOther]

/-- The arm of a record with a tag is the first one that fits the instances of the record. -/
theorem Direct.Position.findIdx?_of_record
    (distinct : ((here.plan schema target).arms.filterMap UnionArm.tag).Nodup)
    (literals : ∀ ty ∈ target.args, ∀ v ∈ ty.literals, v.IsLiteral)
    (free : Primitive.ofName? name = none) {k : Nat} {ty : TypeExpr}
    (isType : target.args[k]? = some ty) (isName : ty.shape.recordName? = some name) {tag : String}
    (isTag : (here.arm schema ty).tag = some tag) (fields : List (String × Instance)) :
    (here.plan schema target).arms.findIdx?
      (fun arm => fitsInstance arm.type (.record name fields)) = some k := by
  have isArm : (here.plan schema target).arms[k]? = some (here.arm schema ty) := by
    rw [Position.plan, List.getElem?_map, isType, Option.map_some]
  refine Converter.findIdx?_of_unique isArm ?_ fun i arm isOther fits => ?_
  · rw [arm_type]
    exact TypeExpr.fitsInstance_of_recordName? isName fields
  · obtain ⟨other, isItem, rfl⟩ := Position.exists_of_plan_arm isOther
    rw [arm_type] at fits
    have isName' :=
      TypeExpr.recordName?_of_fits (literals other (List.mem_of_getElem? isItem)) free fits
    have isTag' := (Position.tag_arm_congr isName isName').trans isTag
    refine Converter.index_eq_of_pairwise (List.pairwise_filterMap.1 distinct) isArm isOther ?_ ?_
    · exact fun apart => apart tag isTag tag isTag' rfl
    · exact fun apart => apart tag isTag' tag isTag rfl

end Arms

section Encoders
variable {schema : Schema} {name : String} {config : Config} {r : Encoder} {v : Instance}

/-- A record with a tag is encoded to an object with this tag, unless a field is written over it. -/
theorem Direct.get?_of_encode {registry : Registry} {record : RecordType} {key tag : String}
    (declared : schema.record? name = some record)
    (form : Encoder.inArrayForm record config = false) (isKey : config.tagKey? = some key)
    (isTag : record.tagUnder config = some tag)
    (off : ∀ f ∈ Encoder.fields record config, f.catchAll = false →
      isWritten config v f = true → (Target.ofField config f).place.head? ≠ some key)
    {fuel : Nat} {j : Json}
    (encoded : (Direct.encode schema registry fuel name config v).Returns j) :
    j.get? key = some (.string tag) := by
  cases fuel with
  | zero => cases encoded
  | succ fuel =>
    rw [encode_succ declared] at encoded
    exact get?_of_encodeRecord form isKey isTag off encoded

theorem Compile.Serves.not_fails (documented : schema.Documented)
    (serves : Serves schema .builtin .encoding r name config)
    (inhabits : InhabitsRecord schema name v) (fuel : Nat) (e : Failure) :
    ¬(r.callWithin fuel v).Fails e := by
  intro fails
  obtain ⟨j, returns⟩ := Direct.encode_succeeds documented (v.depth + 1) name config v inhabits
    (Nat.lt_succ_self _)
  rw [serves.callWithin_encode Registry.keepsAny_builtin documented.declared] at fails
  have refused := (serves.call_encode_iff documented.declared v).2 ⟨fuel, fails⟩
  have encoded := (serves.call_encode_iff documented.declared v).2 ⟨_, returns⟩
  cases refused.symm.trans encoded

end Encoders

theorem Compile.hereditary_written (schema : Schema) :
    Hereditary schema .builtin (TypeExpr.Written schema) :=
  ⟨fun _ _ _ index written handled => (handled.written written).arg index,
    fun _ _ _ written handled => (handled.written written).args⟩

/-- Wherever a union is encoded in a routine, an instance of a record that is an arm with a tag
comes out as an object with this tag, whatever the record declares, unless a field of it is written
at the key of the tag. -/
theorem Compile.Assembled.get?_tag_of_union {schema : Schema} (documented : schema.Documented)
    {r : Encoder} {owner : String} {config : Config} {bound : Binding}
    {parts : List (Field × Converter)}
    (assembled : Assembled schema .builtin .encoding r owner config bound parts) {f : Field}
    {c : Converter} (mem : (f, c) ∈ parts) {plan : UnionPlan} {arms : List Converter}
    (isPart : (Converter.union plan arms).PartOf c) {arm : UnionArm} (isArm : arm ∈ plan.arms)
    {name : String} {armConfig : Config} (isRecord : arm.record = some (name, armConfig))
    {tag : String} (isTag : arm.tag = some tag) {record : RecordType}
    (declared : schema.record? name = some record)
    (form : Encoder.inArrayForm record armConfig = false)
    {v : Instance} (off : ∀ field ∈ Encoder.fields record armConfig, field.catchAll = false →
      isWritten armConfig v field = true →
      (Target.ofField armConfig field).place.head? ≠ some plan.key)
    (inhabits : InhabitsRecord schema name v) {fuel : Nat} {j : Json}
    (encoded : ((Converter.union plan arms).encode (r.calls fuel) v).Returns j) :
    j.get? plan.key = some (.string tag) := by
  obtain ⟨k, isArm⟩ := List.getElem?_of_mem isArm
  obtain ⟨isKey, routine, callee, isConverter, isCallee, serves⟩ :=
    (assembled.taggedUnder mem isPart).carry k arm name armConfig isArm isRecord
  obtain ⟨ownerRecord, made⟩ := assembled.made
  have isField : f ∈ ownerRecord.fields :=
    (List.mem_filter.1 (made.fields ▸ List.mem_map_of_mem (f := Prod.fst) mem)).1
  obtain ⟨inner, compiled, written⟩ := (assembled.compiled mem).part (hereditary_written schema)
    isPart ((documented.fields _ _ made.declared f isField).type schema)
  cases compiled with
  | @union _ target _ handled count distinct records others =>
    obtain ⟨ty, isType, rfl⟩ := Position.exists_of_plan_arm isArm
    obtain ⟨isName, -, ofRecord⟩ := Position.of_arm_record isRecord
    have ownTag : record.tagUnder armConfig = some tag := by
      rw [ofRecord, declared, Option.bind_some] at isTag
      exact isTag
    have literals : ∀ other ∈ target.args, ∀ v ∈ other.literals, v.IsLiteral :=
      fun other isOther => ((handled.written written).args other isOther).literals
    have accepts := serves.not_fails documented inhabits fuel
    obtain ⟨_, fields, rfl, -⟩ := inhabits
    have first := Position.findIdx?_of_record distinct literals
      (documented.declared.checked declared).2.1 isType isName isTag fields
    have isEncoder : (arms.map (Converter.encode (r.calls fuel)))[k]? =
        some (r.calls fuel routine) := by
      rw [List.getElem?_map, isConverter]
      rfl
    rw [Converter.encode, Compiles.encodeAll_eq] at encoded
    rw [Linked.calls_of_callee fuel isCallee] at isEncoder
    rcases Converter.encodeUnion_of_first first isArm isEncoder encoded with returns | ⟨e, fails⟩
    · rw [serves.callWithin_encode Registry.keepsAny_builtin documented.declared] at returns
      exact Direct.get?_of_encode declared form isKey ownTag off returns
    · exact absurd fails (accepts e)

namespace Events

def click : RecordType where
  name := "Click"
  fields := [{ name := "kind", type := .primitive .str }, { name := "x", type := .primitive .int }]
  tag := some "click"

def scroll : RecordType where
  name := "Scroll"
  fields := [{ name := "delta", type := .primitive .int }]
  tag := some "scroll"

def eventField : Field where
  name := "event"
  type := .union [.named "Click", .named "Scroll"]
  discriminator := some "kind"

def event : RecordType where
  name := "Event"
  fields := [eventField]

def schema : Schema where
  records := ((Table.empty.insert "Click" click).insert "Scroll" scroll).insert "Event" event

theorem schema_documented : schema.Documented := by
  refine ⟨.record event (.record scroll (.record click .empty rfl) rfl) rfl, ?_⟩
  intro name r found f mem
  rw [Schema.record?, schema] at found
  simp only [Table.get?_insert] at found
  split_ifs at found <;> cases found
  · obtain rfl := List.mem_singleton.1 mem
    refine ⟨fun _ => .apply rfl fun ty isArm => ?_, fun v isDefault => ?_⟩
    · rcases List.mem_pair.1 isArm with rfl | rfl <;> exact .leaf rfl
    · simp [eventField] at isDefault
  · obtain rfl := List.mem_singleton.1 mem
    exact ⟨fun _ => .leaf rfl, fun v isDefault => by simp at isDefault⟩
  · rcases List.mem_pair.1 mem with rfl | rfl <;>
      exact ⟨fun _ => .leaf rfl, fun v isDefault => by simp at isDefault⟩

def codec : Codec where
  schema := schema

def plan : UnionPlan :=
  Position.plan schema ⟨{}, some "kind"⟩ (schema.resolve eventField.type)

def armedConfig : Config := armConfig "kind" false {}

def clickInstance : Instance := .record "Click" [("kind", .str "left"), ("x", .int 1)]

def clickValue : Json := .object [("kind", .string "left"), ("x", .ofInt64 1)]

def scrollInstance : Instance := .record "Scroll" [("delta", .int 3)]

def scrollValue : Json := .object [("kind", .string "scroll"), ("delta", .ofInt64 3)]

theorem inhabits_click : InhabitsRecord schema "Click" clickInstance := by
  have isText : Inhabits schema (.primitive .str) (.str "left") := .scalar rfl trivial
  have isInt : Inhabits schema (.primitive .int) (.int 1) := .scalar rfl trivial
  exact .of_values (r := click) rfl (by simp [click]) (.cons isText (.cons isInt .nil))

theorem inhabits_scroll : InhabitsRecord schema "Scroll" scrollInstance := by
  have isInt : Inhabits schema (.primitive .int) (.int 3) := .scalar rfl trivial
  exact .of_values (r := scroll) rfl (by simp [scroll]) (.cons isInt .nil)

theorem exists_encoder : ∃ e bound parts arms, (codec.encoder "Event" {}).1.Returns e ∧
    Assembled schema .builtin .encoding e "Event" {} bound parts ∧
    (eventField, .union plan arms) ∈ parts ∧
    ∀ (k : Nat) (arm : UnionArm) (name : String) (v : Instance) (j : Json),
      plan.arms[k]? = some arm → arm.record = some (name, armedConfig) →
      plan.arms.findIdx? (fun arm => fitsInstance arm.type v) = some k →
      (Direct.encode schema .builtin 1 name armedConfig v).Returns j →
      ((Converter.union plan arms).encode (e.calls 1) v).Returns j := by
  have encodes : (codec.encoder "Event" {}).1.returnsWith (fun _ => true) = true := by
    decide +kernel
  obtain ⟨e, isEncoder, -⟩ := exists_of_returnsWith encodes
  have history : codec.cache.History codec.schema codec.registry := .empty 0 0
  have declared : codec.schema.record? "Event" = some event := rfl
  have serves : Serves schema .builtin .encoding e "Event" {} :=
    Codec.encoder_serves_own history (.inl rfl) declared isEncoder
  obtain ⟨bound, parts, assembled⟩ := serves.exists_assembled
  have isField : eventField ∈ Mode.encoding.fields event {} := List.mem_singleton.2 rfl
  obtain ⟨c, mem⟩ := assembled.exists_part rfl isField
  have handled : Handled schema .builtin eventField.type .union
      (schema.resolve eventField.type) := rfl
  obtain ⟨arms, rfl, -⟩ := (assembled.compiled mem).form handled
  refine ⟨e, bound, parts, arms, isEncoder, assembled, mem, ?_⟩
  intro k arm name v j isArm isRecord first returns
  obtain ⟨-, routine, callee, isConverter, isCallee, serves⟩ :=
    (assembled.taggedUnder mem .self).carry k arm name armedConfig isArm isRecord
  have isEncoder : (arms.map (Converter.encode (e.calls 1)))[k]? = some (callee.callWithin 1) := by
    rw [List.getElem?_map, isConverter, ← Linked.calls_of_callee 1 isCallee]
    rfl
  rw [Converter.encode, Compiles.encodeAll_eq]
  refine Converter.encodeUnion_returns first isArm isEncoder ?_
  rw [serves.callWithin_encode Registry.keepsAny_builtin schema_documented.declared]
  exact returns

end Events

theorem Compile.Assembled.get?_tag_of_union_scroll :
    ∃ (e : Encoder) (arms : List Converter) (j : Json),
    (Events.codec.encoder "Event" {}).1.Returns e ∧
    ((Converter.union Events.plan arms).encode (e.calls 1) Events.scrollInstance).Returns j ∧
    j.get? "kind" = some (.string "scroll") := by
  obtain ⟨e, bound, parts, arms, isEncoder, assembled, mem, encodes⟩ := Events.exists_encoder
  have encoded : ((Converter.union Events.plan arms).encode (e.calls 1)
      Events.scrollInstance).Returns Events.scrollValue :=
    encodes 1 _ "Scroll" _ _ rfl rfl rfl rfl
  have declared : Events.schema.record? "Scroll" = some Events.scroll := rfl
  have isArm : Events.plan.arms[1]? = some _ := rfl
  have tagged := Assembled.get?_tag_of_union Events.schema_documented assembled mem .self
    (List.mem_of_getElem? isArm) rfl rfl declared rfl (List.forall_mem_singleton.2 fun _ _ =>
      (Option.some_injective String).ne (by simp : "delta" ≠ "kind")) Events.inhabits_scroll
    encoded
  exact ⟨e, arms, _, isEncoder, encoded, tagged⟩

/-- A click has a field of its own at the key of the tag, and is encoded without its tag. -/
theorem Codec.not_get?_tag_of_union_click :
    ∃ (e : Encoder) (arms : List Converter) (j : Json),
    (Events.codec.encoder "Event" {}).1.Returns e ∧
    InhabitsRecord Events.schema "Click" Events.clickInstance ∧
    Events.plan.arms[0]?.bind UnionArm.tag = some "click" ∧ Events.plan.key = "kind" ∧
    ((Converter.union Events.plan arms).encode (e.calls 1) Events.clickInstance).Returns j ∧
    j.get? "kind" ≠ some (.string "click") := by
  obtain ⟨e, bound, parts, arms, isEncoder, assembled, mem, encodes⟩ := Events.exists_encoder
  have encoded : ((Converter.union Events.plan arms).encode (e.calls 1)
      Events.clickInstance).Returns Events.clickValue :=
    encodes 0 _ "Click" _ _ rfl rfl rfl rfl
  have isLeft : Events.clickValue.get? "kind" = some (.string "left") := rfl
  exact ⟨e, arms, _, isEncoder, Events.inhabits_click, rfl, rfl, encoded, by simp [isLeft]⟩

end RecordCodec
