import RecordCodec.Proofs.Merging
import RecordCodec.Proofs.Unions

set_option autoImplicit false

/-!
# Whose discriminator key a union has

The routine of a record is reached from that of a root by calls in the converters of fields. As the
root and where it is nested, a record keeps its own discriminator key, whatever is configured around
it, and the unions in its fields look for tags under this key. As an arm of a union it is compiled
with the key of that union, and then the unions in its fields have that key.
-/
namespace RecordCodec

open Routine Run Compile Direct

/-- A converter within another one, in the same routine. The arms of a union that are records are
left out, as they have routines of their own. -/
inductive Converter.PartOf (part : Converter) : Converter → Prop where
  | self : PartOf part part
  | optional {c : Converter} : PartOf part c → PartOf part (.optional c)
  | items (form : ItemsForm) {c : Converter} : PartOf part c → PartOf part (.items form c)
  | tuple {parts : List Converter} {i : Nat} {c : Converter} : parts[i]? = some c →
    PartOf part c → PartOf part (.tuple parts)
  | key {key item : Converter} : PartOf part key → PartOf part (.mapping key item)
  | value {key item : Converter} : PartOf part item → PartOf part (.mapping key item)
  | defaultKey {key item : Converter} {zero : Instance} : PartOf part key →
    PartOf part (.defaultMapping key item zero)
  | defaultValue {key item : Converter} {zero : Instance} : PartOf part item →
    PartOf part (.defaultMapping key item zero)
  | arm {plan : UnionPlan} {arms : List Converter} {i : Nat} {arm : UnionArm} {c : Converter} :
    plan.arms[i]? = some arm → arm.record = none → arms[i]? = some c → PartOf part c →
    PartOf part (.union plan arms)

namespace Config

theorem tagKey?_inherit (own outer : Config) : (own.inherit outer).tagKey? = own.tagKey? := by
  rw [tagKey?, (locals_inherit own outer).2.2, tagKey?]

end Config

/-- The discriminator key that a record has for the unions in its fields. -/
def RecordType.unionKey (record : RecordType) : String :=
  record.ownConfig.tagKey?.getD Config.defaultTagKey

theorem Codec.resolvedConfig_of_record {c : Codec} {name : String} {record : RecordType}
    (declared : c.schema.record? name = some record) :
    c.resolvedConfig name {} = .ok record.ownConfig := by
  unfold resolvedConfig
  rw [findRecord_eq_ok.2 declared]
  exact congrArg Except.ok (Config.empty_overlay _)

namespace Direct.Position

variable {schema : Schema} {here : Position}

theorem exists_of_plan_arm {target : TypeExpr} {i : Nat} {arm : UnionArm}
    (isArm : (here.plan schema target).arms[i]? = some arm) :
    ∃ ty, target.args[i]? = some ty ∧ here.arm schema ty = arm := by
  rw [Position.plan, List.getElem?_map] at isArm
  exact Option.map_eq_some_iff.1 isArm

theorem of_arm_record {ty : TypeExpr} {name : String} {config : Config}
    (isRecord : (here.arm schema ty).record = some (name, config)) :
    ty.shape.recordName? = some name ∧ config.tagKey? = some here.unionKey ∧
      (here.arm schema ty).tag = (schema.record? name).bind (RecordType.tagUnder config) := by
  cases isName : ty.shape.recordName? with
  | none =>
    rw [(here.arm_of_none schema isName).1] at isRecord
    cases isRecord
  | some other =>
    obtain ⟨_, isRecord', tagged⟩ := here.exists_record_arm schema isName
    cases isRecord.symm.trans isRecord'
    exact ⟨rfl, tagged⟩

end Direct.Position

namespace Compile

/-- A property of types that their arguments have as well. -/
structure Hereditary (schema : Schema) (registry : Registry) (P : TypeExpr → Prop) : Prop where
  arg : ∀ ty handler target index, P ty → Handled schema registry ty handler target →
    P (target.arg index)
  args : ∀ ty handler target, P ty → Handled schema registry ty handler target →
    ∀ inner ∈ target.args, P inner

theorem Compiles.part {schema : Schema} {registry : Registry} {bound : Binding} {here : Position}
    {P : TypeExpr → Prop} (hereditary : Hereditary schema registry P) {ty : TypeExpr}
    {c part : Converter} (isPart : part.PartOf c) (h : Compiles schema registry bound here ty c)
    (holds : P ty) : ∃ inner, Compiles schema registry bound here inner part ∧ P inner := by
  induction isPart generalizing ty with
  | self => exact ⟨ty, h, holds⟩
  | optional _ ih =>
    cases h with
    | optional handled compiled => exact ih compiled (hereditary.arg _ _ _ 0 holds handled)
  | items form _ ih =>
    cases h with
    | items _ handled compiled => exact ih compiled (hereditary.arg _ _ _ 0 holds handled)
  | tuple isItem _ ih =>
    cases h with
    | tuple handled count compiled =>
      have inRange := (List.getElem?_eq_some_iff.1 isItem).1
      have isType := List.getElem?_eq_getElem (count ▸ inRange)
      exact ih (compiled _ _ _ isType isItem)
        (hereditary.args _ _ _ holds handled _ (List.mem_of_getElem? isType))
  | key _ ih =>
    cases h with
    | mapping handled compiled _ => exact ih compiled (hereditary.arg _ _ _ 0 holds handled)
  | value _ ih =>
    cases h with
    | mapping handled _ compiled => exact ih compiled (hereditary.arg _ _ _ 1 holds handled)
  | defaultKey _ ih =>
    cases h with
    | defaultMapping handled compiled _ => exact ih compiled (hereditary.arg _ _ _ 0 holds handled)
  | defaultValue _ ih =>
    cases h with
    | defaultMapping handled _ compiled => exact ih compiled (hereditary.arg _ _ _ 1 holds handled)
  | arm isArm noRecord isConverter _ ih =>
    cases h with
    | union handled _ _ _ compiled =>
      obtain ⟨item, isItem, rfl⟩ := Position.exists_of_plan_arm isArm
      exact ih (compiled _ _ _ isItem isConverter noRecord)
        (hereditary.args _ _ _ holds handled _ (List.mem_of_getElem? isItem))

theorem hereditary_true (schema : Schema) (registry : Registry) :
    Hereditary schema registry fun _ => True :=
  ⟨fun _ _ _ _ _ _ => trivial, fun _ _ _ _ _ _ _ => trivial⟩

section
variable {I O : Type} (schema : Schema) (registry : Registry) (mode : Mode I O)

/-- The routine was made of the record under the configuration, with these converters for its
fields, and by each name in them it calls a routine of what the name stands for. -/
structure Assembled (r : Linked I O) (name : String) (config : Config) (bound : Binding)
    (parts : List (Field × Converter)) : Prop where
  made : ∃ record, Made schema registry mode bound name config record parts r.code
  functional : bound.Functional
  callees : ∀ routine name config, bound routine name config →
    ∃ callee, r.callee? routine = some callee ∧ Serves schema registry mode callee name config

/-- The routine of a record under a configuration is reached from that of a root by calls. If the
last call is for an arm of a union, `via` is the discriminator key of this union. -/
inductive Reached (root : String) (main : Linked I O) :
    Option String → String → Config → Linked I O → Prop where
  | root {record : RecordType} : schema.record? root = some record →
    Reached root main none root record.ownConfig main
  | nested {via : Option String} {name other routine : String} {config config' : Config}
    {r callee : Linked I O} {bound : Binding} {parts : List (Field × Converter)} {f : Field}
    {c : Converter} : Reached root main via name config r →
    Assembled schema registry mode r name config bound parts → (f, c) ∈ parts →
    (Converter.record routine).PartOf c → bound routine other config' →
    r.callee? routine = some callee → Reached root main none other config' callee
  | arm {via : Option String} {name other routine : String} {config config' : Config}
    {r callee : Linked I O} {bound : Binding} {parts : List (Field × Converter)} {f : Field}
    {c : Converter} {plan : UnionPlan} {arms : List Converter} {i : Nat} {arm : UnionArm} :
    Reached root main via name config r →
    Assembled schema registry mode r name config bound parts → (f, c) ∈ parts →
    (Converter.union plan arms).PartOf c → plan.arms[i]? = some arm →
    arm.record = some (other, config') → arms[i]? = some (.record routine) →
    r.callee? routine = some callee → Reached root main (some plan.key) other config' callee

/-- The union looks for tags under the key, and its record arms are converted by routines that have
this key for their own tags. -/
structure TaggedUnder (key : String) (r : Linked I O) (plan : UnionPlan)
    (arms : List Converter) : Prop where
  looks : plan.key = key
  carry : ∀ (i : Nat) (arm : UnionArm) (name : String) (config : Config),
    plan.arms[i]? = some arm → arm.record = some (name, config) → config.tagKey? = some key ∧
      ∃ routine callee, arms[i]? = some (.record routine) ∧ r.callee? routine = some callee ∧
        Serves schema registry mode callee name config

/-- All unions in the fields of the record have the record's key, if the field declares none. -/
def OwnsUnions (r : Linked I O) (name : String) (config : Config) (record : RecordType) : Prop :=
  ∃ bound parts, Assembled schema registry mode r name config bound parts ∧
    parts.map Prod.fst = mode.fields record config ∧
    ∀ f c, (f, c) ∈ parts → f.discriminator = none →
      ∀ plan arms, (Converter.union plan arms).PartOf c →
        TaggedUnder schema registry mode record.unionKey r plan arms

variable {schema registry mode} {root name : String} {main r : Linked I O} {via : Option String}
  {config : Config} {record : RecordType} {bound : Binding} {parts : List (Field × Converter)}
  {f : Field} {c : Converter} {plan : UnionPlan} {arms : List Converter}

theorem Serves.exists_assembled (h : Serves schema registry mode r name config) :
    ∃ bound parts, Assembled schema registry mode r name config bound parts := by
  obtain ⟨bound, record, parts, functional, made, callees⟩ := h.elim_functional
  exact ⟨bound, parts, ⟨record, made⟩, functional, callees⟩

namespace Assembled

theorem fields (h : Assembled schema registry mode r name config bound parts)
    (declared : schema.record? name = some record) :
    parts.map Prod.fst = mode.fields record config := by
  obtain ⟨record', made⟩ := h.made
  obtain rfl := Option.some.inj (made.declared.symm.trans declared)
  exact made.fields

theorem exists_part (h : Assembled schema registry mode r name config bound parts)
    (declared : schema.record? name = some record) (mem : f ∈ mode.fields record config) :
    ∃ c, (f, c) ∈ parts := by
  obtain ⟨record', made⟩ := h.made
  obtain rfl := Option.some.inj (made.declared.symm.trans declared)
  exact made.exists_part mem

theorem compiled (h : Assembled schema registry mode r name config bound parts)
    (mem : (f, c) ∈ parts) : Compiles schema registry bound ⟨config, f.discriminator⟩ f.type c := by
  obtain ⟨record, made⟩ := h.made
  exact made.compiled f c mem

theorem nestedConfig (h : Assembled schema registry mode r name config bound parts)
    (mem : (f, c) ∈ parts) {routine other : String} {config' : Config}
    (isPart : (Converter.record routine).PartOf c) (isBound : bound routine other config') :
    config' = Position.nestedConfig schema ⟨config, f.discriminator⟩ other := by
  obtain ⟨inner, compiled, -⟩ := (h.compiled mem).part (hereditary_true _ _) isPart trivial
  cases compiled with
  | record _ _ known =>
    obtain ⟨rfl, rfl⟩ := h.functional isBound known
    rfl

theorem taggedUnder (h : Assembled schema registry mode r name config bound parts)
    (mem : (f, c) ∈ parts) (isPart : (Converter.union plan arms).PartOf c) :
    TaggedUnder schema registry mode (Position.unionKey ⟨config, f.discriminator⟩) r plan arms := by
  obtain ⟨inner, compiled, -⟩ := (h.compiled mem).part (hereditary_true _ _) isPart trivial
  cases compiled with
  | union handled count _ records _ =>
    refine ⟨rfl, fun i arm other config' isArm isRecord => ?_⟩
    obtain ⟨ty, isType, rfl⟩ := Position.exists_of_plan_arm isArm
    have inRange := (List.getElem?_eq_some_iff.1 isType).1
    have isConverter := List.getElem?_eq_getElem (count ▸ inRange)
    obtain ⟨routine, isRoutine, known⟩ := records i ty _ isType isConverter _ _ isRecord
    obtain ⟨callee, isCallee, serves⟩ := h.callees _ _ _ known
    have isKey := (Position.of_arm_record isRecord).2.1
    exact ⟨isKey, routine, callee, isRoutine ▸ isConverter, isCallee, serves⟩

end Assembled

namespace Reached

theorem serves (h : Reached schema registry mode root main via name config r)
    (start : ∀ record, schema.record? root = some record →
      Serves schema registry mode main root record.ownConfig) :
    Serves schema registry mode r name config := by
  cases h with
  | root declared => exact start _ declared
  | nested _ assembled _ _ isBound isCallee =>
    obtain ⟨callee, isCallee', serves⟩ := assembled.callees _ _ _ isBound
    cases isCallee.symm.trans isCallee'
    exact serves
  | arm _ assembled mem isPart isArm isRecord isConverter isCallee =>
    obtain ⟨-, _, callee, isConverter', isCallee', serves⟩ :=
      (assembled.taggedUnder mem isPart).carry _ _ _ _ isArm isRecord
    cases isConverter.symm.trans isConverter'
    cases isCallee.symm.trans isCallee'
    exact serves

theorem exists_nested (h : Reached schema registry mode root main via name config r)
    (assembled : Assembled schema registry mode r name config bound parts) (mem : (f, c) ∈ parts)
    {routine : String} (isPart : (Converter.record routine).PartOf c) :
    ∃ other callee, bound routine other
        (Position.nestedConfig schema ⟨config, f.discriminator⟩ other) ∧
      r.callee? routine = some callee ∧ Reached schema registry mode root main none other
        (Position.nestedConfig schema ⟨config, f.discriminator⟩ other) callee := by
  obtain ⟨inner, compiled, -⟩ := (assembled.compiled mem).part (hereditary_true _ _) isPart trivial
  cases compiled with
  | record _ _ known =>
    obtain ⟨callee, isCallee, -⟩ := assembled.callees _ _ _ known
    exact ⟨_, callee, known, isCallee, .nested h assembled mem isPart known isCallee⟩

theorem exists_arm (h : Reached schema registry mode root main via name config r)
    (assembled : Assembled schema registry mode r name config bound parts) (mem : (f, c) ∈ parts)
    (isPart : (Converter.union plan arms).PartOf c) {i : Nat} {arm : UnionArm} {other : String}
    {config' : Config} (isArm : plan.arms[i]? = some arm)
    (isRecord : arm.record = some (other, config')) :
    ∃ callee, Reached schema registry mode root main (some plan.key) other config' callee := by
  obtain ⟨-, routine, callee, isConverter, isCallee, -⟩ :=
    (assembled.taggedUnder mem isPart).carry i arm other config' isArm isRecord
  exact ⟨callee, .arm h assembled mem isPart isArm isRecord isConverter isCallee⟩

/-- A record keeps its own key, unless it is reached as an arm of a union. -/
theorem tagKey? (h : Reached schema registry mode root main via name config r)
    (declared : schema.record? name = some record) :
    config.tagKey? = via.or record.ownConfig.tagKey? := by
  cases h with
  | root declared' =>
    cases declared.symm.trans declared'
    rfl
  | nested _ assembled mem isPart isBound _ =>
    rw [assembled.nestedConfig mem isPart isBound, Position.nestedConfig_of_declared declared]
    exact Config.tagKey?_inherit _ _
  | arm _ assembled mem isPart isArm isRecord _ _ =>
    have tagged := assembled.taggedUnder mem isPart
    rw [tagged.looks]
    exact (tagged.carry _ _ _ _ isArm isRecord).1

/-- The key of a union is declared by its field, that of the union that the record is an arm of, or
the record's own, in this order. -/
theorem taggedUnder (h : Reached schema registry mode root main via name config r)
    (declared : schema.record? name = some record)
    (assembled : Assembled schema registry mode r name config bound parts) (mem : (f, c) ∈ parts)
    (isPart : (Converter.union plan arms).PartOf c) :
    TaggedUnder schema registry mode ((f.discriminator.or via).getD record.unionKey) r plan
      arms := by
  have tagged := assembled.taggedUnder mem isPart
  rw [Position.unionKey, h.tagKey? declared] at tagged
  convert tagged using 1
  cases f.discriminator <;> cases via <;> rfl

/-- A record that is reached as no arm of a union with another key owns the unions in its fields. -/
theorem ownsUnions (h : Reached schema registry mode root main via name config r)
    (start : ∀ record, schema.record? root = some record →
      Serves schema registry mode main root record.ownConfig)
    (declared : schema.record? name = some record)
    (same : ∀ key, via = some key → key = record.unionKey) :
    OwnsUnions schema registry mode r name config record := by
  obtain ⟨bound, parts, assembled⟩ := (h.serves start).exists_assembled
  refine ⟨bound, parts, assembled, assembled.fields declared, ?_⟩
  intro f c mem noKey plan arms isPart
  have tagged := h.taggedUnder declared assembled mem isPart
  rw [noKey, Option.none_or] at tagged
  cases via with
  | none => exact tagged
  | some key => exact same key rfl ▸ tagged

end Reached

variable (schema registry mode)

/-- Any record that is reached from the root owns the unions in its fields, unless it is reached as
an arm of a union with another key. -/
def OwnersKeyed (root : String) (main : Linked I O) : Prop :=
  ∀ via name config r record, Reached schema registry mode root main via name config r →
    schema.record? name = some record → (∀ key, via = some key → key = record.unionKey) →
    OwnsUnions schema registry mode r name config record

end
end Compile

namespace Codec

variable {c : Codec} {root : String} {record : RecordType}

theorem decoder_serves_own (history : c.cache.History c.schema c.registry)
    (apart : c.cache.decoders = [] ∨ c.schema.Unnumbered)
    (declared : c.schema.record? root = some record) {d : Decoder}
    (h : (c.decoder root {}).1.Returns d) :
    Serves c.schema c.registry .decoding d root record.ownConfig := by
  obtain ⟨config, resolved, serves⟩ := decoder_serves history apart h
  cases resolved.symm.trans (resolvedConfig_of_record declared)
  exact serves

theorem encoder_serves_own (history : c.cache.History c.schema c.registry)
    (apart : c.cache.encoders = [] ∨ c.schema.Unnumbered)
    (declared : c.schema.record? root = some record) {e : Encoder}
    (h : (c.encoder root {}).1.Returns e) :
    Serves c.schema c.registry .encoding e root record.ownConfig := by
  obtain ⟨config, resolved, serves⟩ := encoder_serves history apart h
  cases resolved.symm.trans (resolvedConfig_of_record declared)
  exact serves

/-- In the routines that a codec compiles with no settings of a caller, in either direction, the
unions of a record have the discriminator key of this record. -/
theorem ownersKeyed (history : c.cache.History c.schema c.registry)
    (decoders : c.cache.decoders = [] ∨ c.schema.Unnumbered)
    (encoders : c.cache.encoders = [] ∨ c.schema.Unnumbered) :
    (∀ d, (c.decoder root {}).1.Returns d →
      OwnersKeyed c.schema c.registry .decoding root d) ∧
    (∀ e, (c.encoder root {}).1.Returns e →
      OwnersKeyed c.schema c.registry .encoding root e) := by
  constructor
  · intro d isDecoder via name config r record reached declared same
    exact reached.ownsUnions
      (fun _ isRoot => decoder_serves_own history decoders isRoot isDecoder) declared same
  · intro e isEncoder via name config r record reached declared same
    exact reached.ownsUnions
      (fun _ isRoot => encoder_serves_own history encoders isRoot isEncoder) declared same

end Codec

namespace Scenes

def dot : RecordType where
  name := "Dot"
  tag := some "dot"

def line : RecordType where
  name := "Line"
  tag := some "line"

def itemField : Field := { name := "item", type := .union [.named "Dot", .named "Line"] }

def group : RecordType where
  name := "Group"
  fields := [itemField]
  tag := some "group"

def shapeField : Field where
  name := "shape"
  type := .union [.primitive .str, .named "Group"]
  discriminator := some "kind"

def scene : RecordType where
  name := "Scene"
  fields := [shapeField]

def groupsField : Field := { name := "groups", type := .sequence (.named "Group") }

def album : RecordType where
  name := "Album"
  fields := [groupsField]

def schema : Schema where
  records := ((((Table.empty.insert "Dot" dot).insert "Line" line).insert "Group" group).insert
    "Scene" scene).insert "Album" album

def codec : Codec where
  schema := schema

def armedConfig : Config := armConfig "kind" false {}

section
variable {I O : Type} {mode : Mode I O} {r : Linked I O}

theorem exists_group_of_album (all : mode.fields album {} = [groupsField])
    (serves : Serves schema .builtin mode r "Album" {}) :
    ∃ callee, Reached schema .builtin mode "Album" r none "Group" {} callee := by
  obtain ⟨bound, parts, assembled⟩ := serves.exists_assembled
  obtain ⟨c, mem⟩ := assembled.exists_part rfl (all ▸ List.mem_singleton.2 rfl)
  have isList : Handled schema .builtin groupsField.type .sequence
      (schema.resolve groupsField.type) := rfl
  have isGroup : Handled schema .builtin ((schema.resolve groupsField.type).arg 0) .record
      (.apply (.record .keyword "Group") []) := rfl
  obtain ⟨item, rfl, compiled⟩ := (assembled.compiled mem).form isList
  obtain ⟨_, routine, rfl, isName, isBound⟩ := compiled.form isGroup
  cases isName
  have main : Reached schema .builtin mode "Album" r none "Album" album.ownConfig r :=
    .root rfl
  obtain ⟨other, callee, isBound', -, reached⟩ :=
    main.exists_nested assembled mem (.items .list .self)
  obtain ⟨rfl, -⟩ := assembled.functional isBound isBound'
  exact ⟨callee, reached⟩

theorem exists_group_of_scene (all : mode.fields scene {} = [shapeField])
    (serves : Serves schema .builtin mode r "Scene" {}) :
    ∃ callee, Reached schema .builtin mode "Scene" r (some "kind") "Group" armedConfig callee := by
  obtain ⟨bound, parts, assembled⟩ := serves.exists_assembled
  obtain ⟨c, mem⟩ := assembled.exists_part rfl (all ▸ List.mem_singleton.2 rfl)
  have handled : Handled schema .builtin shapeField.type .union
      (schema.resolve shapeField.type) := rfl
  obtain ⟨arms, rfl, -⟩ := (assembled.compiled mem).form handled
  have main : Reached schema .builtin mode "Scene" r none "Scene" scene.ownConfig r :=
    .root rfl
  exact main.exists_arm assembled mem .self (i := 1) rfl rfl

theorem not_ownsUnions_group {main : Linked I O} (all : mode.fields group armedConfig = [itemField])
    (reached : Reached schema .builtin mode "Scene" main (some "kind") "Group" armedConfig r) :
    ¬OwnsUnions schema .builtin mode r "Group" armedConfig group := by
  rintro ⟨bound, parts, assembled, -, owned⟩
  obtain ⟨c, mem⟩ := assembled.exists_part rfl (all ▸ List.mem_singleton.2 rfl)
  have handled : Handled schema .builtin itemField.type .union
      (schema.resolve itemField.type) := rfl
  obtain ⟨arms, rfl, -⟩ := (assembled.compiled mem).form handled
  have own := (owned itemField _ mem rfl _ arms .self).looks
  have borrowed := (reached.taggedUnder rfl assembled mem .self).looks
  exact absurd (own.symm.trans borrowed) (by decide)

end

theorem exists_serving {root : String} {record : RecordType}
    (declared : schema.record? root = some record)
    (decodes : (codec.decoder root {}).1.returnsWith (fun _ => true) = true)
    (encodes : (codec.encoder root {}).1.returnsWith (fun _ => true) = true) :
    ∃ d e, (codec.decoder root {}).1.Returns d ∧ (codec.encoder root {}).1.Returns e ∧
      Serves schema .builtin .decoding d root record.ownConfig ∧
      Serves schema .builtin .encoding e root record.ownConfig := by
  have history : codec.cache.History codec.schema codec.registry := .empty 0 0
  obtain ⟨d, isDecoder, -⟩ := exists_of_returnsWith decodes
  obtain ⟨e, isEncoder, -⟩ := exists_of_returnsWith encodes
  exact ⟨d, e, isDecoder, isEncoder,
    Codec.decoder_serves_own history (.inl rfl) declared isDecoder,
    Codec.encoder_serves_own history (.inl rfl) declared isEncoder⟩

end Scenes

theorem Codec.ownersKeyed_album : ∃ (d : Decoder) (e : Encoder) (r : Decoder) (r' : Encoder),
    (Scenes.codec.decoder "Album" {}).1.Returns d ∧
    (Scenes.codec.encoder "Album" {}).1.Returns e ∧
    Reached Scenes.schema .builtin .decoding "Album" d none "Group" {} r ∧
    OwnsUnions Scenes.schema .builtin .decoding r "Group" {} Scenes.group ∧
    Reached Scenes.schema .builtin .encoding "Album" e none "Group" {} r' ∧
    OwnsUnions Scenes.schema .builtin .encoding r' "Group" {} Scenes.group := by
  obtain ⟨d, e, isDecoder, isEncoder, servesD, servesE⟩ :=
    @Scenes.exists_serving "Album" _ rfl (by decide +kernel) (by decide +kernel)
  obtain ⟨r, reached⟩ := Scenes.exists_group_of_album rfl servesD
  obtain ⟨r', reached'⟩ := Scenes.exists_group_of_album rfl servesE
  obtain ⟨decoders, encoders⟩ :=
    @Codec.ownersKeyed Scenes.codec "Album" (.empty 0 0) (.inl rfl) (.inl rfl)
  exact ⟨d, e, r, r', isDecoder, isEncoder, reached,
    decoders d isDecoder _ _ _ _ _ reached rfl (by simp), reached',
    encoders e isEncoder _ _ _ _ _ reached' rfl (by simp)⟩

/-- A group does not own the unions in its fields where it is an arm of a union. -/
theorem Codec.not_ownsUnions_scene : ∃ (d : Decoder) (e : Encoder) (r : Decoder) (r' : Encoder),
    (Scenes.codec.decoder "Scene" {}).1.Returns d ∧
    (Scenes.codec.encoder "Scene" {}).1.Returns e ∧
    Reached Scenes.schema .builtin .decoding "Scene" d (some "kind") "Group" Scenes.armedConfig r ∧
    ¬OwnsUnions Scenes.schema .builtin .decoding r "Group" Scenes.armedConfig Scenes.group ∧
    Reached Scenes.schema .builtin .encoding "Scene" e (some "kind") "Group" Scenes.armedConfig r' ∧
    ¬OwnsUnions Scenes.schema .builtin .encoding r' "Group" Scenes.armedConfig Scenes.group := by
  obtain ⟨d, e, isDecoder, isEncoder, servesD, servesE⟩ :=
    @Scenes.exists_serving "Scene" _ rfl (by decide +kernel) (by decide +kernel)
  obtain ⟨r, reached⟩ := Scenes.exists_group_of_scene rfl servesD
  obtain ⟨r', reached'⟩ := Scenes.exists_group_of_scene rfl servesE
  exact ⟨d, e, r, r', isDecoder, isEncoder, reached, Scenes.not_ownsUnions_group rfl reached,
    reached', Scenes.not_ownsUnions_group rfl reached'⟩

example : (Scenes.codec.encode "Scene" (.record "Scene" [("shape", .record "Group"
      [("item", .record "Line" [])])]) {}).1.returnsWith (fun j => j.same (.object [("shape",
        .object [("kind", .string "group"), ("item", .object [("kind", .string "line")])])])) =
      true := by
  decide +kernel

end RecordCodec
