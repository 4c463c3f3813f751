import RecordCodec.Compile.Session

set_option autoImplicit false

/-!
# The direct interpretation of a schema

What decoding and encoding a record mean, with no routines, slots or names: recursion on the type
of a position and on the fields of a record in the order of their declaration. A nested record is
interpreted under its own settings filled in from the configuration around it. The fuel counts the
records nested in one another.
-/
namespace RecordCodec.Direct

open Routine Compile Converter

/-- How nested records are converted, by record and configuration. -/
abbrev Nested (I O : Type) := String → Config → I → Run O

/-- Where a type stands: in a field of a record that is converted under a configuration. -/
structure Position where
  config : Config
  /-- The discriminator key that the field declares. -/
  discriminator : Option String

namespace Position

def unionKey (here : Position) : String :=
  (here.discriminator.or here.config.tagKey?).getD Config.defaultTagKey

def nestedConfig (schema : Schema) (here : Position) (record : String) : Config :=
  match schema.record? record with
  | some declared => declared.ownConfig.inherit here.config
  | none => here.config

theorem nestedConfig_of_declared {schema : Schema} {name : String} {record : RecordType}
    (declared : schema.record? name = some record) (here : Position) :
    here.nestedConfig schema name = record.ownConfig.inherit here.config := by
  rw [nestedConfig, declared]

/-- An arm of a union. One that is a record gets the key of the union, and automatic tags if they
are on around the union and it has no word on them itself. -/
def arm (schema : Schema) (here : Position) (ty : TypeExpr) : UnionArm :=
  match ty.shape.recordName? with
  | none => { type := ty, record := none, tag := none }
  | some name =>
    let config := armConfig here.unionKey here.config.autoTags (here.nestedConfig schema name)
    { type := ty
      record := some (name, config)
      tag := (schema.record? name).bind (RecordType.tagUnder config) }

def plan (schema : Schema) (here : Position) (ty : TypeExpr) : UnionPlan where
  union := ty.text
  key := here.unionKey
  arms := ty.args.map (here.arm schema)

end Position

/-- The conversion of an argument of a type; one that is not given stands for any value. -/
def part {α : Type} (any : α) (parts : List α) (index : Nat) : α := parts[index]?.getD any

def armPart {I O : Type} (nested : Nested I O) (arm : UnionArm) (convert : I → Run O) : I → Run O :=
  match arm.record with
  | some (name, config) => nested name config
  | none => convert

def armParts {I O : Type} (nested : Nested I O) (arms : List UnionArm)
    (parts : List (I → Run O)) : List (I → Run O) :=
  List.zipWith (armPart nested) arms parts

section
variable (schema : Schema) (registry : Registry)

section Decoding
variable (nested : Nested Json Instance) (here : Position)

def decodeAny : Decode := fun v => pure (.dynamic v)

def decodeList (form : ItemsForm) (item : Decode) (v : Json) : Run Instance :=
  match listItems? v with
  | some vs => do
    let decoded ← decodeItems item 0 vs
    pure (form.build decoded)
  | none => throw (.invalid form.expected v)

def decodeMapping (build : List (Instance × Instance) → Instance) (key item : Decode) (v : Json) :
    Run Instance := do
  let entries ← Run.ofExcept (mapEntries v)
  let decoded ← decodeEntries key item entries
  pure (build decoded)

/-- Decodes at a type that a handler is for, with the conversions of the type's arguments. -/
def decodeAs (ty : TypeExpr) (parts : List Decode) (handler : Handler) (v : Json) : Run Instance :=
  match handler with
  | .scalar p => .ofExcept (Scalar.decode p v)
  | .optional => if v.isNull then pure .null else part decodeAny parts 0 v
  | .sequence => decodeList .list (part decodeAny parts 0) v
  | .set => decodeList .set (part decodeAny parts 0) v
  | .variadicTuple => decodeList .tuple (part decodeAny parts 0) v
  | .fixedTuple => decodeTuple parts v
  | .mapping => decodeMapping .map (part decodeAny parts 0) (part decodeAny parts 1) v
  | .defaultMapping =>
    decodeMapping (fun entries => .defaultMap entries (zeroOf (ty.arg 1)))
      (part decodeAny parts 0) (part decodeAny parts 1) v
  | .literal => .ofExcept (decodeLiteral ty.literals v)
  | .enumeration => .ofExcept (findEnum schema ty >>= fun e => decodeEnum e v)
  | .union =>
    let plan := here.plan schema ty
    decodeUnion plan (armParts nested plan.arms parts) v
  | .record =>
    match ty.shape.recordName? with
    | some name => nested name (here.nestedConfig schema name) v
    | none => throw (.of (.unsupportedType ty.text))
  | .custom decode _ => .ofExcept (decode v)

mutual
/-- Decodes at a type whose names are resolved. -/
def decodeType : TypeExpr → Decode
  | ⟨shape, args, literals⟩ =>
    match registry.resolve schema ⟨shape, args, literals⟩ with
    | .ok (handler, target) =>
      decodeAs schema nested here target ((decodeTypes args).take target.args.length) handler
    | .error e => fun _ => throw e
def decodeTypes : List TypeExpr → List Decode
  | [] => []
  | ty :: rest => decodeType ty :: decodeTypes rest
end

end Decoding

section Records
variable (record : RecordType) (config : Config) (input : Json)

def place? (index : Nat) (field : Field) : Option Location :=
  (Locator.ofField config (if record.kind = .positional then some index else none) field).locate
    input

def located? (index : Nat) (field : Field) : Option Json :=
  (place? record config input index field).bind fun place => place.fetch input

/-- The instance that an absent field gets. -/
def decodeAbsent (convert : Decode) (field : Field) : Run (Option Instance) :=
  match field.default with
  | some (.value v) | some (.fresh v) => pure (some v)
  | some (.declared raw) => do
    let v ← (convert raw).mapError (Failure.inField record.name field.name)
    pure (some v)
  | none => pure none

def decodeField (convert : Decode) (index : Nat) (field : Field) : Run (Option Instance) :=
  match located? record config input index field with
  | some raw => do
    let v ← (convert raw).mapError (Failure.inField record.name field.name)
    pure (some v)
  | none => decodeAbsent record convert field

/-- A catch-all field has to wait for the others. -/
def decodeInTurn (convert : Decode) (index : Nat) (field : Field) : Run (Option Instance) :=
  if field.catchAll then pure none else decodeField record config input convert index field

def decodeFields (convert : Field → Decode) : Nat → List Field → Run (List (Option Instance))
  | _, [] => pure []
  | index, field :: rest => do
    let first ← decodeInTurn record config input (convert field) index field
    let others ← decodeFields convert (index + 1) rest
    pure (first :: others)

/-- The keys of the input that fields other than a catch-all are found at. -/
def takenKeys : Nat → List Field → List String
  | _, [] => []
  | index, field :: rest =>
    (if field.catchAll then none
      else (place? record config input index field).bind takenKey?).toList ++
      takenKeys (index + 1) rest

/-- The keys of the input that belong to no field and are not the discriminator. -/
def leftOver : List String :=
  input.keys.filter fun key =>
    !(takenKeys record config input 0 record.fields).contains key &&
      tagKeyOf? record config != some key

def missingFields : Nat → List Field → List String
  | _, [] => []
  | index, field :: rest =>
    (if (located? record config input index field).isNone && field.isRequired record.kind then
      [field.name] else []) ++ missingFields (index + 1) rest

/-- The keys left over as an object. -/
def gathered : Json :=
  .ofMembers ((leftOver record config input).map fun key => (key, (input.get? key).getD .null))

def catchAllAt : Nat → List Field → Option (Field × Nat)
  | _, [] => none
  | index, field :: rest =>
    if field.catchAll then some (field, index) else catchAllAt (index + 1) rest

/-- What becomes of the keys left over: they go to the catch-all field, or the policy for unknown
keys decides. -/
def decodeLeftOver (convert : Field → Decode) (values : List (Option Instance)) :
    Run (List (Option Instance)) :=
  match catchAllAt 0 record.fields with
  | some (field, index) => do
    let v ← (convert field (gathered record config input)).mapError
      (Failure.inField record.name field.name)
    pure (values.set index (some v))
  | none =>
    match config.policy, leftOver record config input with
    | .raise, key :: _ => throw (.of (.unknownKey record.name key))
    | _, _ => pure values

def present : List Field → List (Option Instance) → List (String × Instance)
  | field :: fields, some v :: values => (field.name, v) :: present fields values
  | _ :: fields, none :: values => present fields values
  | _, _ => []

def decodeRecord (convert : Field → Decode) : Run Instance := do
  Run.ofExcept (Decoder.checkForm record input)
  let values ← decodeFields record config input convert 0 record.fields
  let values ← decodeLeftOver record config input convert values
  match missingFields record config input 0 record.fields with
  | [] => pure (.record record.name (present record.fields values))
  | missing => throw (.of (.missingFields record.name missing))

end Records

/-- Decodes as a record under a configuration. -/
def decode : Nat → Nested Json Instance
  | 0, _, _ => fun _ => ExceptT.mk none
  | fuel + 1, name, config => fun v => do
    let record ← Run.ofExcept (schema.findRecord name)
    decodeRecord record config v fun field =>
      decodeType schema registry (decode fuel) ⟨config, field.discriminator⟩
        (schema.resolve field.type)

section Encoding
variable (nested : Nested Instance Json) (here : Position)

def encodeAny : Encode := fun v => pure v.toJson

def encodeList (form : ItemsForm) (item : Encode) (v : Instance) : Run Json :=
  match v.items? with
  | some vs => do
    let encoded ← encodeItems item 0 vs
    pure (.array encoded)
  | none => throw (.invalid form.expected v.toJson)

def encodeAs (ty : TypeExpr) (parts : List Encode) (handler : Handler) (v : Instance) : Run Json :=
  match handler with
  | .scalar p => .ofExcept (Scalar.encode p v)
  | .optional => if v.isNull then pure .null else part encodeAny parts 0 v
  | .sequence => encodeList .list (part encodeAny parts 0) v
  | .set => encodeList .set (part encodeAny parts 0) v
  | .variadicTuple => encodeList .tuple (part encodeAny parts 0) v
  | .fixedTuple => encodeTuple parts v
  | .mapping | .defaultMapping =>
    encodeMapping (part encodeAny parts 0) (part encodeAny parts 1) v
  | .literal => .ofExcept (encodeLiteral ty.literals v)
  | .enumeration => .ofExcept (findEnum schema ty >>= fun e => encodeEnum e v)
  | .union =>
    let plan := here.plan schema ty
    encodeUnion plan (armParts nested plan.arms parts) v
  | .record =>
    match ty.shape.recordName? with
    | some name => nested name (here.nestedConfig schema name) v
    | none => throw (.of (.unsupportedType ty.text))
  | .custom _ encode => .ofExcept (encode v)

mutual
def encodeType : TypeExpr → Encode
  | ⟨shape, args, literals⟩ =>
    match registry.resolve schema ⟨shape, args, literals⟩ with
    | .ok (handler, target) =>
      encodeAs schema nested here target ((encodeTypes args).take target.args.length) handler
    | .error e => fun _ => throw e
def encodeTypes : List TypeExpr → List Encode
  | [] => []
  | ty :: rest => encodeType ty :: encodeTypes rest
end

end Encoding

section Records
variable (record : RecordType) (config : Config) (input : Instance)

def absentFields (fields : List Field) : List String :=
  (fields.filter fun field =>
    field.isRequired record.kind && (input.field? field.name).isNone).map Field.name

/-- The tag comes first, if the configuration has a key for it. -/
def tagMembers : List (String × Json) :=
  match config.tagKey?, record.tagUnder config with
  | some key, some tag => [(key, .string tag)]
  | _, _ => []

/-- Writes a field at its place, unless a rule leaves it out. -/
def encodeMember (convert : Encode) (field : Field) (members : List (String × Json)) :
    Run (List (String × Json)) :=
  let omission := Omission.ofField config field
  match input.field? field.name with
  | none => pure members
  | some v =>
    if omission.omits v then pure members
    else do
      let encoded ← (convert v).mapError (Failure.inField record.name field.name)
      pure (if omission.omitsEncoded encoded then members
        else (Target.ofField config field).write encoded members)

/-- A catch-all field is written last. -/
def encodeInTurn (convert : Encode) (field : Field) (members : List (String × Json)) :
    Run (List (String × Json)) :=
  if field.catchAll then pure members else encodeMember record config input convert field members

def encodeMembers (convert : Field → Encode) :
    List Field → List (String × Json) → Run (List (String × Json))
  | [], members => pure members
  | field :: rest, members => do
    let members ← encodeInTurn record config input (convert field) field members
    encodeMembers convert rest members

/-- The members that a catch-all field adds. -/
def splatMembers (convert : Encode) (field : Field) : Run (List (String × Json)) :=
  match input.field? field.name with
  | none => pure []
  | some v => Run.mapError (Failure.inField record.name field.name) do
    match ← convert v with
    | .object extra => pure extra
    | _ => throw (.invalid "a mapping" v.toJson)

def encodeObject (convert : Field → Encode) (fields : List Field) : Run Json := do
  let members ← encodeMembers record config input convert fields (tagMembers record config)
  match fields.find? Field.catchAll with
  | some field =>
    let extra ← splatMembers record input (convert field) field
    pure (.object (Encoder.addFree extra members))
  | none => pure (.object members)

/-- The element for a field; one that the instance does not have is its encoded default. -/
def encodeElement (convert : Encode) (field : Field) : Run Json :=
  Run.mapError (Failure.inField record.name field.name)
    (match input.field? field.name with
      | some v => convert v
      | none => Encoder.encodeDefault convert field.default)

def encodeElements (convert : Field → Encode) : List Field → Run (List Json)
  | [] => pure []
  | field :: rest => do
    let first ← encodeElement record input (convert field) field
    let others ← encodeElements convert rest
    pure (first :: others)

def encodeOutput (convert : Field → Encode) (fields : List Field) : Run Json :=
  if Encoder.inArrayForm record config then do
    let elements ← encodeElements record input convert fields
    pure (.array elements)
  else encodeObject record config input convert fields

def encodeRecord (convert : Field → Encode) : Run Json := do
  Run.ofExcept (Encoder.checkType record input)
  let output ← encodeOutput record config input convert (Encoder.fields record config)
  match absentFields record input (Encoder.fields record config) with
  | [] => pure output
  | missing => throw (.of (.missingFields record.name missing))

end Records

def encode : Nat → Nested Instance Json
  | 0, _, _ => fun _ => ExceptT.mk none
  | fuel + 1, name, config => fun v => do
    let record ← Run.ofExcept (schema.findRecord name)
    encodeRecord record config v fun field =>
      encodeType schema registry (encode fuel) ⟨config, field.discriminator⟩
        (schema.resolve field.type)

end
end RecordCodec.Direct
