import RecordCodec.Compile.Compilation
import RecordCodec.Converter.Encode

set_option autoImplicit false

/-!
# Encoders of records

An encoder builds its output in one slot. An object takes the tag first, then the fields that no
rule leaves out, in order, and last the entries of the catch-all field under keys that are still
free. The array form of a record has a place for every field.
-/
namespace RecordCodec.Compile

open Routine

/-- Where a field is written in an object. -/
inductive Target where
  | key (key : String)
  | path (keys : List String)

namespace Target

def ofField (config : Config) (field : Field) : Target :=
  match field.path, config.encodeAliases.get? field.name, field.aliasKey with
  | some keys, _, _ => path keys
  | none, some k, _ => key k
  | none, none, some aliasKey =>
    if config.encodesByAlias then key aliasKey else key (config.encodesWith.apply field.name)
  | none, none, none => key (config.encodesWith.apply field.name)

def membersOf : Option Json → List (String × Json)
  | some (.object members) => members
  | _ => []

/-- Writes at a path; what is no object on the way becomes one. -/
def writePath (v : Json) : List String → List (String × Json) → List (String × Json)
  | [], members => members
  | [last], members => Assoc.insert last v members
  | first :: rest, members =>
    Assoc.insert first (.object (writePath v rest (membersOf (Assoc.get? first members)))) members

def write (v : Json) (members : List (String × Json)) : Target → List (String × Json)
  | key k => Assoc.insert k v members
  | path keys => writePath v keys members

end Target

/-- The rules by which a field is left out. -/
structure Omission where
  ifNone : Bool
  ifDefault : Bool
  default : Option FieldDefault
  when? : Option (Instance → Bool)

namespace Omission

def ofField (config : Config) (field : Field) : Omission where
  ifNone := field.skip.ifNone || config.omitsNone
  ifDefault := field.skip.ifDefault || config.omitsDefault
  default := field.default
  when? := field.skip.when?

def isDefault (v : Instance) : Option FieldDefault → Bool
  | some (.value d) | some (.fresh d) => v.same d
  | _ => false

/-- What the instance alone decides. -/
def omits (v : Instance) (o : Omission) : Bool :=
  (o.ifNone && v.isNull) || (o.ifDefault && isDefault v o.default) || o.when?.any fun p => p v

/-- A declared default is compared with the encoded value. -/
def omitsEncoded (v : Json) (o : Omission) : Bool :=
  match o.default with
  | some (.declared raw) => o.ifDefault && raw.same v
  | _ => false

end Omission

namespace Encoder

def output : Nat := 0

/-- Records of this kind are written as arrays under the configuration. -/
def inArrayForm (record : RecordType) (config : Config) : Bool :=
  record.kind == .positional && !config.encodesPositionalAsMap

def checkType (record : RecordType) (v : Instance) : Except Failure Unit :=
  let refuse : Except Failure Unit :=
    .error (.invalid ("a \x60" ++ record.name ++ "\x60 record") v.toJson)
  match v with
  | .record type _ => if type = record.name then .ok () else refuse
  | _ => refuse

def startStep (record : RecordType) (config : Config) : Step Instance Json :=
  .onStore fun _ input _ => do
    Act.ofRun (.ofExcept (checkType record input))
    let start : Json := if inArrayForm record config then .array [] else .object []
    Act.modify (Store.set output (.dynamic start))

def onMembers (f : List (String × Json) → List (String × Json)) (s : Store) : Store :=
  match s.slot output with
  | .dynamic (.object members) => s.set output (.dynamic (.object (f members)))
  | _ => s

def onElements (v : Json) (s : Store) : Store :=
  match s.slot output with
  | .dynamic (.array items) => s.set output (.dynamic (.array (items ++ [v])))
  | _ => s

/-- Only under a configured discriminator key a record writes its tag. -/
def tagOps (record : RecordType) (config : Config) : List (Op Instance Json) :=
  match inArrayForm record config, config.tagKey?, record.tagUnder config with
  | false, some key, some tag =>
    [.emit (.onStore fun _ _ _ => Act.modify (onMembers (Assoc.insert key (.string tag))))]
  | _, _, _ => []

def missingStep (field : Field) : Step Instance Json := .onStore fun _ input _ =>
  if (input.field? field.name).isNone then Act.modify (Store.markMissing field.name) else pure ()

def missingOps (record : RecordType) (field : Field) : List (Op Instance Json) :=
  if field.isRequired record.kind then [.emit (missingStep field)] else []

def memberStep (omission : Omission) (target : Target) (field : Field) (c : Converter) :
    Step Instance Json := .onStore fun calls input _ =>
  match input.field? field.name with
  | none => pure ()
  | some v => do
    let encoded ← Act.ofRun (c.encode calls v)
    if omission.omitsEncoded encoded then pure ()
    else Act.modify (onMembers fun members => target.write encoded members)

def memberOps (record : RecordType) (config : Config) (field : Field) (c : Converter) :
    List (Op Instance Json) :=
  let omission := Omission.ofField config field
  missingOps record field ++
    [.opening (.when fun input _ => (input.field? field.name).any fun v => !omission.omits v),
      .opening (.guard (Recover.inField record.name field.name)),
      .emit (memberStep omission (.ofField config field) field c),
      .close,
      .close]

/-- The element for a field that the instance does not have. -/
def encodeDefault (encode : Instance → Run Json) : Option FieldDefault → Run Json
  | some (.value v) | some (.fresh v) => encode v
  | some (.declared raw) => pure raw
  | none => pure .null

def elementStep (field : Field) (c : Converter) : Step Instance Json :=
  .onStore fun calls input _ => do
    let encoded ← Act.ofRun <|
      match input.field? field.name with
      | some v => c.encode calls v
      | none => encodeDefault (c.encode calls) field.default
    Act.modify (onElements encoded)

def elementOps (record : RecordType) (field : Field) (c : Converter) : List (Op Instance Json) :=
  missingOps record field ++
    [.opening (.guard (Recover.inField record.name field.name)),
      .emit (elementStep field c),
      .close]

/-- Adds members under the keys that are still free. -/
def addFree (extra members : List (String × Json)) : List (String × Json) :=
  extra.foldl (fun acc (key, v) => if Assoc.contains key acc then acc else acc ++ [(key, v)])
    members

def splatStep (field : Field) (c : Converter) : Step Instance Json := .onStore fun calls input _ =>
  match input.field? field.name with
  | none => pure ()
  | some v => do
    match ← Act.ofRun (c.encode calls v) with
    | .object extra => Act.modify (onMembers (addFree extra))
    | _ => throw (.invalid "a mapping" v.toJson)

def splatOps (record : RecordType) (fields : List (Field × Converter)) : List (Op Instance Json) :=
  match fields.find? fun (field, _) => field.catchAll with
  | some (field, c) =>
    [.opening (.guard (Recover.inField record.name field.name)),
      .emit (splatStep field c),
      .close]
  | none => []

def fieldOps (record : RecordType) (config : Config) (field : Field) (c : Converter) :
    List (Op Instance Json) :=
  if field.catchAll then []
  else if inArrayForm record config then elementOps record field c
  else memberOps record config field c

def finish (record : RecordType) (name : String) : Finish Instance Json := fun _ l =>
  if l.store.missing.isEmpty then
    match l.store.slot output with
    | .dynamic v => .ok v
    | _ => .error (malformed name .noOutput)
  else .error (.of (.missingFields record.name l.store.missing))

/-- Defaults of absent fields are encoded beside the input. -/
def reachOf (field : Field) : Nat :=
  match field.default with
  | some (.value v) | some (.fresh v) => v.depth + 1
  | _ => 0

def draft (record : RecordType) (config : Config) (name : String)
    (fields : List (Field × Converter)) : Draft Instance Json where
  name := name
  ops := .emit (startStep record config) ::
    (tagOps record config ++ (fields.flatMap fun (field, c) => fieldOps record config field c) ++
      splatOps record fields)
  slots := 1
  finish := some (finish record name)
  reach := total (fields.map fun (field, _) => reachOf field)

/-- An object leaves out the fields that are always skipped. -/
def fields (record : RecordType) (config : Config) : List Field :=
  record.fields.filter fun field => inArrayForm record config || !field.skip.always

end Encoder

def Mode.encoding : Mode Instance Json where
  direction := .encode
  fields := Encoder.fields
  draft := Encoder.draft

end RecordCodec.Compile
