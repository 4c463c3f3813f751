import RecordCodec.Compile.Compilation
import RecordCodec.Converter.Decode

set_option autoImplicit false

/-!
# Decoders of records

A decoder goes through the fields in order. One that is found in the input is converted, one that
is not gets its default or is noted as missing. After the fields come the keys that no field has
taken, and the record is made only if nothing is missing.
-/
namespace RecordCodec.Compile

open Routine

/-- Where a field may be found in an input. -/
structure Locator where
  path : Option (List String)
  /-- In the order in which they are tried. -/
  keys : List String
  ignoresCase : Bool
  /-- In the array form of a record. -/
  index : Option Nat

namespace Locator

def declaredKeys (config : Config) (field : Field) : List String :=
  let aliases := (config.decodeAliases.get? field.name).getD []
  match field.aliasKey with
  | some key => if aliases.contains key then aliases else aliases ++ [key]
  | none => aliases

/-- The name of a field is a key in the casing of the configuration, unless other keys are
declared. -/
def keysOf (config : Config) (field : Field) : List String :=
  match declaredKeys config field with
  | [] => [config.decodesWith.apply field.name]
  | keys => keys

def ofField (config : Config) (index : Option Nat) (field : Field) : Locator where
  path := field.path
  keys := keysOf config field
  ignoresCase := config.decodesWith == .caseInsensitive
  index := index

def sameIgnoringCase (a b : String) : Bool := Text.lowercase a.toList == Text.lowercase b.toList

/-- The first key that is present as it is, and else the first one up to case. -/
def keyAmong? (present : List String) (l : Locator) : Option String :=
  (l.keys.find? fun key => present.contains key).or
    (if l.ignoresCase then l.keys.findSome? fun key => present.find? (sameIgnoringCase key)
      else none)

def locate (input : Json) (l : Locator) : Option Location :=
  match input with
  | .array items => (l.index.filter fun i => i < items.length).map .index
  | .object _ =>
    match l.path with
    | some path => if (fetchPath path input).isSome then some (.path path) else none
    | none => (l.keyAmong? input.keys).map .key
  | _ => none

end Locator

/-- The key of the input itself that a location takes. -/
def takenKey? : Location → Option String
  | .key key => some key
  | .path keys => keys.head?
  | .index _ => none

namespace Decoder

def expectedForm (record : RecordType) : String :=
  (if record.kind = .positional then "an array or object for \x60" else "an object for \x60") ++
    record.name ++ "\x60"

def checkForm (record : RecordType) (v : Json) : Except Failure Unit :=
  match v with
  | .null => .error (.of (.missingData record.name))
  | .object _ => .ok ()
  | .array items =>
    if record.kind ≠ .positional then .error (.invalid (expectedForm record) v)
    else if record.fields.length < items.length then
      .error (.invalid ("at most " ++ toString record.fields.length ++ " element(s) for \x60" ++
        record.name ++ "\x60") v)
    else .ok ()
  | _ => .error (.invalid (expectedForm record) v)

def checkStep (record : RecordType) : Step Json Instance := .onStore fun _ input _ =>
  Act.ofRun (.ofExcept (checkForm record input))

def locateStep (locator : Locator) (slot : Nat) : Step Json Instance := .onStore fun _ input _ =>
  match locator.locate input with
  | none => pure ()
  | some place => Act.modify fun s =>
    let s := match takenKey? place with
      | some key => s.consume key
      | none => s
    s.set slot (.located place)

def convertStep (c : Converter) (slot : Nat) : Step Json Instance :=
  .onStore fun calls input _ => do
    match ((← Act.store).slot slot).target? input with
    | none => pure ()
    | some v =>
      let converted ← Act.ofRun (c.decode calls v)
      Act.modify (Store.set slot (.typed converted))

def defaultStep (slot : Nat) (v : Instance) : Step Json Instance := .onStore fun _ _ _ =>
  Act.modify (Store.set slot (.typed v))

/-- Converts a declared default as if it stood in the input. -/
def declaredStep (record : RecordType) (field : Field) (c : Converter) (slot : Nat) (raw : Json) :
    Step Json Instance := .onStore fun calls _ _ => do
  let converted ← Act.ofRun ((c.decode calls raw).mapError (Failure.inField record.name field.name))
  Act.modify (Store.set slot (.typed converted))

def missingStep {I O : Type} (field : Field) : Step I O := .onStore fun _ _ _ =>
  Act.modify (Store.markMissing field.name)

def absentOps (record : RecordType) (field : Field) (c : Converter) (slot : Nat) :
    List (Op Json Instance) :=
  match field.default with
  | some (.value v) | some (.fresh v) => [.emit (defaultStep slot v)]
  | some (.declared raw) => [.emit (declaredStep record field c slot raw)]
  | none => if field.isRequired record.kind then [.emit (missingStep field)] else []

def fieldOps (record : RecordType) (config : Config) (field : Field) (c : Converter) (slot : Nat) :
    List (Op Json Instance) :=
  let index := if record.kind = .positional then some slot else none
  [.emit (locateStep (.ofField config index field) slot),
    .opening (.when fun _ l => !l.store.isVacant slot),
    .opening (.guard (Recover.inField record.name field.name)),
    .emit (convertStep c slot),
    .close,
    .otherwise] ++ absentOps record field c slot ++ [.close]

/-- The innermost key is one that no field has taken, and not the discriminator. -/
def isLeftOver (tagKey : Option String) : Cond Json := fun _ l =>
  l.currentKey?.any fun key => !l.store.isConsumed key && tagKey != some key

def gatherStep (slot : Nat) : Step Json Instance := .onStore fun _ input keys =>
  match keys with
  | [] => pure ()
  | key :: _ => Act.modify fun s =>
    match s.slot slot with
    | .dynamic (.object members) =>
      s.set slot (.dynamic (.object (Assoc.insert key ((input.get? key).getD .null) members)))
    | _ => s

def convertGathered (c : Converter) (slot : Nat) : Step Json Instance :=
  .onStore fun calls _ _ => do
    match (← Act.store).slot slot with
    | .dynamic gathered =>
      Act.modify (Store.vacate slot)
      let converted ← Act.ofRun (c.decode calls gathered)
      Act.modify (Store.set slot (.typed converted))
    | _ => Act.modify (Store.vacate slot)

/-- Converts the keys that are left over, put together in an object. -/
def catchAllOps (record : RecordType) (tagKey : Option String) (field : Field) (c : Converter)
    (slot : Nat) : List (Op Json Instance) :=
  [.opening (.guard (Recover.inField record.name field.name)),
    .emit (.onStore fun _ _ _ => Act.modify (Store.set slot (.dynamic (.object [])))),
    .opening (.forEachKey fun input _ => input.keys),
    .opening (.when (isLeftOver tagKey)),
    .emit (gatherStep slot),
    .close,
    .close,
    .emit (convertGathered c slot),
    .close]

def unknownKeyStep (record : RecordType) (policy : UnknownKeys) : Step Json Instance :=
  .onStore fun _ _ keys =>
    match policy with
    | .raise => throw (.of (.unknownKey record.name (keys.head?.getD "")))
    | _ => pure ()

def unknownKeyOps (record : RecordType) (tagKey : Option String) (policy : UnknownKeys) :
    List (Op Json Instance) :=
  [.opening (.forEachKey fun input _ => input.keys),
    .opening (.when (isLeftOver tagKey)),
    .emit (unknownKeyStep record policy),
    .close,
    .close]

def allFieldOps (record : RecordType) (config : Config) :
    Nat → List (Field × Converter) → List (Op Json Instance)
  | _, [] => []
  | slot, (field, c) :: rest =>
    (if field.catchAll then [] else fieldOps record config field c slot) ++
      allFieldOps record config (slot + 1) rest

/-- The catch-all field of a record with its converter and its slot. -/
def catchAll? : Nat → List (Field × Converter) → Option (Field × Converter × Nat)
  | _, [] => none
  | slot, (field, c) :: rest =>
    if field.catchAll then some (field, c, slot) else catchAll? (slot + 1) rest

def leftOverOps (record : RecordType) (config : Config) (fields : List (Field × Converter)) :
    List (Op Json Instance) :=
  let tagKey := tagKeyOf? record config
  match catchAll? 0 fields, config.policy with
  | some (field, c, slot), _ => catchAllOps record tagKey field c slot
  | none, .ignore => []
  | none, policy => unknownKeyOps record tagKey policy

def typedFields (s : Store) : Nat → List Field → List (String × Instance)
  | _, [] => []
  | slot, field :: rest =>
    match s.slot slot with
    | .typed v => (field.name, v) :: typedFields s (slot + 1) rest
    | _ => typedFields s (slot + 1) rest

def finish (record : RecordType) (fields : List Field) : Finish Json Instance := fun _ l =>
  if l.store.missing.isEmpty then .ok (.record record.name (typedFields l.store 0 fields))
  else .error (.of (.missingFields record.name l.store.missing))

/-- Declared defaults are converted beside the input. -/
def reachOf (field : Field) : Nat :=
  match field.default with
  | some (.declared raw) => raw.weight + 1
  | _ => 0

def draft (record : RecordType) (config : Config) (name : String)
    (fields : List (Field × Converter)) : Draft Json Instance where
  name := name
  ops := .emit (checkStep record) ::
    (allFieldOps record config 0 fields ++ leftOverOps record config fields)
  slots := fields.length
  finish := some (finish record (fields.map Prod.fst))
  reach := total (fields.map fun (field, _) => reachOf field)

end Decoder

def Mode.decoding : Mode Json Instance where
  direction := .decode
  fields := fun record _ => record.fields
  draft := Decoder.draft

end RecordCodec.Compile
