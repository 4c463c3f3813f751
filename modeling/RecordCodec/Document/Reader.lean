import RecordCodec.Document.Basic
import RecordCodec.Json.Reader

set_option autoImplicit false

/-!
# Reading schema documents

A declaration is an object with known keys, each at most once, or the array of their values in
order. Unknown keys are passed over. Each reader is told how much deeper the text may nest.
-/
namespace RecordCodec.Document

open Json (Written)

abbrev Reader (α : Type) := Nat → Written → Option α

def string : Reader String
  | _, .string s => s
  | _, _ => none

def bool : Reader Bool
  | _, .bool b => some b
  | _, _ => none

def value : Reader Json := fun room w => w.settle room

def readAll {α : Type} (read : Reader α) (room : Nat) : List Written → Option (List α)
  | [] => some []
  | w :: rest => do
    let a ← read room w
    let as ← readAll read room rest
    some (a :: as)

def listOf {α : Type} (read : Reader α) : Reader (List α)
  | room + 1, .array items => readAll read room items
  | _, _ => none

def readMembers {α : Type} (read : Reader α) (room : Nat) :
    List (Option String × Written) → Option (List (String × α))
  | [] => some []
  | (key, w) :: rest => do
    let k ← key
    let a ← read room w
    let as ← readMembers read room rest
    some ((k, a) :: as)

/-- A table written as an object; of a repeated name the last value counts. -/
def tableOf {α : Type} (read : Reader α) : Reader (Table α)
  | room + 1, .object members => (readMembers read room members).map Table.ofList
  | _, _ => none

/-- What is written under a key, if it is written at most once. -/
def memberOnce (name : String) (members : List (Option String × Written)) :
    Option (Option Written) :=
  match members.filter fun (key, _) => key == some name with
  | [] => some none
  | [(_, w)] => some (some w)
  | _ => none

def parts (names : List String) : Nat → Written → Option (Nat × List (Option Written))
  | room + 1, .object members =>
    if members.all fun (key, _) => key.isSome then
      (names.mapM fun name => memberOnce name members).map fun found => (room, found)
    else none
  | room + 1, .array items =>
    if items.length ≤ names.length then
      some (room, items.map some ++ List.replicate (names.length - items.length) none)
    else none
  | _, _ => none

def needed {α : Type} (read : Reader α) (room : Nat) (part : Option Written) : Option α :=
  part.bind (read room)

def orElse {α : Type} (default : α) (read : Reader α) (room : Nat) : Option Written → Option α
  | none => some default
  | some w => read room w

/-- An absent part and a written null both stand for nothing. -/
def optional {α : Type} (read : Reader α) (room : Nat) : Option Written → Option (Option α)
  | none | some .null => some none
  | some w => (read room w).map some

/-- An absent part stands for nothing, a written null for itself. -/
def present (room : Nat) : Option Written → Option (Option Json)
  | none => some none
  | some w => (w.settle room).map some

def recordKindNames : List (String × RecordKind) :=
  [("record", .keyword), ("positional", .positional), ("keyed", .keyed)]

/-- The name of a kind, or an object that holds null under the name. -/
def recordKind : Reader RecordKind
  | _, .string (some name) => Assoc.get? name recordKindNames
  | _ + 1, .object [(some name, .null)] => Assoc.get? name recordKindNames
  | _, _ => none

def skipDecl : Reader SkipDecl := fun room w => do
  let (room, found) ← parts ["always", "if-default", "if-none"] room w
  match found with
  | [always, ifDefault, ifNone] =>
    let always ← orElse false bool room always
    let ifDefault ← orElse false bool room ifDefault
    let ifNone ← orElse false bool room ifNone
    some { always, ifDefault, ifNone }
  | _ => none

def discriminatorDecl : Reader DiscriminatorDecl := fun room w => do
  let (room, found) ← parts ["key", "auto-tag"] room w
  match found with
  | [key, autoTag] =>
    let key ← optional string room key
    let autoTag ← optional bool room autoTag
    some { key, autoTag }
  | _ => none

def configNames : List String :=
  ["decode-casing", "encode-casing", "decode-aliases", "encode-aliases", "unknown-keys",
    "discriminator", "omit-none", "omit-default", "encode-by-alias", "positional-as-map",
    "allow-ambiguous-unions", "recursive"]

def configDecl : Reader ConfigDecl := fun room w => do
  let (room, found) ← parts configNames room w
  match found with
  | [decodeCasing, encodeCasing, decodeAliases, encodeAliases, unknownKeys, discriminator,
      omitNone, omitDefault, encodeByAlias, positionalAsMap, allowAmbiguousUnions, recursive] =>
    let decodeCasing ← optional string room decodeCasing
    let encodeCasing ← optional string room encodeCasing
    let decodeAliases ← orElse .empty (tableOf (listOf string)) room decodeAliases
    let encodeAliases ← orElse .empty (tableOf string) room encodeAliases
    let unknownKeys ← optional string room unknownKeys
    let discriminator ← optional discriminatorDecl room discriminator
    let omitNone ← optional bool room omitNone
    let omitDefault ← optional bool room omitDefault
    let encodeByAlias ← optional bool room encodeByAlias
    let positionalAsMap ← optional bool room positionalAsMap
    let allowAmbiguousUnions ← optional bool room allowAmbiguousUnions
    let recursive ← optional bool room recursive
    some { decodeCasing, encodeCasing, decodeAliases, encodeAliases, unknownKeys, discriminator,
           omitNone, omitDefault, encodeByAlias, positionalAsMap, allowAmbiguousUnions,
           recursive }
  | _ => none

def fieldNames : List String :=
  ["name", "type", "default", "default-factory", "alias", "path", "skip", "catch-all",
    "required", "discriminator"]

def fieldDecl : Reader FieldDecl := fun room w => do
  let (room, found) ← parts fieldNames room w
  match found with
  | [name, type, default, defaultFactory, aliasKey, path, skip, catchAll, required,
      discriminator] =>
    let name ← needed string room name
    let type ← needed string room type
    let default ← present room default
    let defaultFactory ← optional string room defaultFactory
    let aliasKey ← optional string room aliasKey
    let path ← optional (listOf string) room path
    let skip ← optional skipDecl room skip
    let catchAll ← orElse false bool room catchAll
    let required ← optional bool room required
    let discriminator ← optional string room discriminator
    some { name, type, default, defaultFactory, aliasKey, path, skip, catchAll, required,
           discriminator }
  | _ => none

def recordDecl : Reader RecordDecl := fun room w => do
  let (room, found) ← parts ["name", "kind", "fields", "tag", "config"] room w
  match found with
  | [name, kind, fields, tag, config] =>
    let name ← needed string room name
    let kind ← orElse .keyword recordKind room kind
    let fields ← orElse [] (listOf fieldDecl) room fields
    let tag ← optional string room tag
    let config ← optional configDecl room config
    some { name, kind, fields, tag, config }
  | _ => none

def variantDecl : Reader VariantDecl := fun room w => do
  let (room, found) ← parts ["name", "value"] room w
  match found with
  | [name, value] =>
    let name ← needed string room name
    let value ← present room value
    some { name, value }
  | _ => none

def enumDecl : Reader EnumDecl := fun room w => do
  let (room, found) ← parts ["name", "variants"] room w
  match found with
  | [name, variants] =>
    let name ← needed string room name
    let variants ← needed (listOf variantDecl) room variants
    some { name, variants }
  | _ => none

def customDecl : Reader CustomDecl := fun room w => do
  let (room, found) ← parts ["name", "base"] room w
  match found with
  | [name, base] =>
    let name ← needed string room name
    let base ← optional string room base
    some { name, base }
  | _ => none

def document : Reader Document := fun room w => do
  let (room, found) ← parts ["records", "enums", "custom"] room w
  match found with
  | [records, enums, custom] =>
    let records ← orElse [] (listOf recordDecl) room records
    let enums ← orElse [] (listOf enumDecl) room enums
    let custom ← orElse [] (listOf customDecl) room custom
    some { records, enums, custom }
  | _ => none

def read (text : String) : Except Json.Fault Document := do
  let tree ← Written.read text
  match document Json.nestingLimit tree with
  | some d => .ok d
  | none => .error []

def ofJson? (v : Json) : Option Document := document Json.nestingLimit v.toWritten

def ConfigDecl.ofJson? (v : Json) : Option ConfigDecl := configDecl Json.nestingLimit v.toWritten

end RecordCodec.Document
