import RecordCodec.Document.Basic

set_option autoImplicit false

/-!
# Schema documents as JSON

What a declaration does not set is left out, but for the kind and the fields of a record.
-/
namespace RecordCodec.Document

abbrev Member := Option (String × Json)

def objectOf (members : List Member) : Json := .object (members.filterMap id)

def member (name : String) (v : Json) : Member := some (name, v)

def memberIf (name : String) (present : Bool) (v : Json) : Member :=
  if present then some (name, v) else none

def memberOf {α : Type} (name : String) (toJson : α → Json) (a : Option α) : Member :=
  a.map fun a => (name, toJson a)

def strings (texts : List String) : Json := .array (texts.map .string)

def RecordKind.toJson : RecordKind → Json
  | .keyword => .string "record"
  | .positional => .string "positional"
  | .keyed => .string "keyed"

def SkipDecl.toJson (s : SkipDecl) : Json :=
  objectOf [member "always" (.bool s.always), member "if-default" (.bool s.ifDefault),
    member "if-none" (.bool s.ifNone)]

def DiscriminatorDecl.toJson (d : DiscriminatorDecl) : Json :=
  objectOf [memberOf "key" .string d.key, memberOf "auto-tag" .bool d.autoTag]

def tableToJson {α : Type} (toJson : α → Json) (t : Table α) : Json :=
  .object (t.entries.map fun (name, a) => (name, toJson a))

def ConfigDecl.toJson (c : ConfigDecl) : Json :=
  objectOf [memberOf "decode-casing" .string c.decodeCasing,
    memberOf "encode-casing" .string c.encodeCasing,
    memberIf "decode-aliases" (!c.decodeAliases.isEmpty) (tableToJson strings c.decodeAliases),
    memberIf "encode-aliases" (!c.encodeAliases.isEmpty) (tableToJson .string c.encodeAliases),
    memberOf "unknown-keys" .string c.unknownKeys,
    memberOf "discriminator" DiscriminatorDecl.toJson c.discriminator,
    memberOf "omit-none" .bool c.omitNone, memberOf "omit-default" .bool c.omitDefault,
    memberOf "encode-by-alias" .bool c.encodeByAlias,
    memberOf "positional-as-map" .bool c.positionalAsMap,
    memberOf "allow-ambiguous-unions" .bool c.allowAmbiguousUnions,
    memberOf "recursive" .bool c.recursive]

def FieldDecl.toJson (f : FieldDecl) : Json :=
  objectOf [member "name" (.string f.name), member "type" (.string f.type),
    memberOf "default" id f.default, memberOf "default-factory" .string f.defaultFactory,
    memberOf "alias" .string f.aliasKey, memberOf "path" strings f.path,
    memberOf "skip" SkipDecl.toJson f.skip, memberIf "catch-all" f.catchAll (.bool true),
    memberOf "required" .bool f.required, memberOf "discriminator" .string f.discriminator]

def RecordDecl.toJson (r : RecordDecl) : Json :=
  objectOf [member "name" (.string r.name), member "kind" (RecordKind.toJson r.kind),
    member "fields" (.array (r.fields.map FieldDecl.toJson)), memberOf "tag" .string r.tag,
    memberOf "config" ConfigDecl.toJson r.config]

def VariantDecl.toJson (v : VariantDecl) : Json :=
  objectOf [member "name" (.string v.name), memberOf "value" id v.value]

def EnumDecl.toJson (e : EnumDecl) : Json :=
  objectOf [member "name" (.string e.name),
    member "variants" (.array (e.variants.map VariantDecl.toJson))]

def CustomDecl.toJson (c : CustomDecl) : Json :=
  objectOf [member "name" (.string c.name), memberOf "base" .string c.base]

def toJson (d : Document) : Json :=
  objectOf [
    memberIf "records" (!d.records.isEmpty) (.array (d.records.map RecordDecl.toJson)),
    memberIf "enums" (!d.enums.isEmpty) (.array (d.enums.map EnumDecl.toJson)),
    memberIf "custom" (!d.custom.isEmpty) (.array (d.custom.map CustomDecl.toJson))]

end RecordCodec.Document
