import RecordCodec.Json.Basic
import RecordCodec.Table
import RecordCodec.TypeExpr.Basic

set_option autoImplicit false

/-!
# Schema documents

The declarations of a schema as they are written down. Types are type expressions and settings are
plain texts here; a schema gives them their meaning when it takes a document up.
-/
namespace RecordCodec

namespace Document

structure SkipDecl where
  always : Bool
  ifDefault : Bool
  ifNone : Bool

structure DiscriminatorDecl where
  key : Option String
  autoTag : Option Bool

structure ConfigDecl where
  decodeCasing : Option String
  encodeCasing : Option String
  decodeAliases : Table (List String)
  encodeAliases : Table String
  unknownKeys : Option String
  discriminator : Option DiscriminatorDecl
  omitNone : Option Bool
  omitDefault : Option Bool
  encodeByAlias : Option Bool
  positionalAsMap : Option Bool
  allowAmbiguousUnions : Option Bool
  recursive : Option Bool

structure FieldDecl where
  name : String
  type : String
  /-- A written null is a default; an absent key is none. -/
  default : Option Json := none
  defaultFactory : Option String := none
  aliasKey : Option String := none
  path : Option (List String) := none
  skip : Option SkipDecl := none
  catchAll : Bool := false
  required : Option Bool := none
  discriminator : Option String := none

structure RecordDecl where
  name : String
  kind : RecordKind := .keyword
  fields : List FieldDecl
  tag : Option String := none
  config : Option ConfigDecl := none

structure VariantDecl where
  name : String
  /-- The variant's JSON value; its name stands for it if none is written. -/
  value : Option Json

structure EnumDecl where
  name : String
  variants : List VariantDecl

structure CustomDecl where
  name : String
  base : Option String

end Document

structure Document where
  records : List Document.RecordDecl
  enums : List Document.EnumDecl := []
  custom : List Document.CustomDecl := []

def Document.record? (name : String) (d : Document) : Option Document.RecordDecl :=
  d.records.find? fun r => r.name == name

end RecordCodec
