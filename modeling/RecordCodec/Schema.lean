import RecordCodec.Config
import RecordCodec.Instance
import RecordCodec.Routine.Run
import RecordCodec.TypeExpr.Parser
import RecordCodec.TypeExpr.Printer

set_option autoImplicit false

/-!
# Schemas

A schema declares records, enumerations and custom scalars, each under a name of its own that is
not a primitive's either. A declaration is checked when it is added; a name that a type mentions is
looked up only when the type is resolved.
-/
namespace RecordCodec

inductive FieldDefault where
  | value (v : Instance)
  /-- Made anew each time the field is absent. -/
  | fresh (v : Instance)
  /-- Decoded as the field itself is. -/
  | declared (v : Json)

/-- When an encoder leaves a field out: any condition that holds is enough. -/
structure SkipRule where
  always : Bool := false
  ifDefault : Bool := false
  ifNone : Bool := false
  when? : Option (Instance → Bool) := none

namespace SkipRule

def isAny (s : SkipRule) : Bool := s.always || s.ifDefault || s.ifNone || s.when?.isSome

def summary (s : SkipRule) : String :=
  let condition := if s.when?.isSome then "Some(\"..\")" else "None"
  "SkipRule \x7b always: " ++ toString s.always ++ ", if_default: " ++ toString s.ifDefault ++
    ", if_none: " ++ toString s.ifNone ++ ", when: " ++ condition ++ " \x7d"

end SkipRule

structure Field where
  name : String
  type : TypeExpr
  default : Option FieldDefault := none
  aliasKey : Option String := none
  /-- A place inside nested objects, outermost key first. -/
  path : Option (List String) := none
  skip : SkipRule := {}
  /-- Holds the keys that belong to no other field. -/
  catchAll : Bool := false
  /-- Of a keyed record; a key is required unless it says otherwise. -/
  required : Option Bool := none
  /-- The discriminator key of a union in this field. -/
  discriminator : Option String := none

def Field.isRequired (kind : RecordKind) (f : Field) : Bool :=
  if f.catchAll || f.default.isSome then false
  else match kind with
    | .keyed => f.required.getD true
    | _ => true

structure RecordType where
  name : String
  kind : RecordKind := .keyword
  fields : List Field := []
  /-- The discriminator value of the record as an arm of a union. -/
  tag : Option String := none
  config : Option Config := none

namespace RecordType

def field? (name : String) (r : RecordType) : Option Field := r.fields.find? fun f => f.name == name

def catchAll? (r : RecordType) : Option Field := r.fields.find? Field.catchAll

def ownConfig (r : RecordType) : Config := r.config.getD {}

def tagUnder (config : Config) (r : RecordType) : Option String :=
  match r.tag with
  | some tag => some tag
  | none => if config.autoTags then some r.name else none

def checkConfig (config : Config) (r : RecordType) : Except Failure Unit :=
  config.check r.name (r.fields.map Field.name)

def refuse {α : Type} (record reason : String) : Except Failure α :=
  .error (.of (.invalidSchema record reason))

/-- Field names are distinct and no path has an empty part. -/
def checkFields (record : String) : List String → List Field → Except Failure Unit
  | _, [] => .ok ()
  | seen, f :: rest =>
    if seen.contains f.name then
      refuse record ("field \x60" ++ f.name ++ "\x60 is declared twice")
    else if f.path.any fun path => path.isEmpty || path.any String.isEmpty then
      refuse record ("field \x60" ++ f.name ++ "\x60 has an empty path")
    else checkFields record (f.name :: seen) rest

/-- There is at most one catch-all field, and it is a mapping at the top level. -/
def checkCatchAll (r : RecordType) : Except Failure Unit :=
  match r.fields.filter Field.catchAll with
  | [] => .ok ()
  | [f] =>
    if r.kind = .positional then
      refuse r.name "positional records cannot have a catch-all field"
    else if f.type.shape.kind ≠ .mapping ∧ f.type.shape.kind ≠ .defaultMapping then
      refuse r.name ("catch-all field \x60" ++ f.name ++ "\x60 must be a mapping, not \x60" ++
        f.type.text ++ "\x60")
    else if f.path.isSome then
      refuse r.name ("catch-all field \x60" ++ f.name ++ "\x60 cannot have a path")
    else .ok ()
  | _ => refuse r.name "more than one catch-all field"

def check (r : RecordType) : Except Failure Unit := do
  checkFields r.name [] r.fields
  r.checkCatchAll
  match r.config with
  | some config => r.checkConfig config
  | none => .ok ()

end RecordType

structure EnumType where
  name : String
  /-- Variants with the JSON values that stand for them, in order. -/
  variants : List (String × Json)

namespace EnumType

def variantOfValue? (v : Json) (e : EnumType) : Option String :=
  (e.variants.find? fun (_, value) => value.same v).map Prod.fst

def valueOf? (variant : String) (e : EnumType) : Option Json := Assoc.get? variant e.variants

end EnumType

structure Schema where
  records : Table RecordType := .empty
  enums : Table EnumType := .empty
  /-- Custom scalars with the types that they are based on. -/
  customs : Table (Option String) := .empty

namespace Schema

open Routine (Run)

def record? (name : String) (s : Schema) : Option RecordType := s.records.get? name

def enum? (name : String) (s : Schema) : Option EnumType := s.enums.get? name

def findRecord (name : String) (s : Schema) : Except Failure RecordType :=
  match s.record? name with
  | some r => .ok r
  | none => .error (.of (.unknownType name))

def isTaken (name : String) (s : Schema) : Bool :=
  s.records.contains name || s.enums.contains name || s.customs.contains name ||
    (Primitive.ofName? name).isSome

def checkFree (name : String) (s : Schema) : Except Failure Unit :=
  if s.isTaken name then RecordType.refuse name "type name is already declared" else .ok ()

def addRecord (r : RecordType) (s : Schema) : Except Failure Schema := do
  s.checkFree r.name
  r.check
  .ok { s with records := s.records.insert r.name r }

def addEnum (e : EnumType) (s : Schema) : Except Failure Schema := do
  s.checkFree e.name
  if e.variants.isEmpty then RecordType.refuse e.name "enum has no variants"
  .ok { s with enums := s.enums.insert e.name e }

def addCustom (name : String) (base : Option String) (s : Schema) : Except Failure Schema := do
  s.checkFree name
  .ok { s with customs := s.customs.insert name base }

def base? (name : String) (s : Schema) : Option String := (s.customs.get? name).bind id

def canonicalName (name : String) : String :=
  match Primitive.ofName? name with
  | some p => p.name
  | none => name

/-- Bases of bases, up to the first that was seen before. Each step takes another custom type, so
their number is fuel enough. -/
def ancestorsFrom (s : Schema) : Nat → List String → String → List String
  | 0, _, _ => []
  | fuel + 1, seen, name =>
    match s.base? name with
    | none => []
    | some base =>
      let base := canonicalName base
      if seen.contains base then [] else base :: ancestorsFrom s fuel (base :: seen) base

def ancestors (name : String) (s : Schema) : List String :=
  s.ancestorsFrom s.customs.entries.length [name] name

/-- The shape that a name is declared to have; an undeclared name stays a name. -/
def classify (s : Schema) (name : String) : Shape :=
  match s.record? name with
  | some r => .record r.kind name
  | none =>
    if s.enums.contains name then .enumeration name
    else if s.customs.contains name then .custom name
    else .named name

def resolveShape (s : Schema) : Shape → Shape
  | .named name => s.classify name
  | shape => shape

def resolve (s : Schema) (ty : TypeExpr) : TypeExpr := ty.mapShapes s.resolveShape

def namedFactory? : String → Option Instance
  | "list" => some (.seq [])
  | "set" | "frozenset" => some (.set [])
  | "dict" => some (.map [])
  | "tuple" => some (.tuple [])
  | "str" => some (.str "")
  | "int" => some (.int 0)
  | "float" => some (.float (.finite (Binary64.zero false)))
  | "bool" => some (.bool false)
  | _ => none

def defaultOfDecl (record : String) (decl : Document.FieldDecl) :
    Except Failure (Option FieldDefault) :=
  match decl.default, decl.defaultFactory with
  | some _, some _ =>
    RecordType.refuse record
      ("field \x60" ++ decl.name ++ "\x60 has both a default and a default factory")
  | some v, none => .ok (some (.declared v))
  | none, some factory =>
    match namedFactory? factory with
    | some v => .ok (some (.fresh v))
    | none => RecordType.refuse record ("unknown default factory \x60" ++ factory ++ "\x60")
  | none, none => .ok none

def typeOfDecl (record : String) (decl : Document.FieldDecl) : Run TypeExpr :=
  match TypeExpr.parse decl.type with
  | some (.ok type) => pure type
  | some (.error e) =>
    .ofExcept (RecordType.refuse record ("field \x60" ++ decl.name ++ "\x60: " ++ e.message))
  | none => ExceptT.mk none

def fieldOfDecl (record : String) (decl : Document.FieldDecl) : Run Field := do
  let type ← typeOfDecl record decl
  let default ← .ofExcept (defaultOfDecl record decl)
  let skip : SkipRule := match decl.skip with
    | some skip => { always := skip.always, ifDefault := skip.ifDefault, ifNone := skip.ifNone }
    | none => {}
  pure { name := decl.name, type, default, aliasKey := decl.aliasKey, path := decl.path, skip
         catchAll := decl.catchAll, required := decl.required
         discriminator := decl.discriminator }

def recordOfDecl (decl : Document.RecordDecl) : Run RecordType := do
  let config ← .ofExcept <| match decl.config with
    | some config => (Config.ofDecl decl.name config).map some
    | none => .ok none
  let fields ← decl.fields.mapM (fieldOfDecl decl.name)
  pure { name := decl.name, kind := decl.kind, fields, tag := decl.tag, config }

def enumOfDecl (decl : Document.EnumDecl) : EnumType :=
  { name := decl.name
    variants := decl.variants.map fun v => (v.name, v.value.getD (.string v.name)) }

/-- The schema of a document: its enumerations, custom scalars and records, in this order. -/
def ofDocument (d : Document) : Run Schema := do
  let s ← d.enums.foldlM (fun s decl => .ofExcept (s.addEnum (enumOfDecl decl))) ({} : Schema)
  let s ← d.custom.foldlM (fun s decl => .ofExcept (s.addCustom decl.name decl.base)) s
  d.records.foldlM (fun s decl => do .ofExcept (s.addRecord (← recordOfDecl decl))) s

end Schema
end RecordCodec
