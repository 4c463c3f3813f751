import RecordCodec.Schema

set_option autoImplicit false

/-!
# Handlers and their registry

A handler says how types are compiled. One is looked up by the name of the type first, then by its
shape, and for a type that has neither, in the same way for each of its bases.
-/
namespace RecordCodec

inductive Handler where
  | scalar (p : Primitive)
  | optional | sequence | set | fixedTuple | variadicTuple | mapping | defaultMapping | literal
  | enumeration | union | record
  /-- A pair of functions for a scalar type. -/
  | custom (decode : Json → Except Failure Instance) (encode : Instance → Except Failure Json)

inductive HandlerKey where
  | type (name : String)
  | shape (kind : ShapeKind)
deriving DecidableEq

def HandlerKey.text : HandlerKey → String
  | type name => name
  | shape kind => "<" ++ kind.name ++ ">"

structure Registry where
  handlers : List (HandlerKey × Handler) := []

namespace Registry

def register (key : HandlerKey) (handler : Handler) (r : Registry) : Registry :=
  { handlers := Assoc.insert key handler r.handlers }

def get? (key : HandlerKey) (r : Registry) : Option Handler := Assoc.get? key r.handlers

def size (r : Registry) : Nat := r.handlers.length

def shapeHandlers : List (ShapeKind × Handler) :=
  [(.sequence, .sequence), (.set, .set), (.fixedTuple, .fixedTuple),
    (.variadicTuple, .variadicTuple), (.mapping, .mapping), (.defaultMapping, .defaultMapping),
    (.optional, .optional), (.literal, .literal), (.enumeration, .enumeration), (.union, .union),
    (.record .keyword, .record), (.record .positional, .record), (.record .keyed, .record)]

/-- A handler for every primitive and for every shape of declared and generic types. -/
def builtin : Registry where
  handlers :=
    (Primitive.all.map fun p => (.type p.name, .scalar p)) ++
      shapeHandlers.map fun (kind, handler) => (.shape kind, handler)

def lookup? (ty : TypeExpr) (r : Registry) : Option Handler :=
  (ty.shape.typeName?.bind fun name => r.get? (.type name)).or (r.get? (.shape ty.shape.kind))

/-- The type that an ancestor of a custom type stands for. -/
def ancestorType (schema : Schema) (name : String) : TypeExpr :=
  match Primitive.ofName? name with
  | some p => .primitive p
  | none => schema.resolve (.named name)

def inherited? (schema : Schema) (r : Registry) : List String → Option (Handler × TypeExpr)
  | [] => none
  | name :: rest =>
    let ty := ancestorType schema name
    match r.lookup? ty with
    | some handler => some (handler, ty)
    | none => inherited? schema r rest

/-- The handler of a resolved type, with the type that it is to compile. -/
def resolve (schema : Schema) (ty : TypeExpr) (r : Registry) :
    Except Failure (Handler × TypeExpr) :=
  match r.lookup? ty with
  | some handler => .ok (handler, ty)
  | none =>
    match ty.shape with
    | .custom name =>
      match r.inherited? schema (schema.ancestors name) with
      | some found => .ok found
      | none => .error (.of (.unsupportedType ty.text))
    | .named name =>
      match r.inherited? schema (schema.ancestors name) with
      | some found => .ok found
      | none => .error (.of (.unknownType name))
    | _ => .error (.of (.unsupportedType ty.text))

def keyTexts (r : Registry) : List String :=
  (r.handlers.map fun (key, _) => key.text).mergeSort fun a b => a ≤ b

def summary (r : Registry) : String :=
  "DispatchRegistry \x7b handlers: " ++ Text.quotedList r.keyTexts ++ " \x7d"

end Registry
end RecordCodec
