import RecordCodec.Json.Basic

set_option autoImplicit false

/-!
# Type expressions

A type is a shape with the types it is applied to. Containers take their item types as arguments,
a literal type lists its values, and a declared type is known by its name: `named` before a schema
has said what the name stands for, and one of the other named shapes after that.
-/
namespace RecordCodec

inductive Primitive where
  | null | bool | int | float | str | bytes | date | time | dateTime | duration | any
deriving DecidableEq, Inhabited

namespace Primitive

def all : List Primitive :=
  [null, bool, int, float, str, bytes, date, time, dateTime, duration, any]

def name : Primitive → String
  | null => "None"
  | bool => "bool"
  | int => "int"
  | float => "float"
  | str => "str"
  | bytes => "bytes"
  | date => "date"
  | time => "time"
  | dateTime => "datetime"
  | duration => "timedelta"
  | any => "Any"

/-- Every accepted spelling of a primitive. -/
def spellings : List (String × Primitive) :=
  [("None", null), ("NoneType", null), ("bool", bool), ("int", int), ("float", float),
    ("str", str), ("bytes", bytes), ("bytearray", bytes), ("date", date), ("time", time),
    ("datetime", dateTime), ("timedelta", duration), ("duration", duration), ("Any", any),
    ("object", any)]

def ofName? (name : String) : Option Primitive := Assoc.get? name spellings

end Primitive

/-- How a record is built and written: by keyword, in a fixed order of fields, or by keys of which
some are optional. -/
inductive RecordKind where
  | keyword | positional | keyed
deriving DecidableEq, Inhabited

inductive ShapeKind where
  | primitive | optional | union | sequence | set | mapping | defaultMapping | fixedTuple
  | variadicTuple | literal | enumeration | record (kind : RecordKind) | custom | named
deriving DecidableEq, Inhabited

namespace ShapeKind

def all : List ShapeKind :=
  [primitive, optional, union, sequence, set, mapping, defaultMapping, fixedTuple, variadicTuple,
    literal, enumeration, record .positional, record .keyed, record .keyword, custom, named]

def name : ShapeKind → String
  | primitive => "primitive"
  | optional => "optional"
  | union => "union"
  | sequence => "sequence"
  | set => "set"
  | mapping => "mapping"
  | defaultMapping => "default-mapping"
  | fixedTuple => "fixed-tuple"
  | variadicTuple => "variadic-tuple"
  | literal => "literal"
  | enumeration => "enum"
  | record .positional => "positional-record"
  | record .keyed => "keyed-record"
  | record .keyword => "record"
  | custom => "custom"
  | named => "named"

def ofName? (name : String) : Option ShapeKind := all.find? fun kind => kind.name == name

end ShapeKind

inductive Shape where
  | primitive (p : Primitive)
  | optional | union | sequence | set | mapping | defaultMapping | fixedTuple | variadicTuple
  | literal
  | enumeration (name : String)
  | record (kind : RecordKind) (name : String)
  | custom (name : String)
  | named (name : String)
deriving DecidableEq, Inhabited

namespace Shape

def kind : Shape → ShapeKind
  | primitive _ => .primitive
  | optional => .optional
  | union => .union
  | sequence => .sequence
  | set => .set
  | mapping => .mapping
  | defaultMapping => .defaultMapping
  | fixedTuple => .fixedTuple
  | variadicTuple => .variadicTuple
  | literal => .literal
  | enumeration _ => .enumeration
  | record kind _ => .record kind
  | custom _ => .custom
  | named _ => .named

def declaredName? : Shape → Option String
  | enumeration name | record _ name | custom name | named name => some name
  | _ => none

/-- The name of the one type that this shape stands for, declared or primitive. -/
def typeName? : Shape → Option String
  | primitive p => some p.name
  | shape => shape.declaredName?

def of? (kind : ShapeKind) (name : Option String) : Option Shape :=
  match kind with
  | .primitive => (name.bind Primitive.ofName?).map primitive
  | .optional => some optional
  | .union => some union
  | .sequence => some sequence
  | .set => some set
  | .mapping => some mapping
  | .defaultMapping => some defaultMapping
  | .fixedTuple => some fixedTuple
  | .variadicTuple => some variadicTuple
  | .literal => some literal
  | .enumeration => name.map enumeration
  | .record kind => name.map (record kind)
  | .custom => name.map custom
  | .named => name.map named

def recordName? : Shape → Option String
  | record _ name => some name
  | _ => none

end Shape

structure TypeExpr where
  shape : Shape
  args : List TypeExpr
  literals : List Json
deriving Inhabited

namespace TypeExpr

def apply (shape : Shape) (args : List TypeExpr) : TypeExpr := ⟨shape, args, []⟩

def primitive (p : Primitive) : TypeExpr := apply (.primitive p) []

def any : TypeExpr := primitive .any

def null : TypeExpr := primitive .null

def named (name : String) : TypeExpr := apply (.named name) []

def optional (inner : TypeExpr) : TypeExpr := apply .optional [inner]

def union (arms : List TypeExpr) : TypeExpr := apply .union arms

def sequence (item : TypeExpr) : TypeExpr := apply .sequence [item]

def tuple (items : List TypeExpr) : TypeExpr := apply .fixedTuple items

def variadic (item : TypeExpr) : TypeExpr := apply .variadicTuple [item]

def literal (values : List Json) : TypeExpr := ⟨.literal, [], values⟩

/-- The argument at a position; one that is not given stands for any value. -/
def arg (ty : TypeExpr) (index : Nat) : TypeExpr := ty.args[index]?.getD any

def isNull (ty : TypeExpr) : Bool := ty.shape == .primitive .null

mutual
/-- Equality of types, with literals compared as JSON values. -/
def same : TypeExpr → TypeExpr → Bool
  | ⟨shape, args, literals⟩, other =>
    shape == other.shape && sameAll args other.args &&
      Json.sameItems literals other.literals
def sameAll : List TypeExpr → List TypeExpr → Bool
  | [], [] => true
  | a :: as, b :: bs => same a b && sameAll as bs
  | _, _ => false
end

mutual
def acceptsNull : TypeExpr → Bool
  | ⟨.optional, _, _⟩ => true
  | ⟨.primitive .null, _, _⟩ => true
  | ⟨.primitive .any, _, _⟩ => true
  | ⟨.union, args, _⟩ => anyAcceptsNull args
  | ⟨.literal, _, literals⟩ => literals.any Json.isNull
  | _ => false
def anyAcceptsNull : List TypeExpr → Bool
  | [] => false
  | ty :: rest => acceptsNull ty || anyAcceptsNull rest
end

mutual
def mapShapes (f : Shape → Shape) : TypeExpr → TypeExpr
  | ⟨shape, args, literals⟩ => ⟨f shape, mapAllShapes f args, literals⟩
def mapAllShapes (f : Shape → Shape) : List TypeExpr → List TypeExpr
  | [] => []
  | ty :: rest => mapShapes f ty :: mapAllShapes f rest
end

mutual
/-- The names of declared types, in the order in which they are read. -/
def referencedNames : TypeExpr → List String
  | ⟨shape, args, _⟩ => shape.declaredName?.toList ++ namesOfAll args
def namesOfAll : List TypeExpr → List String
  | [] => []
  | ty :: rest => referencedNames ty ++ namesOfAll rest
end

mutual
def depth : TypeExpr → Nat
  | ⟨_, args, _⟩ => depthOfAll args + 1
def depthOfAll : List TypeExpr → Nat
  | [] => 0
  | ty :: rest => max (depth ty) (depthOfAll rest)
end

end TypeExpr
end RecordCodec
