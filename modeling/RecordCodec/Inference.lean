import RecordCodec.Casing
import RecordCodec.Document.Basic
import RecordCodec.Text.Split
import RecordCodec.TypeExpr.Printer
import RecordCodec.TypeExpr.Union

set_option autoImplicit false

/-!
# Drafting a schema from samples

All objects at one place are merged into one record, arrays become lists of the union of the types
of their items, and a key that is absent from some objects becomes optional. Records are listed
before the records they contain.
-/
namespace RecordCodec.Inference

inductive Refusal where
  | mixedArray
  | noObjects

def Refusal.message : Refusal → String
  | mixedArray => "every sample in the array must be an object"
  | noObjects => "sample must be an object or a non-empty array of objects"

def isAsciiAlphanumeric (c : Char) : Bool := c.isAlpha || c.isDigit

def isIdentifier (key : List Char) : Bool :=
  key.head?.any (fun c => c.isAlpha || c == '_') &&
    key.all fun c => isAsciiAlphanumeric c || c == '_'

def fieldName (key : String) : String :=
  if isIdentifier key.toList then key
  else
    let snake := Casing.snake.apply key
    if snake.toList.head?.any Char.isAlpha then snake else "field_" ++ snake

def itemHint (hint : String) : String :=
  match Text.stripSuffix? ['s'] hint.toList with
  | some stem =>
    if 1 < (String.ofList stem).utf8ByteSize && stem.getLast? != some 's' then String.ofList stem
    else hint ++ "_item"
  | none => hint ++ "_item"

def baseName (hint : String) : String :=
  let name := Casing.pascal.apply hint
  if name.toList.head?.any Char.isAlpha then name else "Record" ++ name

/-- A name that is not taken: the plain one, or the first with a number. -/
def freeName (taken : List String) (hint : String) : String :=
  let base := baseName hint
  let numbered := (List.range taken.length).map fun n => base ++ toString (n + 2)
  ((base :: numbered).find? fun name => !taken.contains name).getD base

def scalarType? : Json → Option TypeExpr
  | .null => some (.primitive .null)
  | .bool _ => some (.primitive .bool)
  | .number (.whole _) => some (.primitive .int)
  | .number (.float _) => some (.primitive .float)
  | .string _ => some (.primitive .str)
  | _ => none

/-- An integer is at home among floats. -/
def widened (types : List TypeExpr) : List TypeExpr :=
  if types.any fun ty => ty.shape == .primitive .float then
    types.filter fun ty => ty.shape != .primitive .int
  else types

def arrays (values : List Json) : List (List Json) :=
  values.filterMap fun v =>
    match v with
    | .array items => some items
    | _ => none

abbrev Members := List (String × Json)

def objects (values : List Json) : List Members :=
  values.filterMap fun v =>
    match v with
    | .object members => some members
    | _ => none

/-- The keys of all samples in order of first appearance. -/
def distinctKeys (samples : List Members) : List String :=
  (samples.flatMap Assoc.keys).foldl
    (fun acc key => if acc.contains key then acc else acc ++ [key]) []

/-- Values that are only ever null may turn out to be anything. -/
def settle (ty : TypeExpr) : TypeExpr := if ty.isNull then .optional .any else ty

/-- A draft of something, with the records that were drafted for it. -/
structure Drafted (α : Type) where
  value : α
  records : List Document.RecordDecl

def namesOf (records : List Document.RecordDecl) : List String :=
  records.map Document.RecordDecl.name

def fieldOf (key : String) (ty : TypeExpr) : Document.FieldDecl :=
  { name := fieldName key
    type := ty.text
    aliasKey := if fieldName key = key then none else some key
    default := if ty.acceptsNull then some .null else none }

/-- How a type is drafted from values, given the names that are taken and what to call it. -/
abbrev Typing := List String → String → List Json → Drafted TypeExpr

def draftFields (typing : Typing) (samples : List Members) :
    List String → List String → Drafted (List Document.FieldDecl)
  | _, [] => ⟨[], []⟩
  | taken, key :: rest =>
    let present := samples.filterMap (Assoc.get? key)
    let inner := typing taken key present
    let ty := if present.length < samples.length then .unionOf [inner.value, .null]
      else inner.value
    let others := draftFields typing samples (taken ++ namesOf inner.records) rest
    ⟨fieldOf key ty :: others.value, inner.records ++ others.records⟩

/-- One record for all samples, in front of the records it contains. -/
def draftRecord (typing : Typing) (taken : List String) (hint : String) (samples : List Members) :
    Drafted String :=
  let name := freeName taken hint
  let fields := draftFields typing samples (taken ++ [name]) (distinctKeys samples)
  ⟨name, { name, fields := fields.value } :: fields.records⟩

def draftItems (typing : Typing) (taken : List String) (hint : String)
    (lists : List (List Json)) : Drafted (List TypeExpr) :=
  match lists, lists.flatten with
  | [], _ => ⟨[], []⟩
  | _, [] => ⟨[.sequence .any], []⟩
  | _, items =>
    let item := typing taken (itemHint hint) items
    ⟨[.sequence item.value], item.records⟩

def draftObjects (typing : Typing) (taken : List String) (hint : String)
    (samples : List Members) : Drafted (List TypeExpr) :=
  match samples with
  | [] => ⟨[], []⟩
  | samples =>
    let name := draftRecord typing taken hint samples
    ⟨[.named name.value], name.records⟩

/-- The type of values that nest arrays and objects no deeper than the first argument. -/
def typeWithin : Nat → Typing
  | 0, _, _, values => ⟨settle (.unionOf (widened (values.filterMap scalarType?))), []⟩
  | depth + 1, taken, hint, values =>
    let items := draftItems (typeWithin depth) taken hint (arrays values)
    let record :=
      draftObjects (typeWithin depth) (taken ++ namesOf items.records) hint (objects values)
    ⟨settle (.unionOf (widened (values.filterMap scalarType?) ++ items.value ++ record.value)),
      items.records ++ record.records⟩

/-- The objects of a sample, which is one object or an array of at least one. -/
def samplesOf (sample : Json) : Except Refusal (List Members) :=
  match sample with
  | .object members => .ok [members]
  | .array (first :: rest) =>
    let found := objects (first :: rest)
    if found.length = rest.length + 1 then .ok found else .error .mixedArray
  | _ => .error .noObjects

/-- A schema document whose first record covers the sample. -/
def draft (root : String) (sample : Json) : Except Refusal Document := do
  let samples ← samplesOf sample
  .ok { records := (draftRecord (typeWithin sample.depth) [] root samples).records }

end RecordCodec.Inference
