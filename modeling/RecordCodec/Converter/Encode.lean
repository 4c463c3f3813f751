import RecordCodec.Converter.Decode

set_option autoImplicit false

/-!
# Encoding with a converter

Encoding accepts the instances that decoding makes. Lists, sets and tuples may stand for one
another, and so may the two kinds of mapping. A union tries the arms that make such instances
before the others.
-/
namespace RecordCodec.Converter

open Routine

abbrev Encode := Instance → Run Json

def encodeItems (encode : Encode) (index : Nat) : List Instance → Run (List Json)
  | [] => pure []
  | v :: rest => do
    let first ← (encode v).mapError (Failure.atIndex index)
    let others ← encodeItems encode (index + 1) rest
    pure (first :: others)

def encodeParts (index : Nat) : List Encode → List Instance → Run (List Json)
  | encode :: encoders, v :: rest => do
    let first ← (encode v).mapError (Failure.atIndex index)
    let others ← encodeParts (index + 1) encoders rest
    pure (first :: others)
  | _, _ => pure []

def encodeTuple (encoders : List Encode) (v : Instance) : Run Json :=
  match v.items? with
  | some vs =>
    if vs.length = encoders.length then do
      let encoded ← encodeParts 0 encoders vs
      pure (.array encoded)
    else throw (.invalid (tupleExpected encoders.length) v.toJson)
  | none => throw (.invalid (tupleExpected encoders.length) v.toJson)

/-- Encodes entries in order; of a repeated key the last value counts. -/
def encodeEntries (key item : Encode) :
    List (Instance × Instance) → List (String × Json) → Run (List (String × Json))
  | [], out => pure out
  | (k, v) :: rest, out => do
    let first ← (key k).mapError (Failure.atKey k.keyString)
    let second ← (item v).mapError (Failure.atKey k.keyString)
    encodeEntries key item rest (Assoc.insert (Instance.keyText first) second out)

def encodeMapping (key item : Encode) (v : Instance) : Run Json :=
  match v.entries? with
  | some entries => do
    let members ← encodeEntries key item entries []
    pure (.object members)
  | none => throw (.invalid "a mapping" v.toJson)

def encodeLiteral (values : List Json) (v : Instance) : Except Failure Json :=
  if Json.contains values v.toJson then .ok v.toJson
  else .error (.invalid (literalExpected values) v.toJson)

def encodeEnum (e : EnumType) (v : Instance) : Except Failure Json :=
  match v with
  | .enumeration found =>
    if found.type = e.name then
      match e.valueOf? found.variant with
      | some value => .ok value
      | none => .error (.invalid (enumExpected e) found.value)
    else .error (.invalid (enumExpected e) found.value)
  | v => .error (.invalid (enumExpected e) v.toJson)

/-- The instance is of the kind that an arm of this type makes. -/
def fitsInstance (ty : TypeExpr) (v : Instance) : Bool :=
  match ty.shape, v with
  | .primitive p, v => p.name == v.kindName
  | .record _ name, .record type _ => name == type
  | .enumeration name, .enumeration e => name == e.type
  | .sequence, .seq _ => true
  | .set, .set _ => true
  | .fixedTuple, .tuple vs => vs.length == ty.args.length
  | .variadicTuple, .tuple _ => true
  | .mapping, .map _ => true
  | .defaultMapping, .defaultMap _ _ => true
  | .literal, v => Json.contains ty.literals v.toJson
  | _, _ => false

def encodeUnion (plan : UnionPlan) (encoders : List Encode) (v : Instance) : Run Json :=
  let order := trialOrder (fun (arm, _) => fitsInstance arm.type v) (plan.arms.zip encoders)
  firstSuccess (plan.failure none) v (order.map Prod.snd)

mutual
def encode (calls : Calls Instance Json) : Converter → Instance → Run Json
  | scalar p, v => .ofExcept (Scalar.encode p v)
  | optional inner, v => if v.isNull then pure .null else encode calls inner v
  | items form item, v =>
    match v.items? with
    | some vs => do
      let encoded ← encodeItems (encode calls item) 0 vs
      pure (.array encoded)
    | none => throw (.invalid form.expected v.toJson)
  | tuple parts, v => encodeTuple (encodeAll calls parts) v
  | mapping key item, v => encodeMapping (encode calls key) (encode calls item) v
  | defaultMapping key item _, v => encodeMapping (encode calls key) (encode calls item) v
  | literal values, v => .ofExcept (encodeLiteral values v)
  | enumeration e, v => .ofExcept (encodeEnum e v)
  | record routine, v => calls routine v
  | union plan arms, v => encodeUnion plan (encodeAll calls arms) v
  | custom _ encode, v => .ofExcept (encode v)
def encodeAll (calls : Calls Instance Json) : List Converter → List Encode
  | [] => []
  | c :: rest => encode calls c :: encodeAll calls rest
end

end RecordCodec.Converter
