import RecordCodec.Converter.Scalar

set_option autoImplicit false

/-!
# Decoding with a converter

A container adds the index or the key of an item to the path of the item's failure. A text stands
for a container where its items are separated by commas. A union follows a known tag, and without
one tries the arms that fit the kind of value before the others.
-/
namespace RecordCodec.Converter

open Routine

abbrev Decode := Json → Run Instance

def listItems? : Json → Option (List Json)
  | .array vs => some vs
  | .string s => some ((Text.listItems s).map .string)
  | _ => none

def decodeItems (decode : Decode) (index : Nat) : List Json → Run (List Instance)
  | [] => pure []
  | v :: rest => do
    let first ← (decode v).mapError (Failure.atIndex index)
    let others ← decodeItems decode (index + 1) rest
    pure (first :: others)

def decodeParts (index : Nat) : List Decode → List Json → Run (List Instance)
  | decode :: decoders, v :: rest => do
    let first ← (decode v).mapError (Failure.atIndex index)
    let others ← decodeParts (index + 1) decoders rest
    pure (first :: others)
  | _, _ => pure []

def decodeTuple (decoders : List Decode) (v : Json) : Run Instance :=
  match listItems? v with
  | some vs =>
    if vs.length = decoders.length then do
      let decoded ← decodeParts 0 decoders vs
      pure (.tuple decoded)
    else throw (.invalid (tupleExpected decoders.length) v)
  | none => throw (.invalid (tupleExpected decoders.length) v)

def textEntry? (item : String) : Option (String × Json) :=
  (Text.splitOnce '=' item.toList).map fun (key, value) =>
    (String.ofList (Text.trim key), .string (String.ofList (Text.trim value)))

/-- The entries of an object, or of a text in the form `k=v,k=v`. -/
def mapEntries (v : Json) : Except Failure (List (String × Json)) :=
  match v with
  | .object members => .ok members
  | .string s =>
    match (Text.listItems s).mapM textEntry? with
    | some entries => .ok entries
    | none => .error (.invalid "\x60key=value\x60 pairs" v)
  | _ => .error (.invalid "a mapping" v)

def decodeEntries (key item : Decode) : List (String × Json) → Run (List (Instance × Instance))
  | [] => pure []
  | (k, v) :: rest => do
    let first ← (key (.string k)).mapError (Failure.atKey k)
    let second ← (item v).mapError (Failure.atKey k)
    let others ← decodeEntries key item rest
    pure ((first, second) :: others)

/-- A literal is matched by value first and then by its text. -/
def decodeLiteral (values : List Json) (v : Json) : Except Failure Instance :=
  if Json.contains values v then .ok (.ofScalar v)
  else
    match v.string?.bind fun s => values.find? fun l => literalText l == s with
    | some found => .ok (.ofScalar found)
    | none => .error (.invalid (literalExpected values) v)

/-- A variant is matched by value first, then by the text of its value, then by its name. -/
def variant? (e : EnumType) (v : Json) : Option String :=
  (e.variantOfValue? v).or do
    let s ← v.string?
    let (name, _) ← (e.variants.find? fun (_, value) => literalText value == s).or
      (e.variants.find? fun (name, _) => name == s)
    some name

def decodeEnum (e : EnumType) (v : Json) : Except Failure Instance :=
  match variant? e v with
  | some variant => .ok (.enumeration ⟨e.name, variant, (e.valueOf? variant).getD .null⟩)
  | none => .error (.invalid (enumExpected e) v)

/-- The value is of the kind that an arm of this type expects. -/
def fitsValue (ty : TypeExpr) (v : Json) : Bool :=
  match ty.shape, v with
  | .primitive .null, .null => true
  | .primitive .bool, .bool _ => true
  | .primitive .int, .number (.whole _) => true
  | .primitive .float, .number _ => true
  | .primitive .str, .string _ => true
  | .sequence, .array _ | .set, .array _ | .fixedTuple, .array _ | .variadicTuple, .array _ => true
  | .mapping, .object _ | .defaultMapping, .object _ => true
  | .literal, v => Json.contains ty.literals v
  | _, _ => false

/-- The first success; failures before it are dropped. -/
def firstSuccess {α β : Type} (failure : Failure) (v : α) : List (α → Run β) → Run β
  | [] => throw failure
  | f :: rest =>
    match (f v).run with
    | some (.ok b) => pure b
    | some (.error _) => firstSuccess failure v rest
    | none => ExceptT.mk none

def decodeUnion (plan : UnionPlan) (decoders : List Decode) (v : Json) : Run Instance :=
  let arms := plan.arms.zip decoders
  match if plan.isTagged then (v.get? plan.key).bind Json.string? else none with
  | some tag =>
    match arms.find? fun (arm, _) => arm.tag == some tag with
    | some (_, decode) => decode v
    | none => throw (plan.failure (some tag))
  | none =>
    let order := trialOrder (fun (arm, _) => fitsValue arm.type v) arms
    firstSuccess (plan.failure none) v (order.map Prod.snd)

mutual
def decode (calls : Calls Json Instance) : Converter → Json → Run Instance
  | scalar p, v => .ofExcept (Scalar.decode p v)
  | optional inner, v => if v.isNull then pure .null else decode calls inner v
  | items form item, v =>
    match listItems? v with
    | some vs => do
      let decoded ← decodeItems (decode calls item) 0 vs
      pure (form.build decoded)
    | none => throw (.invalid form.expected v)
  | tuple parts, v => decodeTuple (decodeAll calls parts) v
  | mapping key item, v => do
    let entries ← Run.ofExcept (mapEntries v)
    let decoded ← decodeEntries (decode calls key) (decode calls item) entries
    pure (.map decoded)
  | defaultMapping key item default, v => do
    let entries ← Run.ofExcept (mapEntries v)
    let decoded ← decodeEntries (decode calls key) (decode calls item) entries
    pure (.defaultMap decoded default)
  | literal values, v => .ofExcept (decodeLiteral values v)
  | enumeration e, v => .ofExcept (decodeEnum e v)
  | record routine, v => calls routine v
  | union plan arms, v => decodeUnion plan (decodeAll calls arms) v
  | custom decode _, v => .ofExcept (decode v)
def decodeAll (calls : Calls Json Instance) : List Converter → List Decode
  | [] => []
  | c :: rest => decode calls c :: decodeAll calls rest
end

end RecordCodec.Converter
