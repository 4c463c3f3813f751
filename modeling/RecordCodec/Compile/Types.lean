import RecordCodec.Compile.Compilation

set_option autoImplicit false

/-!
# Compiling types

The handler of a type makes its converter from the converters of the types inside it. The arms of
a union that are records compile under a configuration that carries the union's discriminator key.
-/
namespace RecordCodec.Compile

variable {I O : Type}

/-- The record that messages about the current position name. -/
def owner (s : Compilation I O) : String :=
  match s.site with
  | some site => site.record
  | none => "<root>"

def unionKey (s : Compilation I O) : String :=
  ((s.site.bind FieldSite.discriminator).or s.config.tagKey?).getD Config.defaultTagKey

def armConfig (key : String) (autoTag : Bool) (nested : Config) : Config :=
  let config := nested.withTagKey key
  if autoTag && config.autoTag?.isNone then config.withAutoTag true else config

def planArm (cx : Context I O) (key : String) (autoTag : Bool) (arm : TypeExpr) :
    Action I O UnionArm :=
  match arm.shape.recordName? with
  | none => pure { type := arm, record := none, tag := none }
  | some name => do
    let nested ← nestedConfig cx name
    let config := armConfig key autoTag nested
    let tag := (cx.schema.record? name).bind (RecordType.tagUnder config)
    pure { type := arm, record := some (name, config), tag }

/-- Plans arms whose tags have to differ from one another and from those seen before. -/
def planArms (cx : Context I O) (key : String) (autoTag : Bool) (refuseTag : String → Failure) :
    List String → List TypeExpr → Action I O (List UnionArm)
  | _, [] => pure []
  | seen, arm :: rest => do
    let planned ← planArm cx key autoTag arm
    match planned.tag with
    | some tag =>
      if seen.contains tag then throw (refuseTag tag)
    | none => pure ()
    let others ← planArms cx key autoTag refuseTag (planned.tag.toList ++ seen) rest
    pure (planned :: others)

/-- The record arms that no tag tells apart. -/
def untagged (arms : List UnionArm) : List String :=
  arms.filterMap fun arm =>
    match arm.record, arm.tag with
    | some (name, _), none => some name
    | _, _ => none

def planUnion (cx : Context I O) (ty : TypeExpr) : Action I O UnionPlan := do
  let s ← .state
  let refuse (reason : String) : Failure :=
    .of (.invalidConfiguration (owner s) ("union \x60" ++ ty.text ++ "\x60 " ++ reason))
  let key := unionKey s
  let arms ← planArms cx key s.config.autoTags
    (fun tag => refuse ("uses tag \x60" ++ tag ++ "\x60 for more than one arm")) [] ty.args
  if 1 < (untagged arms).length && !s.config.allowsAmbiguousUnions then
    throw (refuse ("has untagged record arms " ++ String.intercalate ", " (untagged arms) ++
      "; declare tags, enable auto-tag or allow ambiguous unions"))
  pure { union := ty.text, key, arms }

def armConverter (cx : Context I O) (inner : TypeExpr → Action I O Converter) (arm : UnionArm) :
    Action I O Converter :=
  match arm.record with
  | some (name, config) => recordConverter cx inner name config
  | none => inner arm.type

def findEnum (schema : Schema) (ty : TypeExpr) : Except Failure EnumType :=
  match ty.shape with
  | .enumeration name =>
    match schema.enum? name with
    | some e => .ok e
    | none => .error (.of (.unknownType name))
  | _ => .error (.of (.unsupportedType ty.text))

def handle (cx : Context I O) (inner : TypeExpr → Action I O Converter) (handler : Handler)
    (ty : TypeExpr) : Action I O Converter :=
  match handler with
  | .scalar p => pure (.scalar p)
  | .optional => do pure (.optional (← inner (ty.arg 0)))
  | .sequence => do pure (.items .list (← inner (ty.arg 0)))
  | .set => do pure (.items .set (← inner (ty.arg 0)))
  | .variadicTuple => do pure (.items .tuple (← inner (ty.arg 0)))
  | .fixedTuple => do pure (.tuple (← ty.args.mapM inner))
  | .mapping => do
    let key ← inner (ty.arg 0)
    let item ← inner (ty.arg 1)
    pure (.mapping key item)
  | .defaultMapping => do
    let key ← inner (ty.arg 0)
    let item ← inner (ty.arg 1)
    pure (.defaultMapping key item (Converter.zeroOf (ty.arg 1)))
  | .literal => pure (.literal ty.literals)
  | .enumeration => do
    let e ← .ofExcept (findEnum cx.schema ty)
    pure (.enumeration e)
  | .union => do
    let plan ← planUnion cx ty
    let arms ← plan.arms.mapM (armConverter cx inner)
    pure (.union plan arms)
  | .record =>
    match ty.shape.recordName? with
    | some name => do
      let config ← nestedConfig cx name
      recordConverter cx inner name config
    | none => throw (.of (.unsupportedType ty.text))
  | .custom decode encode => pure (.custom decode encode)

/-- The converter of a type. The fuel counts the types and records nested in one another. -/
def converterFor (cx : Context I O) : Nat → TypeExpr → Action I O Converter
  | 0, _ => .unfinished
  | fuel + 1, ty => do
    let (handler, target) ← .ofExcept (cx.registry.resolve cx.schema (cx.schema.resolve ty))
    handle cx (converterFor cx fuel) handler target

end RecordCodec.Compile
