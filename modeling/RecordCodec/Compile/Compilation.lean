import RecordCodec.Compile.Names
import RecordCodec.Converter.Basic
import RecordCodec.Registry
import RecordCodec.Routine.Linked

set_option autoImplicit false

/-!
# Compile sessions

A session compiles the routine of one record with the routines of all records that it reaches, in
one direction. For each record it needs, it refers to a routine that is being compiled, uses one
that it has, takes one over from the cache, or compiles one, in this order of preference.
-/
namespace RecordCodec.Compile

open Routine

/-- The direction of a session, with the fields of a record that are compiled in it and the draft
that their converters are put together to. -/
structure Mode (I O : Type) where
  direction : Direction
  fields : RecordType → Config → List Field
  draft : RecordType → Config → String → List (Field × Converter) → Draft I O

/-- What a session compiles against; none of it changes while the session runs. -/
structure Context (I O : Type) where
  schema : Schema
  registry : Registry
  cached : RoutineKey → Option (Linked I O)
  mode : Mode I O

structure Compilation (I O : Type) where
  /-- The configuration of the record that is being compiled. -/
  config : Config := {}
  site : Option FieldSite := none
  guard : RecursionGuard := {}
  names : NameScope := {}
  synthesis : Synthesis I O := {}
  environment : Environment I O := []
  known : List (RoutineKey × String) := []
  compiled : List (RoutineKey × String) := []

/-- An action of a session. A failure keeps the session as it was when it arose; nothing at all
comes of an action whose fuel is used up. -/
abbrev Action (I O α : Type) := ExceptT Failure (StateT (Compilation I O) Option) α

variable {I O : Type}

namespace Action

def unfinished {α : Type} : Action I O α := ExceptT.mk fun _ => none

def ofExcept {α : Type} (r : Except Failure α) : Action I O α :=
  ExceptT.mk fun s => some (r, s)

def state : Action I O (Compilation I O) := ExceptT.mk fun s => some (.ok s, s)

def modify (f : Compilation I O → Compilation I O) : Action I O Unit :=
  ExceptT.mk fun s => some (.ok (), f s)

/-- Runs an action in a changed session and undoes the change however the action ends. -/
def within {α : Type} (enter : Compilation I O → Compilation I O)
    (leave : Compilation I O → Compilation I O → Compilation I O) (action : Action I O α) :
    Action I O α :=
  ExceptT.mk fun s =>
    match action.run (enter s) with
    | some (result, s') => some (result, leave s s')
    | none => none

def mapError {α : Type} (f : Failure → Failure) (action : Action I O α) : Action I O α :=
  ExceptT.mk fun s => (action.run s).map fun (result, s') => (result.mapError f, s')

end Action

def inField {α : Type} (record : RecordType) (field : Field) (action : Action I O α) :
    Action I O α :=
  .within (fun s => { s with site := some ⟨record.name, field.name, field.discriminator⟩ })
    (fun before s => { s with site := before.site }) action

def inRoutine {α : Type} (key : RoutineKey) (name : String) (action : Action I O α) :
    Action I O α :=
  .within (fun s => { s with config := key.config, site := none, guard := s.guard.enter key name })
    (fun before s =>
      { s with config := before.config, site := before.site, guard := s.guard.leave key })
    action

def freshName (direction : Direction) (record : String) : Action I O String := do
  let s ← .state
  let (name, names) := s.names.fresh direction record
  .modify fun s => { s with names }
  pure name

def openRoutine (name : String) : Action I O Unit := do
  let s ← .state
  let synthesis ← .ofExcept (s.synthesis.openRoutine name)
  .modify fun s => { s with synthesis }

def submit (d : Draft I O) : Action I O Unit :=
  .modify fun s => { s with synthesis := s.synthesis.submit d }

def reference (name : String) : Action I O Converter := do
  .modify fun s => { s with synthesis := s.synthesis.reference name }
  pure (.record name)

/-- Takes a routine over from the cache under a name of this session. -/
def adopt (key : RoutineKey) (routine : Linked I O) : Action I O String := do
  let name ← freshName key.direction key.record
  .modify fun s => { s with
    environment := Assoc.insert name routine s.environment
    known := Assoc.insert key name s.known }
  pure name

/-- The configuration of a record nested in the one that is being compiled. -/
def nestedConfig (cx : Context I O) (record : String) : Action I O Config := do
  let declared ← .ofExcept (cx.schema.findRecord record)
  let s ← .state
  pure (declared.ownConfig.inherit s.config)

def compileFields (inner : TypeExpr → Action I O Converter) (record : RecordType) :
    List Field → Action I O (List (Field × Converter))
  | [] => pure []
  | f :: rest => do
    let c ← (inField record f (inner f.type)).mapError (Failure.atKey f.name)
    let others ← compileFields inner record rest
    pure ((f, c) :: others)

/-- Compiles the routine of a record, with `inner` compiling the types of its fields. -/
def compileRoutine (cx : Context I O) (inner : TypeExpr → Action I O Converter)
    (record : RecordType) (config : Config) (name : String) : Action I O Unit := do
  openRoutine name
  let fields ← compileFields inner record (cx.mode.fields record config)
  submit (cx.mode.draft record config name fields)

/-- The name of the routine for a record under a configuration. -/
def ensureRoutine (cx : Context I O) (inner : TypeExpr → Action I O Converter) (record : String)
    (config : Config) : Action I O String := do
  let key : RoutineKey := ⟨record, config, cx.mode.direction⟩
  let s ← .state
  match (s.guard.name? key).or (Assoc.get? key s.known), cx.cached key with
  | some name, _ => pure name
  | none, some routine => adopt key routine
  | none, none =>
    let declared ← .ofExcept (cx.schema.findRecord record)
    .ofExcept (declared.checkConfig config)
    let name ← freshName key.direction record
    inRoutine key name (compileRoutine cx inner declared config name)
    .modify fun s => { s with
      known := Assoc.insert key name s.known
      compiled := s.compiled ++ [(key, name)] }
    pure name

def recordConverter (cx : Context I O) (inner : TypeExpr → Action I O Converter)
    (record : String) (config : Config) : Action I O Converter := do
  let name ← ensureRoutine cx inner record config
  reference name

end RecordCodec.Compile
