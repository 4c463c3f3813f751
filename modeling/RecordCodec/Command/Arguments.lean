import RecordCodec.Config
import RecordCodec.Text.Split

set_option autoImplicit false

/-!
# Arguments of the command line

A command is followed by its options in any order. A value stands in the argument of its option or
is the next argument; short options without values may be written together. Every option is given
at most once.
-/
namespace RecordCodec.Command

inductive OptionName where
  | schema | typeName | dataFile | flat | decodeCasing | encodeCasing | unknownKeys | omitDefault
  | pretty | root | json
deriving DecidableEq

namespace OptionName

def long : OptionName → String
  | schema => "schema"
  | typeName => "type-name"
  | dataFile => "data-file"
  | flat => "flat"
  | decodeCasing => "decode-casing"
  | encodeCasing => "encode-casing"
  | unknownKeys => "unknown-keys"
  | omitDefault => "omit-default"
  | pretty => "pretty"
  | root => "name"
  | json => "json"

def short? : OptionName → Option Char
  | schema => some 's'
  | typeName => some 't'
  | dataFile => some 'd'
  | pretty => some 'p'
  | root => some 'n'
  | _ => none

def takesValue : OptionName → Bool
  | flat | omitDefault | pretty | json => false
  | _ => true

end OptionName

inductive UsageError where
  | noCommand
  | unknownCommand (name : String)
  | unexpected (argument : String)
  | missingValue (name : OptionName)
  | noValueTaken (name : OptionName)
  | repeated (name : OptionName)
  | required (name : OptionName)
  | badValue (name : OptionName) (reason : String)

def UsageError.message : UsageError → String
  | noCommand => "a command is required"
  | unknownCommand name => "unrecognized command \x60" ++ name ++ "\x60"
  | unexpected argument => "unexpected argument \x60" ++ argument ++ "\x60"
  | missingValue name => "a value is required for \x60--" ++ name.long ++ "\x60"
  | noValueTaken name => "no value is expected for \x60--" ++ name.long ++ "\x60"
  | repeated name => "\x60--" ++ name.long ++ "\x60 cannot be used more than once"
  | required name => "\x60--" ++ name.long ++ "\x60 is required"
  | badValue name reason => "invalid value for \x60--" ++ name.long ++ "\x60: " ++ reason

/-- Options that were given, with their values; one that takes no value has the empty one. -/
abbrev Given := List (OptionName × String)

abbrev Parsed (α : Type) := Except UsageError α

def give (name : OptionName) (value : String) (given : Given) : Parsed Given :=
  if Assoc.contains name given then .error (.repeated name) else .ok (given ++ [(name, value)])

/-- An option whose value is still to come, and the options before it. -/
abbrev Pending := Option OptionName × Given

def readShort (allowed : List OptionName) (argument : String) : List Char → Given → Parsed Pending
  | [], given => .ok (none, given)
  | c :: rest, given =>
    match allowed.find? fun name => name.short? == some c with
    | none => .error (.unexpected argument)
    | some name =>
      if name.takesValue then
        match rest with
        | [] => .ok (some name, given)
        | '=' :: value => do .ok (none, ← give name (String.ofList value) given)
        | value => do .ok (none, ← give name (String.ofList value) given)
      else do readShort allowed argument rest (← give name "" given)

def readLong (allowed : List OptionName) (argument : String) (body : List Char) (given : Given) :
    Parsed Pending :=
  let (word, value?) := match Text.splitOnce '=' body with
    | some (word, value) => (word, some (String.ofList value))
    | none => (body, none)
  match allowed.find? (fun name => name.long == String.ofList word), value? with
  | none, _ => .error (.unexpected argument)
  | some name, some value =>
    if name.takesValue then do .ok (none, ← give name value given)
    else .error (.noValueTaken name)
  | some name, none =>
    if name.takesValue then .ok (some name, given) else do .ok (none, ← give name "" given)

/-- An argument that is an option and no value; a hyphen alone is a value. -/
def isOption (argument : String) : Bool :=
  match argument.toList with
  | '-' :: _ :: _ => true
  | _ => false

def readOptions (allowed : List OptionName) : List String → Pending → Parsed Given
  | [], (some name, _) => .error (.missingValue name)
  | [], (none, given) => .ok given
  | argument :: rest, (some name, given) =>
    if isOption argument then .error (.missingValue name)
    else do readOptions allowed rest (none, ← give name argument given)
  | argument :: rest, (none, given) =>
    match argument.toList with
    | ['-', '-'] =>
      match rest with
      | [] => .ok given
      | next :: _ => .error (.unexpected next)
    | '-' :: '-' :: body => do readOptions allowed rest (← readLong allowed argument body given)
    | '-' :: c :: body => do
      readOptions allowed rest (← readShort allowed argument (c :: body) given)
    | _ => .error (.unexpected argument)

structure Overrides where
  decodeCasing : Option Casing := none
  encodeCasing : Option Casing := none
  unknownKeys : Option UnknownKeys := none
  omitDefault : Bool := false

def Overrides.toConfig (o : Overrides) : Config :=
  { decodeCasing := o.decodeCasing
    encodeCasing := o.encodeCasing
    unknownKeys := o.unknownKeys
    omitDefault := if o.omitDefault then some true else none }

structure Conversion where
  schema : String
  record : String
  input : String
  /-- The input is a flat text and not a document. -/
  flat : Bool
  overrides : Overrides
  pretty : Bool

inductive Request where
  | check (schema : String)
  | decode (conversion : Conversion)
  | normalize (conversion : Conversion)
  | infer (sample root : String)
  | version

def text (name : OptionName) (given : Given) : Parsed String :=
  match Assoc.get? name given with
  | some value => .ok value
  | none => .error (.required name)

def fileName (name : OptionName) (given : Given) : Parsed String := do
  let value ← text name given
  if value.isEmpty then .error (.badValue name "the value is empty") else .ok value

def setting {α : Type} (name : OptionName) (ofName? : String → Option α)
    (refusal : String → String) (given : Given) : Parsed (Option α) :=
  match Assoc.get? name given with
  | none => .ok none
  | some value =>
    match ofName? value with
    | some a => .ok (some a)
    | none => .error (.badValue name (refusal value))

def isGiven (name : OptionName) (given : Given) : Bool := Assoc.contains name given

def overridesOf (given : Given) : Parsed Overrides := do
  let decodeCasing ← setting .decodeCasing Casing.ofName? Casing.unknownMessage given
  let encodeCasing ← setting .encodeCasing Casing.ofName? Casing.unknownMessage given
  let unknownKeys ← setting .unknownKeys UnknownKeys.ofName? UnknownKeys.unknownMessage given
  .ok { decodeCasing, encodeCasing, unknownKeys, omitDefault := isGiven .omitDefault given }

def conversionOptions : List OptionName :=
  [.schema, .typeName, .dataFile, .flat, .decodeCasing, .encodeCasing, .unknownKeys, .omitDefault,
    .pretty]

def conversionOf (given : Given) : Parsed Conversion := do
  let schema ← fileName .schema given
  let record ← text .typeName given
  let input ← fileName .dataFile given
  let overrides ← overridesOf given
  .ok { schema, record, input, flat := isGiven .flat given, overrides
        pretty := isGiven .pretty given }

/-- The version is asked for in place of a command. Among short options it counts as soon as it is
read, whatever is written after it. -/
def asksVersion (argument : String) : Bool :=
  match argument.toList with
  | '-' :: 'V' :: _ => true
  | _ => argument == "--version"

def readRequest : List String → Parsed Request
  | [] => .error .noCommand
  | "check" :: rest => do
    let given ← readOptions [.schema] rest (none, [])
    .ok (.check (← fileName .schema given))
  | "decode" :: rest => do
    let given ← readOptions conversionOptions rest (none, [])
    .ok (.decode (← conversionOf given))
  | "normalize" :: rest => do
    let given ← readOptions conversionOptions rest (none, [])
    .ok (.normalize (← conversionOf given))
  | "infer" :: rest => do
    let given ← readOptions [.dataFile, .root, .json] rest (none, [])
    let sample ← fileName .dataFile given
    .ok (.infer sample ((Assoc.get? .root given).getD "Root"))
  | name :: _ => if asksVersion name then .ok .version else .error (.unknownCommand name)

end RecordCodec.Command
