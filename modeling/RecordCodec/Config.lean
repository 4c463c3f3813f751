import RecordCodec.Casing
import RecordCodec.Document.Basic
import RecordCodec.Failure

set_option autoImplicit false

/-!
# Configurations

Every setting is optional, so that one that was not given can be told from one that was. A
caller's settings are laid over those of a record. A nested record compiles under its own settings,
filled in from the record around it where that one is recursive.
-/
namespace RecordCodec

inductive UnknownKeys where
  | ignore | warn | raise
deriving DecidableEq, Inhabited

namespace UnknownKeys

def name : UnknownKeys → String
  | ignore => "ignore"
  | warn => "warn"
  | raise => "raise"

def ofName? : String → Option UnknownKeys
  | "ignore" => some ignore
  | "warn" => some warn
  | "raise" | "forbid" | "error" => some raise
  | _ => none

def unknownMessage (name : String) : String := "unknown key policy \x60" ++ name ++ "\x60"

end UnknownKeys

structure Discriminator where
  key : Option String := none
  /-- Record arms without a tag of their own are tagged with the name of the record. -/
  autoTag : Option Bool := none
deriving DecidableEq

def Discriminator.overlay (upper base : Discriminator) : Discriminator :=
  { key := upper.key.or base.key, autoTag := upper.autoTag.or base.autoTag }

structure Config where
  decodeCasing : Option Casing := none
  encodeCasing : Option Casing := none
  /-- The input keys of a field, in the order in which they are tried. -/
  decodeAliases : Table (List String) := .empty
  encodeAliases : Table String := .empty
  unknownKeys : Option UnknownKeys := none
  discriminator : Option Discriminator := none
  omitNone : Option Bool := none
  omitDefault : Option Bool := none
  encodeByAlias : Option Bool := none
  positionalAsMap : Option Bool := none
  allowAmbiguousUnions : Option Bool := none
  /-- Nested records inherit from this configuration. -/
  recursive : Option Bool := none
deriving DecidableEq

instance : Inhabited Config := ⟨{}⟩

namespace Config

/-- The discriminator key where no configuration names one. -/
def defaultTagKey : String := "__tag__"

def decodesWith (c : Config) : Casing := c.decodeCasing.getD .preserve

def encodesWith (c : Config) : Casing := c.encodeCasing.getD .preserve

def policy (c : Config) : UnknownKeys := c.unknownKeys.getD .ignore

def tagKey? (c : Config) : Option String := c.discriminator.bind Discriminator.key

def autoTag? (c : Config) : Option Bool := c.discriminator.bind Discriminator.autoTag

def autoTags (c : Config) : Bool := c.autoTag?.getD false

def omitsNone (c : Config) : Bool := c.omitNone.getD false

def omitsDefault (c : Config) : Bool := c.omitDefault.getD false

def encodesByAlias (c : Config) : Bool := c.encodeByAlias.getD false

def encodesPositionalAsMap (c : Config) : Bool := c.positionalAsMap.getD false

def allowsAmbiguousUnions (c : Config) : Bool := c.allowAmbiguousUnions.getD false

def isRecursive (c : Config) : Bool := c.recursive.getD false

def withTagKey (key : String) (c : Config) : Config :=
  { c with discriminator := some { c.discriminator.getD {} with key := some key } }

def withAutoTag (on : Bool) (c : Config) : Config :=
  { c with discriminator := some { c.discriminator.getD {} with autoTag := some on } }

/-- The settings that are handed down, `base` standing in for those that `c` does not have. -/
def fillFrom (c base : Config) : Config :=
  { c with
    decodeCasing := c.decodeCasing.or base.decodeCasing
    encodeCasing := c.encodeCasing.or base.encodeCasing
    unknownKeys := c.unknownKeys.or base.unknownKeys
    omitNone := c.omitNone.or base.omitNone
    omitDefault := c.omitDefault.or base.omitDefault
    encodeByAlias := c.encodeByAlias.or base.encodeByAlias
    positionalAsMap := c.positionalAsMap.or base.positionalAsMap
    allowAmbiguousUnions := c.allowAmbiguousUnions.or base.allowAmbiguousUnions
    recursive := c.recursive.or base.recursive }

def overlayDiscriminator : Option Discriminator → Option Discriminator → Option Discriminator
  | some upper, some base => some (upper.overlay base)
  | upper, base => upper.or base

/-- A caller's settings over those of a record, aliases and discriminator included. -/
def overlay (upper base : Config) : Config :=
  { upper.fillFrom base with
    decodeAliases := upper.decodeAliases.overlay base.decodeAliases
    encodeAliases := upper.encodeAliases.overlay base.encodeAliases
    discriminator := overlayDiscriminator upper.discriminator base.discriminator }

/-- A record's own settings inside a record that compiles under `outer`. Aliases and the
discriminator are never handed down. -/
def inherit (own outer : Config) : Config :=
  if outer.isRecursive then own.fillFrom outer else own

def casing? (record : String) : Option String → Except Failure (Option Casing)
  | none => .ok none
  | some name =>
    match Casing.ofName? name with
    | some casing => .ok (some casing)
    | none => .error (.of (.invalidConfiguration record (Casing.unknownMessage name)))

def unknownKeys? (record : String) : Option String → Except Failure (Option UnknownKeys)
  | none => .ok none
  | some name =>
    match UnknownKeys.ofName? name with
    | some policy => .ok (some policy)
    | none => .error (.of (.invalidConfiguration record (UnknownKeys.unknownMessage name)))

def ofDecl (record : String) (decl : Document.ConfigDecl) : Except Failure Config := do
  let unknownKeys ← unknownKeys? record decl.unknownKeys
  let decodeCasing ← casing? record decl.decodeCasing
  let encodeCasing ← casing? record decl.encodeCasing
  .ok { decodeCasing, encodeCasing, unknownKeys
        decodeAliases := decl.decodeAliases
        encodeAliases := decl.encodeAliases
        discriminator := decl.discriminator.map fun d => ⟨d.key, d.autoTag⟩
        omitNone := decl.omitNone
        omitDefault := decl.omitDefault
        encodeByAlias := decl.encodeByAlias
        positionalAsMap := decl.positionalAsMap
        allowAmbiguousUnions := decl.allowAmbiguousUnions
        recursive := decl.recursive }

def check (record : String) (fields : List String) (c : Config) : Except Failure Unit := do
  let refuse (reason : String) : Except Failure Unit :=
    .error (.of (.invalidConfiguration record reason))
  if c.encodeCasing = some .caseInsensitive then
    refuse "\x60case-insensitive\x60 casing is only valid for decoding"
  match (c.decodeAliases.names ++ c.encodeAliases.names).find?
    fun name => !fields.contains name with
  | some name => refuse ("alias given for undeclared field \x60" ++ name ++ "\x60")
  | none => .ok ()
  if c.tagKey? = some "" then refuse "empty discriminator key"

end Config
end RecordCodec
