import RecordCodec.Cache

set_option autoImplicit false

/-!
# Codecs

A codec is a schema with a registry of handlers and a cache of compiled routines. Every conversion
takes the routine for its record and resolved configuration from the cache or compiles it first.
-/
namespace RecordCodec

open Routine

structure Codec where
  schema : Schema
  registry : Registry := .builtin
  cache : Cache := {}

namespace Codec

abbrev Outcome (α : Type) := Run α × Codec

def ofDocument (d : Document) : Run Codec := do
  let schema ← Schema.ofDocument d
  pure { schema }

/-- Adds or replaces a handler. Any cached routine may have been compiled with the one before, so
all of them are dropped. -/
def register (key : HandlerKey) (handler : Handler) (c : Codec) : Codec :=
  { c with registry := c.registry.register key handler, cache := c.cache.invalidate }

/-- A record's own settings under those of a caller. -/
def resolvedConfig (record : String) (overrides : Config) (c : Codec) : Except Failure Config := do
  let declared ← c.schema.findRecord record
  .ok (overrides.overlay declared.ownConfig)

def decoder (record : String) (overrides : Config) (c : Codec) : Outcome Decoder :=
  match c.resolvedConfig record overrides with
  | .error e => (throw e, c)
  | .ok config =>
    match c.cache.decoder? record config with
    | some r => (pure r, c)
    | none =>
      let (r, cache) :=
        c.cache.compileDecoder c.schema c.registry c.cache.epoch record config
      (r, { c with cache })

def encoder (record : String) (overrides : Config) (c : Codec) : Outcome Encoder :=
  match c.resolvedConfig record overrides with
  | .error e => (throw e, c)
  | .ok config =>
    match c.cache.encoder? record config with
    | some r => (pure r, c)
    | none =>
      let (r, cache) :=
        c.cache.compileEncoder c.schema c.registry c.cache.epoch record config
      (r, { c with cache })

def decode (record : String) (v : Json) (overrides : Config) (c : Codec) : Outcome Instance :=
  let (r, c) := c.decoder record overrides
  (r >>= fun r => Decoder.call r v, c)

def encode (record : String) (v : Instance) (overrides : Config) (c : Codec) : Outcome Json :=
  let (r, c) := c.encoder record overrides
  (r >>= fun r => Encoder.call r v, c)

/-- Decodes a flat map of texts, such as the variables of an environment. -/
def decodeFlat (record : String) (entries : List (String × String)) (overrides : Config)
    (c : Codec) : Outcome Instance :=
  c.decode record (.ofMembers (entries.map fun (key, text) => (key, .string text))) overrides

def checkRecord (record : String) (c : Codec) : Outcome Unit :=
  let (decoder, c) := c.decoder record {}
  match decoder.run with
  | some (.ok _) =>
    let (encoder, c) := c.encoder record {}
    (encoder >>= fun _ => pure (), c)
  | some (.error e) => (throw e, c)
  | none => (ExceptT.mk none, c)

def checkAll : List String → Codec → List (String × Run Unit) × Codec
  | [], c => ([], c)
  | record :: rest, c =>
    let (result, c) := c.checkRecord record
    let (others, c) := checkAll rest c
    ((record, result) :: others, c)

/-- Compiles every record in both directions, in order of their names. -/
def check (c : Codec) : List (String × Run Unit) × Codec := checkAll c.schema.records.names c

def cachedRoutines (c : Codec) : Nat := c.cache.size

def summary (c : Codec) : String :=
  "Codec \x7b records: " ++ Text.quotedList c.schema.records.names ++ ", handlers: " ++
    toString c.registry.size ++ ", cached_routines: " ++ toString c.cachedRoutines ++ " \x7d"

end Codec
end RecordCodec
