import RecordCodec.Compile.Session

set_option autoImplicit false

/-!
# The cache of compiled routines

A cache holds routines by record, resolved configuration and direction. Its epoch counts how often
it was emptied: what a session has compiled is taken in only if the epoch is still the one that was
read before the session began.
-/
namespace RecordCodec

open Routine

abbrev Decoder := Linked Json Instance

abbrev Encoder := Linked Instance Json

/-- A decoder calls others on parts of its input and on its input without some of the members. -/
def Decoder.call (r : Decoder) (v : Json) : Run Instance := r.callWithin (r.callBound v.weight) v

/-- An encoder calls others on parts of its input. -/
def Encoder.call (r : Encoder) (v : Instance) : Run Json := r.callWithin (r.callBound v.depth) v

structure Cache where
  epoch : Nat := 0
  decoders : List (Compile.RoutineKey × Decoder) := []
  encoders : List (Compile.RoutineKey × Encoder) := []
  stamp : Nat := 0

namespace Cache

def size (c : Cache) : Nat := c.decoders.length + c.encoders.length

def isEmpty (c : Cache) : Bool := c.size == 0

def decoder? (record : String) (config : Config) (c : Cache) : Option Decoder :=
  Assoc.get? ⟨record, config, .decode⟩ c.decoders

def encoder? (record : String) (config : Config) (c : Cache) : Option Encoder :=
  Assoc.get? ⟨record, config, .encode⟩ c.encoders

/-- Drops every routine and begins a new epoch. -/
def invalidate (c : Cache) : Cache :=
  { c with epoch := c.epoch + 1, decoders := [], encoders := [] }

def insertAll {α : Type} (routines : List (Compile.RoutineKey × α))
    (held : List (Compile.RoutineKey × α)) : List (Compile.RoutineKey × α) :=
  routines.foldl (fun acc (key, r) => Assoc.insert key r acc) held

def publishDecoders (epoch : Nat) (routines : List (Compile.RoutineKey × Decoder)) (c : Cache) :
    Cache :=
  if c.epoch = epoch then { c with decoders := insertAll routines c.decoders } else c

def publishEncoders (epoch : Nat) (routines : List (Compile.RoutineKey × Encoder)) (c : Cache) :
    Cache :=
  if c.epoch = epoch then { c with encoders := insertAll routines c.encoders } else c

def nextStamp (c : Cache) : Cache := { c with stamp := c.stamp + 1 }

abbrev Cached (α : Type) := Run α × Cache

def compileDecoder (schema : Schema) (registry : Registry) (epoch : Nat) (record : String)
    (config : Config) (c : Cache) : Cached Decoder :=
  let cx : Compile.Context Json Instance :=
    { schema, registry, mode := .decoding, cached := fun key => Assoc.get? key c.decoders }
  match (Compile.compile cx c.stamp record config).run with
  | some (.ok compiled) =>
    (pure compiled.routine, (c.publishDecoders epoch compiled.all).nextStamp)
  | some (.error e) => (throw e, c)
  | none => (ExceptT.mk none, c)

def compileEncoder (schema : Schema) (registry : Registry) (epoch : Nat) (record : String)
    (config : Config) (c : Cache) : Cached Encoder :=
  let cx : Compile.Context Instance Json :=
    { schema, registry, mode := .encoding, cached := fun key => Assoc.get? key c.encoders }
  match (Compile.compile cx c.stamp record config).run with
  | some (.ok compiled) =>
    (pure compiled.routine, (c.publishEncoders epoch compiled.all).nextStamp)
  | some (.error e) => (throw e, c)
  | none => (ExceptT.mk none, c)

end Cache
end RecordCodec
