import RecordCodec.Compile.Decoder
import RecordCodec.Compile.Encoder
import RecordCodec.Compile.Types

set_option autoImplicit false

/-!
# Running a compile session

Records being compiled inside one another differ in their keys. A key is a record with a
configuration, and the configurations that a session reaches are made from finitely many settings,
so a bound on their number, times the depth of the types, is fuel enough.
-/
namespace RecordCodec.Compile

open Routine

/-- In how many ways the settings that are handed down can be given: two casings, the policy for
unknown keys and six switches. -/
def settingChoices : Nat := 8 * 8 * 4 * 729

/-- How many discriminator keys there are: those of fields and of configurations, and the
default. -/
def tagKeyChoices (schema : Schema) : Nat :=
  total (schema.records.values.map fun r => r.fields.length + 1) + 2

/-- How many configurations a record can be compiled under in one session: its own discriminator or
one with a key of a union, and automatic tags as declared or turned on. -/
def configChoices (schema : Schema) : Nat :=
  settingChoices * (2 * tagKeyChoices schema + 1) + 1

def keyChoices (schema : Schema) : Nat :=
  configChoices schema * schema.records.entries.length

def typeDepth (schema : Schema) : Nat :=
  (schema.records.values.flatMap RecordType.fields).foldl (fun n f => max n f.type.depth) 0

def fuelFor (schema : Schema) : Nat := (keyChoices schema + 1) * (typeDepth schema + 2)

structure Compiled (I O : Type) where
  routine : Linked I O
  all : List (RoutineKey × Linked I O)

variable {I O : Type}

def link (stamp : Nat) (name : String) (s : Compilation I O) : Except Failure (Compiled I O) := do
  let session ← s.synthesis.finalize s.environment stamp
  match session.resolve? name with
  | none => .error (.of (.unlinkedRoutine name))
  | some routine =>
    .ok { routine
          all := s.compiled.filterMap fun (key, name) =>
            (session.own? name).map fun routine => (key, routine) }

def compile (cx : Context I O) (stamp : Nat) (record : String) (config : Config) :
    Run (Compiled I O) :=
  let compiling := ensureRoutine cx (converterFor cx (fuelFor cx.schema)) record config
  match compiling.run {} with
  | some (.ok name, s) => .ofExcept (link stamp name s)
  | some (.error e, _) => throw e
  | none => ExceptT.mk none

end RecordCodec.Compile
