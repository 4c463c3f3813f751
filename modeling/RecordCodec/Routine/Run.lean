import RecordCodec.Failure

set_option autoImplicit false

/-!
# Runs

What is computed may fail, and it may not come to an end. A run that does not end gives nothing, and
nothing that would come after it is reached.
-/
namespace RecordCodec.Routine

/-- A result, a failure, or nothing if what is run does not end with the fuel that it has. -/
abbrev Run (α : Type) := ExceptT Failure Option α

def Run.ofExcept {α : Type} (r : Except Failure α) : Run α := ExceptT.mk (some r)

/-- A result or a failure, with the failure passed through a change of its context. -/
def Run.mapError {α : Type} (f : Failure → Failure) (r : Run α) : Run α :=
  ExceptT.mk (r.run.map (Except.mapError f))

end RecordCodec.Routine
