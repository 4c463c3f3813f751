import RecordCodec.Routine.Locals

set_option autoImplicit false

/-!
# Blocks

The body of a routine is a sequence of steps, branches, loops over keys and guards. It runs in
order up to the first failure. Each run of a loop's body sees its key as the innermost one, and the
key is taken back however the run ends. A guard hands a failure of its body to its recovery.
-/
namespace RecordCodec.Routine

inductive Block (I O : Type) where
  | done
  | step (s : Step I O) (rest : Block I O)
  | branch (cond : Cond I) (yes no rest : Block I O)
  | forEachKey (source : KeySource I) (body rest : Block I O)
  | guard (recover : Recover I) (body rest : Block I O)

def Ending.andThen (e : Ending) (next : Locals → Ending) : Ending :=
  match e with
  | some (.ok (), l) => next l
  | e => e

/-- Hands a failure to what recovers from it. -/
def Ending.recoverBy (e : Ending) (recover : Failure → Locals → Except Failure Unit × Locals) :
    Ending :=
  match e with
  | some (.error failure, l) => some (recover failure l)
  | e => e

/-- Runs a body once for each key, up to the first failure. -/
def runKeys (body : Locals → Ending) : List String → Locals → Ending
  | [], l => some (.ok (), l)
  | key :: rest, l =>
    match body (l.enterKey key) with
    | some (.ok (), l) => runKeys body rest l.leaveKey
    | some (.error e, l) => some (.error e, l.leaveKey)
    | none => none

namespace Block

variable {I O : Type}

def append : Block I O → Block I O → Block I O
  | done, b => b
  | step s rest, b => step s (rest.append b)
  | branch cond yes no rest, b => branch cond yes no (rest.append b)
  | forEachKey source body rest, b => forEachKey source body (rest.append b)
  | guard recover body rest, b => guard recover body (rest.append b)

def run (calls : Calls I O) (input : I) : Block I O → Locals → Ending
  | done, l => some (.ok (), l)
  | step s rest, l => (s calls input l).andThen (rest.run calls input)
  | branch cond yes no rest, l =>
    (if cond input l then yes.run calls input l else no.run calls input l).andThen
      (rest.run calls input)
  | forEachKey source body rest, l =>
    (runKeys (body.run calls input) (source input l) l).andThen (rest.run calls input)
  | guard recover body rest, l =>
    ((body.run calls input l).recoverBy fun e l => recover e input l).andThen (rest.run calls input)

end Block
end RecordCodec.Routine
