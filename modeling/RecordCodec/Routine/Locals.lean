import RecordCodec.Instance
import RecordCodec.Routine.Run

set_option autoImplicit false

/-!
# The state of a running routine

A routine works on numbered slots, a set of consumed input keys and a list of missing fields. Beside
this store it has the keys of the loops that are being run. A step may leave other locals than it
found, in every part. Most steps are actions on the store, which see the keys and leave them alone.
-/
namespace RecordCodec.Routine

inductive Location where
  | key (key : String)
  | path (keys : List String)
  | index (index : Nat)
deriving DecidableEq

def fetchPath : List String → Json → Option Json
  | [], v => some v
  | key :: rest, v => (v.get? key).bind (fetchPath rest)

def Location.fetch : Location → Json → Option Json
  | key k, v => v.get? k
  | path keys, v => fetchPath keys v
  | index i, v => v.item? i

inductive Slot where
  | vacant
  | located (place : Location)
  | typed (v : Instance)
  | dynamic (v : Json)

def Slot.isVacant : Slot → Bool
  | vacant => true
  | _ => false

def Slot.target? (input : Json) : Slot → Option Json
  | located place => place.fetch input
  | _ => none

structure Store where
  slots : List Slot := []
  consumed : List String := []
  missing : List String := []

namespace Store

def ofSlots (count : Nat) : Store := { slots := List.replicate count .vacant }

def slot? (i : Nat) (s : Store) : Option Slot := s.slots[i]?

def slot (i : Nat) (s : Store) : Slot := (s.slot? i).getD .vacant

/-- Writes a slot; slots that are not there yet are added as vacant ones. -/
def set (i : Nat) (slot : Slot) (s : Store) : Store :=
  if i < s.slots.length then { s with slots := s.slots.set i slot }
  else { s with slots := s.slots ++ List.replicate (i - s.slots.length) .vacant ++ [slot] }

def vacate (i : Nat) (s : Store) : Store := { s with slots := s.slots.set i .vacant }

def isVacant (i : Nat) (s : Store) : Bool := (s.slot i).isVacant

def consume (key : String) (s : Store) : Store :=
  if s.consumed.contains key then s else { s with consumed := key :: s.consumed }

def isConsumed (key : String) (s : Store) : Bool := s.consumed.contains key

def markMissing (field : String) (s : Store) : Store :=
  { s with missing := s.missing ++ [field] }

def clearMissing (s : Store) : Store := { s with missing := [] }

end Store

/-- The store, and the keys of the loops that are being run, innermost first. -/
structure Locals where
  store : Store
  keys : List String := []

namespace Locals

def currentKey? (l : Locals) : Option String := l.keys.head?

def enterKey (key : String) (l : Locals) : Locals := { l with keys := key :: l.keys }

def leaveKey (l : Locals) : Locals := { l with keys := l.keys.tail }

end Locals

/-- An action on the store. A failure keeps the store as it was when it arose. -/
abbrev Act (α : Type) := ExceptT Failure (StateT Store Option) α

def Act.ofRun {α : Type} (r : Run α) : Act α :=
  ExceptT.mk fun store => r.run.map fun result => (result, store)

def Act.modify (f : Store → Store) : Act Unit := ExceptT.mk fun store => some (.ok (), f store)

def Act.store : Act Store := ExceptT.mk fun store => some (.ok store, store)

/-- How steps and what is made of them end: a result and the locals that are left, or nothing if the
fuel was used up. -/
abbrev Ending := Option (Except Failure Unit × Locals)

/-- How an action ends on the store of some locals. It has no access to their keys. -/
def Act.ending (action : Act Unit) (l : Locals) : Ending :=
  (action.run l.store).map fun (result, store) => (result, { l with store })

/-- How routines reach one another: by name, with an input. -/
abbrev Calls (I O : Type) := String → I → Run O

abbrev Step (I O : Type) := Calls I O → I → Locals → Ending

/-- A step that sees the keys of the loops around it and acts on the store. -/
def Step.onStore {I O : Type} (act : Calls I O → I → List String → Act Unit) : Step I O :=
  fun calls input l => (act calls input l.keys).ending l

abbrev Cond (I : Type) := I → Locals → Bool

abbrev KeySource (I : Type) := I → Locals → List String

/-- What becomes of a failure, and of the locals as they then are. -/
abbrev Recover (I : Type) := Failure → I → Locals → Except Failure Unit × Locals

def Recover.inField {I : Type} (record field : String) : Recover I := fun e _ l =>
  (.error (e.inField record field), l)

abbrev Finish (I O : Type) := I → Locals → Except Failure O

end RecordCodec.Routine
