import RecordCodec.Routine.Draft

set_option autoImplicit false

/-!
# Linked routines and sessions

The routines of a session are opened, submitted and lowered together. They reach one another by
name, first in their own session and then in an environment of routines from earlier sessions. A
linked routine carries both with it, so that it can be called on its own.
-/
namespace RecordCodec.Routine

/-- A routine with everything it may call. Routines of one session bear the same stamp. -/
structure Linked (I O : Type) where
  code : Code I O
  session : List (Code I O)
  environment : List (String × Linked I O)
  stamp : Nat
  /-- How many routines there are to call. -/
  size : Nat
  /-- The sum of the reaches of all of them. -/
  reach : Nat

variable {I O : Type}

namespace Linked

def name (r : Linked I O) : String := r.code.name

def same (a b : Linked I O) : Bool := a.stamp == b.stamp && a.name == b.name

def callee? (name : String) (r : Linked I O) : Option (Linked I O) :=
  match r.session.find? fun c => c.name == name with
  | some code => some { r with code }
  | none => Assoc.get? name r.environment

/-- Calls a routine; the fuel counts the calls nested in one another. -/
def callWithin : Nat → Linked I O → I → Run O
  | 0, _, _ => ExceptT.mk none
  | fuel + 1, r, input =>
    r.code.run (fun name v =>
      match r.callee? name with
      | some callee => callWithin fuel callee v
      | none => throw (.of (.unlinkedRoutine name))) input

/-- How many calls can be nested in one another on an input of some measure, where each call gets
the value of its caller, one of a lower measure, or one within reach. A chain of calls that ends
visits each routine at most once for each value, and so at most once for each measure of the input
and of the values within reach. -/
def callBound (measure : Nat) (r : Linked I O) : Nat := (measure + 1 + r.reach) * (r.size + 1)

end Linked

abbrev Environment (I O : Type) := List (String × Linked I O)

/-- A session in the making: the names opened, the drafts submitted and the names referred to. -/
structure Synthesis (I O : Type) where
  opened : List String := []
  drafts : List (Draft I O) := []
  referenced : List String := []

/-- A session whose routines have been lowered and linked. -/
structure Session (I O : Type) where
  codes : List (Code I O)
  environment : Environment I O
  stamp : Nat

namespace Session

def size (s : Session I O) : Nat :=
  s.codes.length + total (s.environment.map fun (_, r) => r.size)

def reach (s : Session I O) : Nat :=
  total (s.codes.map Code.reach) + total (s.environment.map fun (_, r) => r.reach)

def linkCode (s : Session I O) (code : Code I O) : Linked I O :=
  { code, session := s.codes, environment := s.environment, stamp := s.stamp, size := s.size
    reach := s.reach }

def own? (name : String) (s : Session I O) : Option (Linked I O) :=
  (s.codes.find? fun c => c.name == name).map s.linkCode

/-- What a reference by this name is bound to. -/
def resolve? (name : String) (s : Session I O) : Option (Linked I O) :=
  (s.own? name).or (Assoc.get? name s.environment)

end Session

namespace Synthesis

def isEmpty (s : Synthesis I O) : Bool := s.opened.isEmpty && s.referenced.isEmpty

def openRoutine (name : String) (s : Synthesis I O) : Except Failure (Synthesis I O) :=
  if s.opened.contains name then .error (.of (.duplicateRoutine name))
  else .ok { s with opened := s.opened ++ [name] }

def submit (d : Draft I O) (s : Synthesis I O) : Synthesis I O :=
  { s with drafts := s.drafts ++ [d] }

def reference (name : String) (s : Synthesis I O) : Synthesis I O :=
  if s.referenced.contains name then s else { s with referenced := s.referenced ++ [name] }

def lowerAll : List (Draft I O) → Except Failure (List (Code I O))
  | [] => .ok []
  | d :: rest =>
    match d.lower with
    | .error m => .error (malformed d.name m)
    | .ok code => (lowerAll rest).map (code :: ·)

/-- Lowers every draft and binds every reference. -/
def finalize (environment : Environment I O) (stamp : Nat) (s : Synthesis I O) :
    Except Failure (Session I O) := do
  match s.opened.find? fun name => !(s.drafts.map Draft.name).contains name with
  | some name => .error (malformed name .neverSubmitted)
  | none => .ok ()
  let codes ← lowerAll s.drafts
  let session : Session I O := { codes, environment, stamp }
  match s.referenced.find? fun name => (session.resolve? name).isNone with
  | some name => .error (.of (.unlinkedRoutine name))
  | none => .ok session

end Synthesis

/-- A reference to a routine of a session, bound once the session is linked. -/
structure Handle (I O : Type) where
  name : String
  target : Option (Linked I O) := none

namespace Handle

def isLinked (h : Handle I O) : Bool := h.target.isSome

def bind (session : Session I O) (h : Handle I O) : Handle I O :=
  { h with target := session.resolve? h.name }

def callWithin (fuel : Nat) (h : Handle I O) (input : I) : Run O :=
  match h.target with
  | some r => r.callWithin fuel input
  | none => throw (.of (.unlinkedRoutine h.name))

end Handle
end RecordCodec.Routine
