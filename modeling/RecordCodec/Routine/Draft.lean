import RecordCodec.Routine.Block

set_option autoImplicit false

/-!
# Drafts of routines

A draft is a flat list of operations: steps, and marks that open and close blocks. Lowering nests
the operations as the marks say. It fails just when the marks do not nest or no finish was given.
-/
namespace RecordCodec.Routine

inductive BlockKind (I : Type) where
  | when (cond : Cond I)
  | forEachKey (source : KeySource I)
  | guard (recover : Recover I)

inductive Op (I O : Type) where
  | emit (s : Step I O)
  | opening (kind : BlockKind I)
  | otherwise
  | close

def total : List Nat → Nat
  | [] => 0
  | n :: rest => n + total rest

structure Draft (I O : Type) where
  name : String
  ops : List (Op I O) := []
  slots : Nat := 0
  finish : Option (Finish I O) := none
  /-- The measures, in sum, of the values that the steps convert beside parts of the input. -/
  reach : Nat := 0

/-- Why a draft or a session of drafts makes no routine. -/
inductive Malformation where
  | noFinish
  | secondOtherwise
  | otherwiseOutsideIf
  | closeWithoutOpening
  | unclosed (label : String)
  | neverSubmitted
  | noOutput

def Malformation.message : Malformation → String
  | noFinish => "no result step"
  | secondOtherwise => "second \x60otherwise\x60 in one \x60if\x60 block"
  | otherwiseOutsideIf => "\x60otherwise\x60 outside an \x60if\x60 block"
  | closeWithoutOpening => "\x60close_block\x60 without an open block"
  | unclosed label => "unclosed \x60" ++ label ++ "\x60 block"
  | neverSubmitted => "opened but never submitted"
  | noOutput => "output was never initialized"

def malformed (routine : String) (m : Malformation) : Failure :=
  .of (.malformedRoutine routine m.message)

variable {I O : Type}

def BlockKind.label : BlockKind I → String
  | when _ => "if"
  | forEachKey _ => "for-each-key"
  | guard _ => "guard"

/-- A block that is still open, with what it holds so far. -/
structure Frame (I O : Type) where
  kind : BlockKind I
  first : Block I O := .done
  second : Option (Block I O) := none

namespace Frame

def push (b : Block I O) (f : Frame I O) : Frame I O :=
  match f.second with
  | some second => { f with second := some (second.append b) }
  | none => { f with first := f.first.append b }

def close (f : Frame I O) : Block I O :=
  match f.kind with
  | .when cond => .branch cond f.first (f.second.getD .done) .done
  | .forEachKey source => .forEachKey source f.first .done
  | .guard recover => .guard recover f.first .done

def startSecond (f : Frame I O) : Except Malformation (Frame I O) :=
  match f.kind, f.second with
  | .when _, none => .ok { f with second := some .done }
  | .when _, some _ => .error .secondOtherwise
  | _, _ => .error .otherwiseOutsideIf

end Frame

/-- Nests operations into the open blocks, innermost first, and the block around them all. -/
def nest : List (Op I O) → List (Frame I O) → Block I O → Except Malformation (Block I O)
  | [], [], body => .ok body
  | [], f :: _, _ => .error (.unclosed f.kind.label)
  | .emit s :: ops, [], body => nest ops [] (body.append (.step s .done))
  | .emit s :: ops, f :: stack, body => nest ops (f.push (.step s .done) :: stack) body
  | .opening kind :: ops, stack, body => nest ops ({ kind } :: stack) body
  | .otherwise :: _, [], _ => .error .otherwiseOutsideIf
  | .otherwise :: ops, f :: stack, body => do
    let f ← f.startSecond
    nest ops (f :: stack) body
  | .close :: _, [], _ => .error .closeWithoutOpening
  | .close :: ops, [f], body => nest ops [] (body.append f.close)
  | .close :: ops, f :: g :: stack, body => nest ops (g.push f.close :: stack) body

structure Code (I O : Type) where
  name : String
  slots : Nat
  body : Block I O
  finish : Finish I O
  reach : Nat

def Draft.lower (d : Draft I O) : Except Malformation (Code I O) :=
  match d.finish with
  | none => .error .noFinish
  | some finish => do
    let body ← nest d.ops [] .done
    .ok { name := d.name, slots := d.slots, body, finish, reach := d.reach }

/-- One run of a routine on fresh locals. -/
def Code.run (c : Code I O) (calls : Calls I O) (input : I) : Run O :=
  ExceptT.mk <|
    match c.body.run calls input { store := .ofSlots c.slots } with
    | some (.ok (), l) => some (c.finish input l)
    | some (.error e, _) => some (.error e)
    | none => none

end RecordCodec.Routine
