import RecordCodec.Schema

set_option autoImplicit false

/-!
# Names of routines

A routine is known by its record, its configuration and its direction, and within a session by a
name. The first routine of a record has the plain name, later ones are numbered.
-/
namespace RecordCodec.Compile

inductive Direction where
  | decode | encode
deriving DecidableEq

def Direction.name : Direction → String
  | decode => "decode"
  | encode => "encode"

structure RoutineKey where
  record : String
  config : Config
  direction : Direction
deriving DecidableEq

structure FieldSite where
  record : String
  field : String
  discriminator : Option String
deriving DecidableEq

/-- How often each plain name was asked for. -/
structure NameScope where
  counts : List (String × Nat) := []

namespace NameScope

def plainName (direction : Direction) (record : String) : String :=
  direction.name ++ "::" ++ record

def numbered (base : String) (n : Nat) : String :=
  if n = 1 then base else base ++ "#" ++ toString n

def count (base : String) (s : NameScope) : Nat := (Assoc.get? base s.counts).getD 0

def fresh (direction : Direction) (record : String) (s : NameScope) : String × NameScope :=
  let base := plainName direction record
  let n := s.count base + 1
  (numbered base n, { counts := Assoc.insert base n s.counts })

def label (record field : String) : String := record ++ "." ++ field

end NameScope

/-- The routines that are being compiled, outermost first. A nested record whose key is among them
is referred to by name and not compiled again. -/
structure RecursionGuard where
  active : List (RoutineKey × String) := []

namespace RecursionGuard

def enter (key : RoutineKey) (name : String) (g : RecursionGuard) : RecursionGuard :=
  { active := g.active ++ [(key, name)] }

/-- Entries, innermost first, without the first one for the key. -/
def dropInnermost (key : RoutineKey) : List (RoutineKey × String) → List (RoutineKey × String)
  | [] => []
  | e :: rest => if e.1 = key then rest else e :: dropInnermost key rest

def leave (key : RoutineKey) (g : RecursionGuard) : RecursionGuard :=
  { active := (dropInnermost key g.active.reverse).reverse }

def name? (key : RoutineKey) (g : RecursionGuard) : Option String := Assoc.get? key g.active

end RecursionGuard

/-- The discriminator key that a record reads past and, as an arm of a union, writes. -/
def tagKeyOf? (record : RecordType) (config : Config) : Option String :=
  match config.tagKey? with
  | some key => some key
  | none => (record.tagUnder config).map fun _ => Config.defaultTagKey

end RecordCodec.Compile
