import RecordCodec.Routine.Locals
import RecordCodec.Schema

set_option autoImplicit false

/-!
# Converters

A converter is the compiled form of one type and serves both directions. The one thing it leaves
open is a nested record: that is a call of another routine by its name.
-/
namespace RecordCodec

inductive ItemsForm where
  | list | set | tuple
deriving DecidableEq

/-- One arm of a union. A record arm compiles under a configuration of its own. -/
structure UnionArm where
  type : TypeExpr
  record : Option (String × Config)
  tag : Option String

namespace UnionArm

def label (arm : UnionArm) : String := arm.type.text

end UnionArm

/-- What is known of a union before any value comes: its discriminator key and its arms. -/
structure UnionPlan where
  union : String
  key : String
  arms : List UnionArm

namespace UnionPlan

def isTagged (plan : UnionPlan) : Bool := plan.arms.any fun arm => arm.tag.isSome

/-- No arm accepted the value, or its tag names none. -/
def failure (plan : UnionPlan) (tag : Option String) : Failure :=
  .of (.unionMatch plan.union (plan.arms.map UnionArm.label)
    (if plan.isTagged then some plan.key else none) tag)

end UnionPlan

inductive Converter where
  | scalar (p : Primitive)
  | optional (inner : Converter)
  | items (form : ItemsForm) (item : Converter)
  | tuple (parts : List Converter)
  | mapping (key item : Converter)
  | defaultMapping (key item : Converter) (default : Instance)
  | literal (values : List Json)
  | enumeration (e : EnumType)
  | record (routine : String)
  | union (plan : UnionPlan) (arms : List Converter)
  | custom (decode : Json → Except Failure Instance) (encode : Instance → Except Failure Json)

namespace ItemsForm

def expected : ItemsForm → String
  | list => "a list"
  | set => "a set"
  | tuple => "a tuple"

def unique (items : List Instance) : List Instance :=
  items.foldl (fun acc v => if Instance.contains acc v then acc else acc ++ [v]) []

def build : ItemsForm → List Instance → Instance
  | list, items => .seq items
  | set, items => .set (unique items)
  | tuple, items => .tuple items

end ItemsForm

namespace Converter

def tupleExpected (count : Nat) : String := "a tuple of " ++ toString count ++ " items"

/-- The text that stands for a literal where the input is a text. -/
def literalText : Json → String
  | .string s => s
  | .null => "None"
  | v => v.text

def literalExpected (values : List Json) : String :=
  "one of [" ++ String.intercalate ", " (values.map Json.text) ++ "]"

def enumExpected (e : EnumType) : String := "a \x60" ++ e.name ++ "\x60 value"

/-- The value that a mapping stands for at keys it does not hold. -/
def zeroOf : TypeExpr → Instance
  | ⟨.primitive .bool, _, _⟩ => .bool false
  | ⟨.primitive .int, _, _⟩ => .int 0
  | ⟨.primitive .float, _, _⟩ => .float (.finite (Binary64.zero false))
  | ⟨.primitive .str, _, _⟩ => .str ""
  | ⟨.primitive .bytes, _, _⟩ => .bytes []
  | ⟨.sequence, _, _⟩ => .seq []
  | ⟨.set, _, _⟩ => .set []
  | ⟨.variadicTuple, _, _⟩ => .tuple []
  | ⟨.mapping, _, _⟩ => .map []
  | ⟨.defaultMapping, _ :: value :: _, _⟩ => .defaultMap [] (zeroOf value)
  | ⟨.defaultMapping, _, _⟩ => .defaultMap [] .null
  | _ => .null

/-- Candidates that are preferred first, then the rest, each in their order. -/
def trialOrder {α : Type} (preferred : α → Bool) (candidates : List α) : List α :=
  candidates.filter preferred ++ candidates.filter fun c => !preferred c

end Converter
end RecordCodec
