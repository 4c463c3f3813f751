import RecordCodec.Assoc
import RecordCodec.Binary64.Basic

set_option autoImplicit false

/-!
# JSON values

Numbers are whole numbers of 64 bits, signed or not, or finite binary numbers, and a whole number
is never equal to a binary one. Members of an object keep the order in which their keys came.
-/
namespace RecordCodec

def Json.WholeRange (n : Int) : Prop := -0x8000000000000000 ≤ n ∧ n < 0x10000000000000000

instance (n : Int) : Decidable (Json.WholeRange n) := inferInstanceAs (Decidable (_ ∧ _))

structure Json.Whole where
  val : Int
  inRange : Json.WholeRange val
deriving DecidableEq

inductive Json.Number where
  | whole (n : Json.Whole)
  | float (x : Binary64.Finite)
deriving DecidableEq

inductive Json where
  | null
  | bool (b : Bool)
  | number (n : Json.Number)
  | string (s : String)
  | array (items : List Json)
  | object (members : List (String × Json))
deriving Inhabited

namespace Json

namespace Number

def same : Number → Number → Bool
  | .whole a, .whole b => a == b
  | .float a, .float b => a.same b
  | _, _ => false

def toBinary64 : Number → Binary64
  | .whole n => .ofInt n.val
  | .float x => .finite x

/-- The value, for a whole number that fits 64 bits with a sign. -/
def toInt64? : Number → Option Int64
  | .whole n => if n.val < 0x8000000000000000 then some (Int64.ofInt n.val) else none
  | .float _ => none

end Number

theorem wholeRange_int64 (n : Int64) : WholeRange n.toInt :=
  ⟨by have := n.le_toInt; omega, by have := n.toInt_lt; omega⟩

def ofInt64 (n : Int64) : Json := .number (.whole ⟨n.toInt, wholeRange_int64 n⟩)

/-- A whole number; one outside the range becomes the nearest binary number. -/
def ofInt (n : Int) : Json :=
  if h : WholeRange n then .number (.whole ⟨n, h⟩)
  else match Binary64.ofInt n with
    | .finite x => .number (.float x)
    | _ => .null

/-- Infinities and not-a-number have no JSON form and become null. -/
def ofBinary64 : Binary64 → Json
  | .finite x => .number (.float x)
  | _ => .null

mutual
/-- Equality of values. The order of the members of an object does not matter. -/
def same : Json → Json → Bool
  | .null, .null => true
  | .bool a, .bool b => a == b
  | .number a, .number b => a.same b
  | .string a, .string b => a == b
  | .array a, .array b => sameItems a b
  | .object a, .object b => a.length == b.length && sameMembers a b
  | _, _ => false
def sameItems : List Json → List Json → Bool
  | [], [] => true
  | a :: as, b :: bs => same a b && sameItems as bs
  | _, _ => false
def sameMembers : List (String × Json) → List (String × Json) → Bool
  | [], _ => true
  | (key, a) :: rest, b =>
    (match Assoc.get? key b with
      | some v => same a v
      | none => false) && sameMembers rest b
end

mutual
def depth : Json → Nat
  | .array items => depthItems items + 1
  | .object members => depthMembers members + 1
  | _ => 0
def depthItems : List Json → Nat
  | [] => 0
  | v :: rest => max (depth v) (depthItems rest)
def depthMembers : List (String × Json) → Nat
  | [] => 0
  | (_, v) :: rest => max (depth v) (depthMembers rest)
end

mutual
/-- How many values an array or object holds, those inside one another included. Every part of a
value weighs less than the value, and so does an object with some of its members left out. -/
def weight : Json → Nat
  | .array items => weightItems items
  | .object members => weightMembers members
  | _ => 0
def weightItems : List Json → Nat
  | [] => 0
  | v :: rest => weight v + 1 + weightItems rest
def weightMembers : List (String × Json) → Nat
  | [] => 0
  | (_, v) :: rest => weight v + 1 + weightMembers rest
end

def isNull : Json → Bool
  | .null => true
  | _ => false

def string? : Json → Option String
  | .string s => some s
  | _ => none

def get? (key : String) : Json → Option Json
  | .object members => Assoc.get? key members
  | _ => none

def item? (index : Nat) : Json → Option Json
  | .array items => items[index]?
  | _ => none

def keys : Json → List String
  | .object members => Assoc.keys members
  | _ => []

def ofMembers (members : List (String × Json)) : Json := .object (Assoc.ofList members)

def contains (values : List Json) (v : Json) : Bool := values.any fun w => same w v

end Json
end RecordCodec
