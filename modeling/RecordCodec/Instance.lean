import RecordCodec.Calendar.Time
import RecordCodec.Json.Printer
import RecordCodec.Text.Base64
import RecordCodec.Text.Integer

set_option autoImplicit false

/-!
# Instances

An instance is the typed side of a conversion: what a decoder makes of a JSON value and what an
encoder turns back into one. Every instance also has a plain JSON rendering that needs no type.
-/
namespace RecordCodec

structure EnumValue where
  type : String
  variant : String
  value : Json
deriving Inhabited

inductive Instance where
  | null
  | bool (b : Bool)
  | int (n : Int64)
  | float (x : Binary64)
  | str (s : String)
  | bytes (octets : List UInt8)
  | date (d : Calendar.Date)
  | time (t : Calendar.Time)
  | dateTime (t : Calendar.DateTime)
  | duration (d : Calendar.Span)
  /-- A value of an untyped position, kept as it is. -/
  | dynamic (v : Json)
  | enumeration (e : EnumValue)
  | seq (items : List Instance)
  /-- The elements are pairwise different and in order of first appearance. -/
  | set (items : List Instance)
  | tuple (items : List Instance)
  | map (entries : List (Instance × Instance))
  /-- A mapping that stands for `default` at every key it does not hold. -/
  | defaultMap (entries : List (Instance × Instance)) (default : Instance)
  | record (type : String) (fields : List (String × Instance))
deriving Inhabited

namespace Calendar.Span

def seconds (d : Span) : Int := d.nanos.tdiv 1000000000

def micros (d : Span) : Int := d.nanos.tdiv 1000

/-- The seconds of a span, to the microsecond if 64 bits can count the microseconds. -/
def toJson (d : Span) : Json :=
  if (Text.int64? d.micros).isSome then
    if d.micros % 1000000 = 0 then .ofInt (d.micros / 1000000)
    else match Binary64.ofInt d.micros with
      | .finite x => .ofBinary64 (x.overNat 1000000)
      | _ => .null
  else .ofInt d.seconds

end Calendar.Span

namespace Instance

def isNull : Instance → Bool
  | null => true
  | _ => false

def kindName : Instance → String
  | null => "None"
  | bool _ => "bool"
  | int _ => "int"
  | float _ => "float"
  | str _ => "str"
  | bytes _ => "bytes"
  | date _ => "date"
  | time _ => "time"
  | dateTime _ => "datetime"
  | duration _ => "timedelta"
  | dynamic _ => "Any"
  | enumeration e => e.type
  | seq _ => "list"
  | set _ => "set"
  | tuple _ => "tuple"
  | map _ => "dict"
  | defaultMap _ _ => "defaultdict"
  | record type _ => type

def keyText : Json → String
  | .string s => s
  | v => v.text

mutual
def toJson : Instance → Json
  | null => .null
  | bool b => .bool b
  | int n => .ofInt64 n
  | float x => .ofBinary64 x
  | str s => .string s
  | bytes octets => .string (String.ofList (Text.Base64.encode octets))
  | date d => .string d.text
  | time t => .string t.text
  | dateTime t => .string t.text
  | duration d => d.toJson
  | dynamic v => v
  | enumeration e => e.value
  | seq items => .array (itemsToJson items)
  | set items => .array (itemsToJson items)
  | tuple items => .array (itemsToJson items)
  | map entries => .ofMembers (entriesToJson entries)
  | defaultMap entries _ => .ofMembers (entriesToJson entries)
  | record _ fields => .ofMembers (fieldsToJson fields)
def itemsToJson : List Instance → List Json
  | [] => []
  | v :: rest => toJson v :: itemsToJson rest
def entriesToJson : List (Instance × Instance) → List (String × Json)
  | [] => []
  | (k, v) :: rest => (keyText (toJson k), toJson v) :: entriesToJson rest
def fieldsToJson : List (String × Instance) → List (String × Json)
  | [] => []
  | (name, v) :: rest => (name, toJson v) :: fieldsToJson rest
end

def keyString (v : Instance) : String := keyText v.toJson

mutual
/-- Equality of instances. The order of the fields of a record does not matter. -/
def same : Instance → Instance → Bool
  | null, null => true
  | bool a, bool b => a == b
  | int a, int b => a == b
  | float a, float b => a.same b
  | str a, str b => a == b
  | bytes a, bytes b => a == b
  | date a, date b => a == b
  | time a, time b => a == b
  | dateTime a, dateTime b => a.same b
  | duration a, duration b => a == b
  | dynamic a, dynamic b => a.same b
  | enumeration a, enumeration b =>
    a.type == b.type && a.variant == b.variant && a.value.same b.value
  | seq a, seq b => sameItems a b
  | set a, set b => sameItems a b
  | tuple a, tuple b => sameItems a b
  | map a, map b => sameEntries a b
  | defaultMap a x, defaultMap b y => sameEntries a b && same x y
  | record s a, record t b => s == t && a.length == b.length && sameFields a b
  | _, _ => false
def sameItems : List Instance → List Instance → Bool
  | [], [] => true
  | a :: as, b :: bs => same a b && sameItems as bs
  | _, _ => false
def sameEntries : List (Instance × Instance) → List (Instance × Instance) → Bool
  | [], [] => true
  | (k, v) :: as, (l, w) :: bs => same k l && same v w && sameEntries as bs
  | _, _ => false
def sameFields : List (String × Instance) → List (String × Instance) → Bool
  | [], _ => true
  | (name, v) :: rest, b =>
    (match Assoc.get? name b with
      | some w => same v w
      | none => false) && sameFields rest b
end

mutual
def depth : Instance → Nat
  | seq items => depthItems items + 1
  | set items => depthItems items + 1
  | tuple items => depthItems items + 1
  | map entries => depthEntries entries + 1
  | defaultMap entries _ => depthEntries entries + 1
  | record _ fields => depthFields fields + 1
  | _ => 0
def depthItems : List Instance → Nat
  | [] => 0
  | v :: rest => max (depth v) (depthItems rest)
def depthEntries : List (Instance × Instance) → Nat
  | [] => 0
  | (k, v) :: rest => max (max (depth k) (depth v)) (depthEntries rest)
def depthFields : List (String × Instance) → Nat
  | [] => 0
  | (_, v) :: rest => max (depth v) (depthFields rest)
end

def items? : Instance → Option (List Instance)
  | seq items | set items | tuple items => some items
  | _ => none

def entries? : Instance → Option (List (Instance × Instance))
  | map entries | defaultMap entries _ => some entries
  | _ => none

/-- The value of a mapping at the first key of this text. -/
def mapGet? (key : String) (v : Instance) : Option Instance := do
  let entries ← v.entries?
  let (_, value) ← entries.find? fun (k, _) => k.keyString == key
  some value

def field? (name : String) : Instance → Option Instance
  | record _ fields => Assoc.get? name fields
  | _ => none

def contains (items : List Instance) (v : Instance) : Bool := items.any fun w => same w v

/-- The typed view of a JSON scalar; arrays and objects stay as they are. -/
def ofScalar : Json → Instance
  | .null => null
  | .bool b => bool b
  | .number n =>
    match n.toInt64? with
    | some i => int i
    | none => float n.toBinary64
  | .string s => str s
  | v => dynamic v

/-- A record whose fields are given one after another; the last one under a name wins. -/
def ofFields (type : String) (fields : List (String × Instance)) : Instance :=
  record type (Assoc.ofList fields)

end Instance
end RecordCodec
