import RecordCodec.Calendar.Reader
import RecordCodec.Converter.Basic

set_option autoImplicit false

/-!
# Conversion of scalars

Texts are accepted for most scalars, so that flat maps of texts can be decoded. Numbers stand for
seconds where a date or a time is expected.
-/
namespace RecordCodec.Scalar

abbrev Decoded := Except Failure Instance

def refuse {α : Type} (expected : String) (v : Json) : Except Failure α :=
  .error (.invalid expected v)

def orRefuse {α : Type} (expected : String) (v : Json) (make : α → Instance) :
    Option α → Decoded
  | some a => .ok (make a)
  | none => refuse expected v

def trimmedChars (s : String) : List Char := Text.trim s.toList

def trueWords : List String := ["true", "yes", "on", "1", "y", "t"]

def falseWords : List String := ["false", "no", "off", "0", "n", "f"]

def readBool? (s : String) : Option Bool :=
  let word := String.ofList ((trimmedChars s).map Char.toLower)
  if trueWords.contains word then some true
  else if falseWords.contains word then some false
  else none

def bool? : Json → Option Bool
  | .bool b => some b
  | .string s => readBool? s
  | _ => none

/-- A number that is an integer of 64 bits, however it is written. -/
def integer? (n : Json.Number) : Option Int64 :=
  match n.toInt64? with
  | some i => some i
  | none => (n.toBinary64.finite?.bind Binary64.Finite.toInt?).bind Text.int64?

/-- Underscores may group the digits of a text. -/
def int? : Json → Option Int64
  | .number n => integer? n
  | .string s => Text.readInt64? ((trimmedChars s).filter (· != '_'))
  | _ => none

/-- A number, or a text that is one. -/
def number? : Json → Option Binary64
  | .number n => some n.toBinary64
  | .string s => Binary64.read? (trimmedChars s)
  | _ => none

def octet? : Json → Option UInt8
  | .number (.whole n) => if 0 ≤ n.val ∧ n.val < 256 then some (UInt8.ofNat n.val.toNat) else none
  | _ => none

def decodeBytes (v : Json) : Decoded :=
  match v with
  | .string s => orRefuse "base64 text" v .bytes (Text.Base64.decode (trimmedChars s))
  | .array items => orRefuse "an array of octets" v .bytes (items.mapM octet?)
  | _ => refuse "base64 text" v

/-- Whole seconds and the rest in nanoseconds, at most the last one before the next second. -/
def splitSeconds (x : Binary64.Finite) : Int × Nat :=
  let nanos := ((x.minusInt x.floor).finite?.bind fun rest => (rest.timesNat 1000000000).finite?)
  (x.floor, min ((nanos.map fun n => n.roundAway.toNat).getD 0) 999999999)

def seconds? (v : Json) : Option Binary64.Finite := (number? v).bind Binary64.finite?

def dateTime? (v : Json) : Option Calendar.DateTime :=
  (v.string?.bind fun s => Calendar.readDateTime? (trimmedChars s)).or do
    let (whole, nanos) := splitSeconds (← seconds? v)
    Calendar.DateTime.ofTimestamp? whole nanos

def date? (v : Json) : Option Calendar.Date :=
  (v.string?.bind fun s => Calendar.readDate? (trimmedChars s)).or
    ((dateTime? v).map Calendar.DateTime.date)

def time? (v : Json) : Option Calendar.Time :=
  (v.string?.bind fun s => Calendar.readTime? (trimmedChars s)).or do
    let (whole, nanos) := splitSeconds (← seconds? v)
    if 0 ≤ whole then Calendar.Time.ofSeconds? whole.toNat nanos else none

def span? (v : Json) : Option Calendar.Span :=
  (v.string?.bind fun s => Calendar.readSpan? (trimmedChars s)).or
    ((seconds? v).bind Calendar.Span.ofSeconds?)

def decode (p : Primitive) (v : Json) : Decoded :=
  match p with
  | .null => if v.isNull then .ok .null else refuse "null" v
  | .bool => orRefuse "a boolean" v .bool (bool? v)
  | .int => orRefuse "an integer" v .int (int? v)
  | .float => orRefuse "a number" v .float (number? v)
  | .str => orRefuse "a string" v .str v.string?
  | .bytes => decodeBytes v
  | .date => orRefuse "an ISO-8601 date" v .date (date? v)
  | .time => orRefuse "an ISO-8601 time" v .time (time? v)
  | .dateTime => orRefuse "an ISO-8601 datetime or timestamp" v .dateTime (dateTime? v)
  | .duration => orRefuse "seconds or an ISO-8601 duration" v .duration (span? v)
  | .any => .ok (.dynamic v)

/-- An instance of the kind that the type has; a float position takes an integer as well. -/
def encode (p : Primitive) (v : Instance) : Except Failure Json :=
  match p, v with
  | .any, v => .ok v.toJson
  | .null, .null => .ok .null
  | .bool, .bool b => .ok (.bool b)
  | .int, .int n => .ok (.ofInt64 n)
  | .float, .float x => .ok (.ofBinary64 x)
  | .float, .int n => .ok (.ofInt64 n)
  | .str, .str s => .ok (.string s)
  | .bytes, .bytes octets => .ok (.string (String.ofList (Text.Base64.encode octets)))
  | .date, .date d => .ok (.string d.text)
  | .time, .time t => .ok (.string t.text)
  | .dateTime, .dateTime t => .ok (.string t.text)
  | .duration, .duration d => .ok d.toJson
  | p, v => refuse p.name v.toJson

end RecordCodec.Scalar
