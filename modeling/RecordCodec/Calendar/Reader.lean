import RecordCodec.Binary64.Decimal
import RecordCodec.Calendar.Time
import RecordCodec.Text.Split

set_option autoImplicit false

/-!
# Reading dates, times and spans

Dates and times are read field by field. A numeric field may have blanks before it and fewer digits
than its width; the strict form of a full instant allows neither. Spans are sums of weeks, days,
hours, minutes and seconds.
-/
namespace RecordCodec.Calendar

abbrev Scan (α : Type) := List Char → Option (α × List Char)

def digits (least most : Nat) : Scan Nat := fun s =>
  let found := (s.take most).takeWhile Char.isDigit
  if found.length < least then none
  else some (Binary64.digitsValue found, s.drop found.length)

def literal (c : Char) : Scan Unit
  | [] => none
  | d :: rest => if c = d then some ((), rest) else none

def field (width : Nat) : Scan Nat := fun s => digits 1 width (Text.trimStart s)

/-- A year may have a sign, and then any number of digits. -/
def yearField : Scan Int := fun s =>
  match Text.trimStart s with
  | '-' :: rest => (digits 1 rest.length rest).map fun (n, rest) => (-(n : Int), rest)
  | '+' :: rest => (digits 1 rest.length rest).map fun (n, rest) => ((n : Int), rest)
  | rest => (digits 1 4 rest).map fun (n, rest) => ((n : Int), rest)

/-- Nanoseconds after the point; digits past the ninth are passed over. -/
def fraction : Scan Nat := fun s => do
  let (n, rest) ← digits 1 9 s
  let width := s.length - rest.length
  some (n * Binary64.pow10 (9 - width), rest.dropWhile Char.isDigit)

def optionalFraction : Scan Nat
  | '.' :: rest => fraction rest
  | rest => some (0, rest)

def dateField : Scan Date := fun s => do
  let (year, s) ← yearField s
  let (_, s) ← literal '-' s
  let (month, s) ← field 2 s
  let (_, s) ← literal '-' s
  let (day, s) ← field 2 s
  let date ← Date.of? year month day
  some (date, s)

def minuteField : Scan Time := fun s => do
  let (hour, s) ← field 2 s
  let (_, s) ← literal ':' s
  let (minute, s) ← field 2 s
  let time ← Time.ofClock? hour minute 0 0
  some (time, s)

def secondField : Scan Time := fun s => do
  let (hour, s) ← field 2 s
  let (_, s) ← literal ':' s
  let (minute, s) ← field 2 s
  let (_, s) ← literal ':' s
  let (second, s) ← field 2 s
  let (nanos, s) ← optionalFraction s
  let time ← Time.ofClock? hour minute second nanos
  some (time, s)

def whole {α : Type} (scan : Scan α) (s : List Char) : Option α :=
  match scan s with
  | some (a, []) => some a
  | _ => none

def readDate? (s : List Char) : Option Date := whole dateField s

def readTime? (s : List Char) : Option Time :=
  (whole secondField s).or (whole minuteField s)

/-- Distance from UTC: `Z`, or a sign with hours and minutes. -/
def offsetField : Scan Int := fun s =>
  match s with
  | [] => none
  | sign :: rest =>
    if sign = 'Z' ∨ sign = 'z' then some (0, rest)
    else if sign = '+' ∨ sign = '-' ∨ sign = '−' then do
      let (hours, rest) ← digits 2 2 rest
      let (_, rest) ← literal ':' rest
      let (minutes, rest) ← digits 2 2 rest
      if minutes < 60 ∧ hours < 24 then
        let seconds : Int := hours * 3600 + minutes * 60
        some (if sign = '+' then seconds else -seconds, rest)
      else none
    else none

def fullInstant : Scan DateTime := fun s => do
  let (year, s) ← digits 4 4 s
  let (_, s) ← literal '-' s
  let (month, s) ← digits 2 2 s
  let (_, s) ← literal '-' s
  let (day, s) ← digits 2 2 s
  let (separator, s) ← s.head?.map fun c => (c, s.drop 1)
  let (hour, s) ← digits 2 2 s
  let (_, s) ← literal ':' s
  let (minute, s) ← digits 2 2 s
  let (_, s) ← literal ':' s
  let (second, s) ← digits 2 2 s
  let (nanos, s) ← optionalFraction s
  let (offset, s) ← offsetField s
  let date ← Date.of? year month day
  let time ← Time.ofClock? hour minute second nanos
  if separator = 'T' ∨ separator = 't' ∨ separator = ' ' then some (⟨date, time, offset⟩, s)
  else none

def readInstant? (s : List Char) : Option DateTime := whole fullInstant s

/-- A date and a time in UTC, with `between` scanning what stands between them. -/
def localField (between : Scan Unit) (time : Scan Time) : Scan DateTime := fun s => do
  let (date, s) ← dateField s
  let (_, s) ← between s
  let (t, s) ← time s
  some (⟨date, t, 0⟩, s)

/-- Every accepted way of writing an instant. Without a distance from UTC it is in UTC, and without
a time it is at midnight. -/
def readDateTime? (s : List Char) : Option DateTime :=
  (readInstant? s).or <|
  (whole (localField (literal 'T') secondField) s).or <|
  (whole (localField (fun s => some ((), Text.trimStart s)) secondField) s).or <|
  (whole (localField (literal 'T') minuteField) s).or <|
  (readDate? s).map fun date => ⟨date, .midnight, 0⟩

/-- The span of a number of seconds to the nearest microsecond, if 64 bits can count those. -/
def Span.ofSeconds? (seconds : Binary64.Finite) : Option Span := do
  let micros ← (seconds.timesNat 1000000).finite?
  let n := micros.roundAway
  if -0x8000000000000000 ≤ n ∧ n < 0x8000000000000000 then some ⟨n * 1000⟩ else none

def unitSeconds? (unit : Char) (inTime : Bool) : Option Nat :=
  match unit, inTime with
  | 'W', false => some 604800
  | 'D', false => some 86400
  | 'H', true => some 3600
  | 'M', true => some 60
  | 'S', true => some 1
  | _, _ => none

/-- Reads amounts with their units: `number` is the amount being read, in reverse, and `total` the
seconds so far, if any amount has been read. -/
def spanSeconds (inTime : Bool) (number : List Char) (total : Option Binary64.Finite) :
    List Char → Option Binary64.Finite
  | [] => if number.isEmpty then total else none
  | c :: rest =>
    let unit := c.toUpper
    if unit = 'T' ∧ number.isEmpty then spanSeconds true number total rest
    else if c.isDigit ∨ c = '.' then spanSeconds inTime (c :: number) total rest
    else if c = ',' then spanSeconds inTime ('.' :: number) total rest
    else do
      let amount ← (Binary64.read? number.reverse).bind Binary64.finite?
      let scale ← unitSeconds? unit inTime
      let seconds ← (amount.timesNat scale).finite?
      let sum ← ((total.getD (Binary64.zero false)).plus seconds).finite?
      spanSeconds inTime [] (some sum) rest

def readSpan? (s : List Char) : Option Span := do
  let (negative, rest) := match s with
    | '-' :: rest => (true, rest)
    | rest => (false, rest)
  match rest with
  | c :: rest =>
    if c = 'P' ∨ c = 'p' then
      let seconds ← spanSeconds false [] none rest
      let span ← Span.ofSeconds? seconds
      some (if negative then ⟨-span.nanos⟩ else span)
    else none
  | [] => none

end RecordCodec.Calendar
