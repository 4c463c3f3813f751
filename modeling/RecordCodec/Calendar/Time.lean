import RecordCodec.Calendar.Date

set_option autoImplicit false

/-!
# Times of day, instants and spans

A leap second is the last second of its minute with more than a thousand million nanoseconds. Two
instants are equal if they are the same point in time, whatever their distance from UTC.
-/
namespace RecordCodec.Calendar

def secondsPerDay : Nat := 86400

def ValidTime (seconds nanos : Nat) : Prop :=
  seconds < 86400 ∧ nanos < 2000000000 ∧ (nanos < 1000000000 ∨ seconds % 60 = 59)

instance (seconds nanos : Nat) : Decidable (ValidTime seconds nanos) :=
  inferInstanceAs (Decidable (_ ∧ _ ∧ _))

/-- Seconds since midnight, with nanoseconds. -/
structure Time where
  seconds : Nat
  nanos : Nat
  valid : ValidTime seconds nanos
deriving DecidableEq

namespace Time

def ofSeconds? (seconds nanos : Nat) : Option Time :=
  if h : ValidTime seconds nanos then some ⟨seconds, nanos, h⟩ else none

/-- The time that a clock shows; the sixtieth second is a leap second. -/
def ofClock? (hour minute second nanos : Nat) : Option Time :=
  if hour < 24 ∧ minute < 60 ∧ second ≤ 60 ∧ nanos < 1000000000 then
    if second = 60 then ofSeconds? (hour * 3600 + minute * 60 + 59) (nanos + 1000000000)
    else ofSeconds? (hour * 3600 + minute * 60 + second) nanos
  else none

def midnight : Time := ⟨0, 0, by decide⟩

def fractionChars (nanos : Nat) : List Char :=
  if nanos = 0 then []
  else if nanos % 1000000 = 0 then '.' :: padded 3 (nanos / 1000000)
  else if nanos % 1000 = 0 then '.' :: padded 6 (nanos / 1000)
  else '.' :: padded 9 nanos

def chars (t : Time) : List Char :=
  let leap := 1000000000 ≤ t.nanos
  let second := t.seconds % 60 + (if leap then 1 else 0)
  let nanos := if leap then t.nanos - 1000000000 else t.nanos
  padded 2 (t.seconds / 3600) ++ ':' :: padded 2 (t.seconds / 60 % 60) ++
    ':' :: padded 2 second ++ fractionChars nanos

def text (t : Time) : String := String.ofList t.chars

end Time

/-- A date and a time at a place that is `offset` seconds ahead of UTC. -/
structure DateTime where
  date : Date
  time : Time
  offset : Int
deriving DecidableEq

namespace DateTime

/-- Seconds since the beginning of 1970 in UTC, with nanoseconds. -/
def instant (t : DateTime) : Int × Nat :=
  (t.date.dayNumber * secondsPerDay + t.time.seconds - t.offset, t.time.nanos)

def same (a b : DateTime) : Bool := a.instant == b.instant

def ofTimestamp? (seconds : Int) (nanos : Nat) : Option DateTime := do
  let date ← Date.ofDayNumber? (Int.fdiv seconds secondsPerDay)
  let time ← Time.ofSeconds? (Int.fmod seconds secondsPerDay).toNat nanos
  some ⟨date, time, 0⟩

def offsetChars (offset : Int) : List Char :=
  let minutes := offset.natAbs / 60
  (if offset < 0 then '-' else '+') :: padded 2 (minutes / 60) ++ ':' :: padded 2 (minutes % 60)

def text (t : DateTime) : String :=
  String.ofList (t.date.chars ++ 'T' :: t.time.chars ++ offsetChars t.offset)

end DateTime

/-- A span of time in nanoseconds. -/
structure Span where
  nanos : Int
deriving DecidableEq

end RecordCodec.Calendar
