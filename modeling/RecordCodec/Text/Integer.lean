set_option autoImplicit false

/-!
# Integers in decimal notation

An optional sign and one or more ASCII digits, for integers of 64 bits with a sign.
-/
namespace RecordCodec.Text

def int64? (n : Int) : Option Int64 :=
  if -0x8000000000000000 ≤ n ∧ n < 0x8000000000000000 then some (Int64.ofInt n) else none

def digitsToNat? (s : List Char) : Option Nat :=
  if s.isEmpty || !s.all Char.isDigit then none else some (Nat.ofDigitChars 10 s 0)

def readInt? : List Char → Option Int
  | '-' :: digits => (digitsToNat? digits).map fun n => -(n : Int)
  | '+' :: digits => (digitsToNat? digits).map fun n => (n : Int)
  | digits => (digitsToNat? digits).map fun n => (n : Int)

def readInt64? (s : List Char) : Option Int64 := (readInt? s).bind int64?

end RecordCodec.Text
