import RecordCodec.Binary64.Basic

set_option autoImplicit false

/-!
# Scaling by powers of ten

A number is scaled by the number nearest to a power of ten, and the outcome is rounded once more.
So a scaled number is close to the exact decimal, but not always the number nearest to it. Powers
beyond the range are taken in several steps.
-/
namespace RecordCodec.Binary64

def Finite.times (x y : Finite) : Binary64 :=
  roundQuotient (x.negative != y.negative) (x.numerator.natAbs * y.numerator.natAbs)
    (x.denominator * y.denominator)

def Finite.quotient (x y : Finite) : Binary64 :=
  if y.isZero then if x.isZero then .nan else .infinite (x.negative != y.negative)
  else roundQuotient (x.negative != y.negative) (x.numerator.natAbs * y.denominator)
    (x.denominator * y.numerator.natAbs)

def maxPower : Nat := 308

def powerOfTen (n : Nat) : Binary64 := ofInt (pow10 n)

def Finite.scaleUp (x : Finite) (n : Nat) : Binary64 :=
  if x.isZero then .finite x
  else if n ≤ maxPower then ((powerOfTen n).finite?.map x.times).getD (.infinite x.negative)
  else .infinite x.negative

def Finite.overPower (x : Finite) (n : Nat) : Binary64 :=
  ((powerOfTen n).finite?.map x.quotient).getD (.finite x)

/-- The quotient by the greatest power of ten, a number of times, and then by a last one. -/
def Finite.scaleDownIn : Nat → Nat → Finite → Binary64
  | 0, last, x => x.overPower last
  | steps + 1, last, x =>
    if x.isZero then .finite x
    else match x.overPower maxPower with
      | .finite y => scaleDownIn steps last y
      | y => y

def Finite.scaleDown (x : Finite) (n : Nat) : Binary64 :=
  let steps := (n - 1) / maxPower
  x.scaleDownIn steps (n - steps * maxPower)

def scaled (negative : Bool) (digits : Nat) (exponent : Int) : Binary64 :=
  match roundQuotient negative digits 1 with
  | .finite x => if 0 ≤ exponent then x.scaleUp exponent.toNat else x.scaleDown exponent.natAbs
  | x => x

end RecordCodec.Binary64
