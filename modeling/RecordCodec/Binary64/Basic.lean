set_option autoImplicit false

/-!
# Numbers of the 64-bit binary format

A finite number is `(-1)^negative * mant * 2^exp` in the one canonical form of its value. Every
operation computes the exact quotient of two naturals first and rounds it once, to the nearest
number and to the even one of two equally near.
-/
namespace RecordCodec

/-- The mantissa has at most 53 bits, and has all 53 unless the exponent is the least one. -/
def Binary64.Canonical (mant : Nat) (exp : Int) : Prop :=
  mant < 0x20000000000000 ∧ -1074 ≤ exp ∧ exp ≤ 971 ∧ (exp = -1074 ∨ 0x10000000000000 ≤ mant)

instance (mant : Nat) (exp : Int) : Decidable (Binary64.Canonical mant exp) :=
  inferInstanceAs (Decidable (_ ∧ _ ∧ _ ∧ _))

structure Binary64.Finite where
  negative : Bool
  mant : Nat
  exp : Int
  canonical : Binary64.Canonical mant exp
deriving DecidableEq

inductive Binary64 where
  | finite (x : Binary64.Finite)
  | infinite (negative : Bool)
  | nan
deriving DecidableEq

namespace Binary64

def pow2 (n : Nat) : Nat := Nat.pow 2 n

def pow10 (n : Nat) : Nat := Nat.pow 10 n

def zero (negative : Bool) : Finite := ⟨negative, 0, -1074, by decide⟩

instance : Inhabited Finite := ⟨zero false⟩

namespace Finite

def isZero (x : Finite) : Bool := x.mant == 0

/-- Signed numerator of the value over `x.denominator`. -/
def numerator (x : Finite) : Int :=
  let n : Int := (x.mant * pow2 x.exp.toNat : Nat)
  if x.negative then -n else n

def denominator (x : Finite) : Nat := pow2 (-x.exp).toNat

/-- Equality of values: the two zeros are equal. -/
def same (x y : Finite) : Bool := (x.isZero && y.isZero) || x == y

def floor (x : Finite) : Int := Int.fdiv x.numerator x.denominator

def toInt? (x : Finite) : Option Int :=
  if x.numerator % x.denominator = 0 then some (x.numerator / x.denominator) else none

/-- The nearest integer, halves going away from zero. -/
def roundAway (x : Finite) : Int :=
  let n : Int := (2 * x.numerator.natAbs + x.denominator) / (2 * x.denominator)
  if x.negative then -n else n

end Finite

/-- The number of this canonical form, or infinity if the exponent is too great for one. -/
def pack (negative : Bool) (mant : Nat) (exp : Int) : Binary64 :=
  if h : Canonical mant exp then .finite ⟨negative, mant, exp, h⟩ else .infinite negative

def roundHalfEven (num den : Nat) : Nat :=
  let q := num / den
  let r := num % den
  if den < 2 * r ∨ (2 * r = den ∧ q % 2 = 1) then q + 1 else q

/-- The exponent under which `num / den` has 53 bits before the point, or the least exponent. -/
def quotientExp (num den : Nat) : Int :=
  let e : Int := max (-1074) ((num.log2 : Int) - den.log2 - 52)
  let mant := num * pow2 (-e).toNat / (den * pow2 e.toNat)
  if mant < 0x10000000000000 ∧ -1074 < e then e - 1 else e

/-- The number nearest to `num / den`. -/
def roundQuotient (negative : Bool) (num den : Nat) : Binary64 :=
  if num = 0 then .finite (zero negative)
  else
    let e := quotientExp num den
    let mant := roundHalfEven (num * pow2 (-e).toNat) (den * pow2 e.toNat)
    if mant = 0x20000000000000 then pack negative 0x10000000000000 (e + 1)
    else pack negative mant e

def ofRatio (num : Int) (den : Nat) : Binary64 := roundQuotient (num < 0) num.natAbs den

def ofInt (n : Int) : Binary64 := ofRatio n 1

def finite? : Binary64 → Option Finite
  | .finite x => some x
  | _ => none

/-- Equality of values; not-a-number differs from everything. -/
def same : Binary64 → Binary64 → Bool
  | .finite x, .finite y => x.same y
  | .infinite a, .infinite b => a == b
  | _, _ => false

def Finite.plus (x y : Finite) : Binary64 :=
  ofRatio (x.numerator * y.denominator + y.numerator * x.denominator)
    (x.denominator * y.denominator)

def Finite.timesNat (x : Finite) (n : Nat) : Binary64 :=
  roundQuotient x.negative (x.numerator.natAbs * n) x.denominator

def Finite.overNat (x : Finite) (n : Nat) : Binary64 :=
  roundQuotient x.negative x.numerator.natAbs (x.denominator * n)

def Finite.minusInt (x : Finite) (n : Int) : Binary64 :=
  ofRatio (x.numerator - n * x.denominator) x.denominator

end Binary64
end RecordCodec
