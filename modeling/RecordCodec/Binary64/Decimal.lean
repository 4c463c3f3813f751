import RecordCodec.Binary64.Basic

set_option autoImplicit false

/-!
# Decimal notation of binary numbers

Reading rounds the written decimal to the nearest number. Writing gives the fewest digits that
read back as the number, and of these the ones nearest to it.
-/
namespace RecordCodec.Binary64

/-- The number nearest to `digits * 10^scale`. Far outside the range the power is not computed. -/
def ofDecimal (negative : Bool) (digits : Nat) (scale : Int) : Binary64 :=
  if digits = 0 then .finite (zero negative)
  else
    let magnitude : Int := (Nat.toDigits 10 digits).length + scale
    if 400 < magnitude then .infinite negative
    else if magnitude < -400 then .finite (zero negative)
    else roundQuotient negative (digits * pow10 scale.toNat) (pow10 (-scale).toNat)

def digitsValue (s : List Char) : Nat := s.foldl (fun n c => n * 10 + (c.toNat - 48)) 0

/-- Digits with an optional point, and at least one digit before or after it. -/
def mantissa? (s : List Char) : Option (Nat × Int × List Char) :=
  let whole := s.takeWhile Char.isDigit
  let rest := s.dropWhile Char.isDigit
  let (fraction, rest) := match rest with
    | '.' :: r => (r.takeWhile Char.isDigit, r.dropWhile Char.isDigit)
    | r => ([], r)
  if whole.isEmpty && fraction.isEmpty then none
  else some (digitsValue (whole ++ fraction), -(fraction.length : Int), rest)

def signed (s : List Char) : Bool × List Char :=
  match s with
  | '-' :: r => (true, r)
  | '+' :: r => (false, r)
  | r => (false, r)

/-- Value of an optional exponent that takes up the whole of the text. -/
def exponent? : List Char → Option Int
  | [] => some 0
  | c :: r =>
    if c = 'e' ∨ c = 'E' then
      let (negative, digits) := signed r
      if digits.isEmpty || !digits.all Char.isDigit then none
      else some (if negative then -(digitsValue digits : Int) else digitsValue digits)
    else none

/-- A number in decimal notation, or the name of infinity or not-a-number in any case. -/
def read? (s : List Char) : Option Binary64 :=
  let (negative, body) := signed s
  let name := String.ofList (body.map Char.toLower)
  if name = "inf" ∨ name = "infinity" then some (.infinite negative)
  else if name = "nan" then some .nan
  else do
    let (digits, scale, rest) ← mantissa? body
    let exponent ← exponent? rest
    some (ofDecimal negative digits (scale + exponent))

/-- The decimal exponent of the first digit of `mant * 2^exp`. -/
def leadingExp (mant : Nat) (exp : Int) : Int :=
  let guess := Int.fdiv (((mant.log2 : Int) + exp) * 30103) 100000
  let reaches (t : Int) : Bool :=
    pow10 t.toNat * pow2 (-exp).toNat ≤ mant * pow2 exp.toNat * pow10 (-t).toNat
  if reaches (guess + 1) then guess + 1 else if reaches guess then guess else guess - 1

/-- A multiple `c` of `10^k` that reads back as `mant * 2^exp`: of its two neighbours on that grid
the nearer one that lies between the midpoints to the next numbers, the even one of two equally
near. The midpoints themselves count if the mantissa is even. -/
def gridPoint? (mant : Nat) (exp k : Int) : Option Nat :=
  let a := pow2 (exp - 2).toNat * pow10 (-k).toNat
  let b := pow10 k.toNat * pow2 (2 - exp).toNat
  let value := 4 * mant * a
  let low := (if mant = 0x10000000000000 ∧ -1074 < exp then 4 * mant - 1 else 4 * mant - 2) * a
  let high := (4 * mant + 2) * a
  let inside (c : Nat) : Bool :=
    if mant % 2 = 0 then low ≤ c * b && c * b ≤ high else low < c * b && c * b < high
  let c := value / b
  match inside c, inside (c + 1) with
  | false, false => none
  | true, false => some c
  | false, true => some (c + 1)
  | true, true =>
    let below := value - c * b
    let above := (c + 1) * b - value
    if below < above ∨ (below = above ∧ c % 2 = 0) then some c else some (c + 1)

/-- The same decimal without a zero at its end. A number just below a power of ten may be written
as that power, which is ten units of the coarsest grid. -/
def withoutZero (c : Nat) (k : Int) : Nat × Int := if c % 10 = 0 then (c / 10, k + 1) else (c, k)

/-- The fewest decimal digits that read back, with the exponent of the last of them. -/
def Finite.shortest (x : Finite) : Nat × Int :=
  if x.mant = 0 then (0, 0)
  else
    let top := leadingExp x.mant x.exp
    let found := (List.range 17).findSome? fun (n : Nat) =>
      (gridPoint? x.mant x.exp (top - n)).map fun c => withoutZero c (top - n)
    found.getD (x.mant, 0)

end RecordCodec.Binary64
