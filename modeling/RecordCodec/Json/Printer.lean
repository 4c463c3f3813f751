import RecordCodec.Json.Basic
import RecordCodec.Binary64.Decimal

set_option autoImplicit false

/-!
# JSON text

Compact text has no blanks; indented text puts every member and element on a line of its own. A
binary number always shows that it is one, by a fraction or by an exponent.
-/
namespace RecordCodec.Json

def escapeChar (c : Char) : List Char :=
  if c = '"' then ['\\', '"']
  else if c = '\\' then ['\\', '\\']
  else if c.toNat = 8 then ['\\', 'b']
  else if c.toNat = 12 then ['\\', 'f']
  else if c = '\n' then ['\\', 'n']
  else if c = '\r' then ['\\', 'r']
  else if c = '\t' then ['\\', 't']
  else if c.toNat < 0x20 then
    ['\\', 'u', '0', '0'] ++ (if c.toNat < 0x10 then ['0'] else []) ++ Nat.toDigits 16 c.toNat
  else [c]

def stringText (s : String) : String :=
  String.ofList ('"' :: s.toList.flatMap escapeChar ++ ['"'])

/-- Digits with the point after the first `1 + exp` of them, filled up with zeros. -/
def positional (digits : List Char) (exp : Int) : List Char :=
  if exp < 0 then '0' :: '.' :: List.replicate (-exp - 1).toNat '0' ++ digits
  else
    let whole := exp.toNat + 1
    if digits.length ≤ whole then
      digits ++ List.replicate (whole - digits.length) '0' ++ ['.', '0']
    else digits.take whole ++ '.' :: digits.drop whole

def scientific (digits : List Char) (exp : Int) : List Char :=
  let fraction := match digits.drop 1 with
    | [] => []
    | rest => '.' :: rest
  let sign := if exp < 0 then '-' else '+'
  digits.take 1 ++ fraction ++ 'e' :: sign :: Nat.toDigits 10 exp.natAbs

/-- A number is written positionally if its first digit stands for a power of ten from the fifth
place after the point to the sixteenth before it. -/
def floatText (x : Binary64.Finite) : String :=
  let (digits, last) := x.shortest
  let digits := Nat.toDigits 10 digits
  let exp := last + digits.length - 1
  let body := if -5 ≤ exp ∧ exp < 16 then positional digits exp else scientific digits exp
  String.ofList (if x.negative then '-' :: body else body)

def intText (n : Int) : String :=
  String.ofList
    (if n < 0 then '-' :: Nat.toDigits 10 n.natAbs else Nat.toDigits 10 n.natAbs)

def numberText : Number → String
  | .whole n => intText n.val
  | .float x => floatText x

def scalarText : Json → String
  | .null => "null"
  | .bool true => "true"
  | .bool false => "false"
  | .number n => numberText n
  | .string s => stringText s
  | .array _ => "[]"
  | .object _ => "\x7b\x7d"

mutual
def text : Json → String
  | .array items => "[" ++ String.intercalate "," (itemTexts items) ++ "]"
  | .object members => "\x7b" ++ String.intercalate "," (memberTexts members) ++ "\x7d"
  | .null => scalarText .null
  | .bool b => scalarText (.bool b)
  | .number n => scalarText (.number n)
  | .string s => scalarText (.string s)
def itemTexts : List Json → List String
  | [] => []
  | v :: rest => text v :: itemTexts rest
def memberTexts : List (String × Json) → List String
  | [] => []
  | (key, v) :: rest => (stringText key ++ ":" ++ text v) :: memberTexts rest
end

def newline (level : Nat) : String := String.ofList ('\n' :: List.replicate (2 * level) ' ')

def lines (level : Nat) (opening closing : String) (parts : List String) : String :=
  if parts.isEmpty then opening ++ closing
  else
    opening ++ newline (level + 1) ++ String.intercalate ("," ++ newline (level + 1)) parts ++
      newline level ++ closing

mutual
def indentedAt : Nat → Json → String
  | level, .array items => lines level "[" "]" (indentedItems (level + 1) items)
  | level, .object members =>
    lines level "\x7b" "\x7d" (indentedMembers (level + 1) members)
  | _, .null => scalarText .null
  | _, .bool b => scalarText (.bool b)
  | _, .number n => scalarText (.number n)
  | _, .string s => scalarText (.string s)
def indentedItems : Nat → List Json → List String
  | _, [] => []
  | level, v :: rest => indentedAt level v :: indentedItems level rest
def indentedMembers : Nat → List (String × Json) → List String
  | _, [] => []
  | level, (key, v) :: rest =>
    (stringText key ++ ": " ++ indentedAt level v) :: indentedMembers level rest
end

def indented (v : Json) : String := indentedAt 0 v

end RecordCodec.Json
