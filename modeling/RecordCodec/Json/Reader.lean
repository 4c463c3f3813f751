import RecordCodec.Json.Basic
import RecordCodec.Binary64.Decimal
import RecordCodec.Binary64.Scaling

set_option autoImplicit false

/-!
# Reading JSON text

Reading goes in two steps. The first gives the tree as it is written, in which an object may repeat
a key, a number may lie outside the range and a string may hold half of a surrogate pair. The
second settles the tree to a value and refuses the last two. A reader that passes over a part of
the tree never settles it.
-/
namespace RecordCodec.Json

inductive Written where
  | null
  | bool (b : Bool)
  /-- A number outside the range has no value. -/
  | number (n : Option Number)
  /-- A string with an unpaired surrogate has no value. -/
  | string (s : Option String)
  | array (items : List Written)
  | object (members : List (Option String × Written))
deriving Inhabited

/-- The text that was left where reading failed. -/
abbrev Fault := List Char

def isSpace (c : Char) : Bool := c == ' ' || c == '\t' || c == '\n' || c == '\r'

def skipSpace (s : List Char) : List Char := s.dropWhile isSpace

def hexValue? (c : Char) : Option Nat :=
  if '0' ≤ c ∧ c ≤ '9' then some (c.toNat - 48)
  else if 'a' ≤ c ∧ c ≤ 'f' then some (c.toNat - 97 + 10)
  else if 'A' ≤ c ∧ c ≤ 'F' then some (c.toNat - 65 + 10)
  else none

def hexUnit? (a b c d : Char) : Option Nat := do
  let w ← hexValue? a
  let x ← hexValue? b
  let y ← hexValue? c
  let z ← hexValue? d
  some (((w * 16 + x) * 16 + y) * 16 + z)

def isHighSurrogate (n : Nat) : Bool := 0xd800 ≤ n && n < 0xdc00

def isLowSurrogate (n : Nat) : Bool := 0xdc00 ≤ n && n < 0xe000

/-- Code units to characters; a surrogate counts only as one half of a pair. -/
def joinSurrogates : List Nat → Option (List Char)
  | [] => some []
  | [n] => if isHighSurrogate n || isLowSurrogate n then none else some [Char.ofNat n]
  | a :: b :: rest =>
    if isHighSurrogate a then
      if isLowSurrogate b then
        (joinSurrogates rest).map
          (Char.ofNat (0x10000 + (a - 0xd800) * 0x400 + (b - 0xdc00)) :: ·)
      else none
    else if isLowSurrogate a then none
    else (joinSurrogates (b :: rest)).map (Char.ofNat a :: ·)

def simpleEscape? (c : Char) : Option Nat :=
  match c with
  | '"' => some 0x22
  | '\\' => some 0x5c
  | '/' => some 0x2f
  | 'b' => some 8
  | 'f' => some 12
  | 'n' => some 10
  | 'r' => some 13
  | 't' => some 9
  | _ => none

def readUnits (acc : List Nat) : List Char → Except Fault (List Nat × List Char)
  | [] => .error []
  | '"' :: rest => .ok (acc, rest)
  | '\\' :: 'u' :: a :: b :: c :: d :: rest =>
    match hexUnit? a b c d with
    | some n => readUnits (n :: acc) rest
    | none => .error (a :: b :: c :: d :: rest)
  | '\\' :: c :: rest =>
    match simpleEscape? c with
    | some n => readUnits (n :: acc) rest
    | none => .error (c :: rest)
  | c :: rest => if c.toNat < 0x20 then .error (c :: rest) else readUnits (c.toNat :: acc) rest

def readString (s : List Char) : Except Fault (Option String × List Char) := do
  let (units, rest) ← readUnits [] s
  .ok ((joinSurrogates units.reverse).map String.ofList, rest)

/-- The digits of a whole part: a zero stands alone. -/
def readWhole (s : List Char) : Except Fault (List Char × List Char) :=
  match s with
  | '0' :: rest =>
    if (rest.takeWhile Char.isDigit).isEmpty then .ok (['0'], rest) else .error rest
  | _ =>
    let digits := s.takeWhile Char.isDigit
    if digits.isEmpty then .error s else .ok (digits, s.dropWhile Char.isDigit)

def readDigits (s : List Char) : Except Fault (List Char × List Char) :=
  let digits := s.takeWhile Char.isDigit
  if digits.isEmpty then .error s else .ok (digits, s.dropWhile Char.isDigit)

def readFraction (s : List Char) : Except Fault (List Char × List Char) :=
  match s with
  | '.' :: rest => readDigits rest
  | _ => .ok ([], s)

def readExponent (s : List Char) : Except Fault (Option Int × List Char) :=
  match s with
  | c :: rest =>
    if c = 'e' ∨ c = 'E' then do
      let (negative, rest) := Binary64.signed rest
      let (digits, rest) ← readDigits rest
      let n : Int := Binary64.digitsValue digits
      .ok (some (if negative then -n else n), rest)
    else .ok (none, s)
  | [] => .ok (none, s)

/-- Puts digits behind those of a whole number as long as 64 bits can hold it, and gives the digits
that are left. -/
def takeDigits : Nat → List Char → Nat × List Char
  | n, [] => (n, [])
  | n, c :: rest =>
    let next := n * 10 + (c.toNat - 48)
    if next < 0x10000000000000000 then takeDigits next rest else (n, c :: rest)

/-- The leading digits that 64 bits can hold, scaled by the power of ten of the last of them. -/
def floatValue (negative : Bool) (whole fraction : List Char) (exponent : Int) : Option Number :=
  let (n, wholeLeft) := takeDigits 0 whole
  let (n, fractionLeft) := takeDigits n fraction
  let taken : Int := fraction.length - fractionLeft.length
  match Binary64.scaled negative n (exponent + wholeLeft.length - taken) with
  | .finite x => some (.float x)
  | _ => none

/-- A token without fraction and exponent is a whole number if it is in range and is not the
negative zero; any other number is a binary one. -/
def numberValue (negative : Bool) (whole fraction : List Char) (exponent : Option Int) :
    Option Number :=
  let n : Int := Binary64.digitsValue whole
  let n := if negative then -n else n
  let float := floatValue negative whole fraction (exponent.getD 0)
  if fraction.isEmpty && exponent.isNone && !(negative && n == 0) then
    if h : WholeRange n then some (.whole ⟨n, h⟩) else float
  else float

def readNumber (s : List Char) : Except Fault (Option Number × List Char) := do
  let (negative, s) := match s with
    | '-' :: rest => (true, rest)
    | rest => (false, rest)
  let (whole, s) ← readWhole s
  let (fraction, s) ← readFraction s
  let (exponent, s) ← readExponent s
  .ok (numberValue negative whole fraction exponent, s)

mutual
/-- Every call goes on to a shorter text or a deeper part of one, so a fuel above twice the length
of the text is never used up. -/
def readValue : Nat → List Char → Except Fault (Written × List Char)
  | 0, s => .error s
  | fuel + 1, s =>
    match skipSpace s with
    | 'n' :: 'u' :: 'l' :: 'l' :: rest => .ok (.null, rest)
    | 't' :: 'r' :: 'u' :: 'e' :: rest => .ok (.bool true, rest)
    | 'f' :: 'a' :: 'l' :: 's' :: 'e' :: rest => .ok (.bool false, rest)
    | '"' :: rest => do
      let (text, rest) ← readString rest
      .ok (.string text, rest)
    | '[' :: rest =>
      match skipSpace rest with
      | ']' :: rest => .ok (.array [], rest)
      | rest => do
        let (items, rest) ← readItems fuel [] rest
        .ok (.array items, rest)
    | '\x7b' :: rest =>
      match skipSpace rest with
      | '\x7d' :: rest => .ok (.object [], rest)
      | rest => do
        let (members, rest) ← readMembers fuel [] rest
        .ok (.object members, rest)
    | rest => do
      let (n, rest) ← readNumber rest
      .ok (.number n, rest)
def readItems : Nat → List Written → List Char → Except Fault (List Written × List Char)
  | 0, _, s => .error s
  | fuel + 1, acc, s => do
    let (item, rest) ← readValue fuel s
    match skipSpace rest with
    | ',' :: rest => readItems fuel (item :: acc) rest
    | ']' :: rest => .ok ((item :: acc).reverse, rest)
    | rest => .error rest
def readMembers : Nat → List (Option String × Written) → List Char →
    Except Fault (List (Option String × Written) × List Char)
  | 0, _, s => .error s
  | fuel + 1, acc, s =>
    match skipSpace s with
    | '"' :: rest => do
      let (key, rest) ← readString rest
      match skipSpace rest with
      | ':' :: rest =>
        let (value, rest) ← readValue fuel rest
        match skipSpace rest with
        | ',' :: rest => readMembers fuel ((key, value) :: acc) rest
        | '\x7d' :: rest => .ok (((key, value) :: acc).reverse, rest)
        | rest => .error rest
      | rest => .error rest
    | rest => .error rest
end

def Written.read (text : String) : Except Fault Written :=
  let s := text.toList
  match readValue (2 * s.length + 1) s with
  | .error fault => .error fault
  | .ok (tree, rest) =>
    match skipSpace rest with
    | [] => .ok tree
    | rest => .error rest

mutual
/-- The value of a tree in which arrays and objects are nested no deeper than `room`. A repeated
key keeps its first place and takes the last value. -/
def Written.settle : Nat → Written → Option Json
  | _, .null => some .null
  | _, .bool b => some (.bool b)
  | _, .number n => n.map .number
  | _, .string s => s.map .string
  | 0, .array _ => none
  | room + 1, .array items => (settleItems room items).map .array
  | 0, .object _ => none
  | room + 1, .object members => (settleMembers room members).map ofMembers
def Written.settleItems : Nat → List Written → Option (List Json)
  | _, [] => some []
  | room, tree :: rest => do
    let v ← tree.settle room
    let vs ← settleItems room rest
    some (v :: vs)
def Written.settleMembers : Nat → List (Option String × Written) → Option (List (String × Json))
  | _, [] => some []
  | room, (key, tree) :: rest => do
    let k ← key
    let v ← tree.settle room
    let vs ← settleMembers room rest
    some ((k, v) :: vs)
end

mutual
def toWritten : Json → Written
  | .null => .null
  | .bool b => .bool b
  | .number n => .number (some n)
  | .string s => .string (some s)
  | .array items => .array (itemsToWritten items)
  | .object members => .object (membersToWritten members)
def itemsToWritten : List Json → List Written
  | [] => []
  | v :: rest => toWritten v :: itemsToWritten rest
def membersToWritten : List (String × Json) → List (Option String × Written)
  | [] => []
  | (key, v) :: rest => (some key, toWritten v) :: membersToWritten rest
end

def nestingLimit : Nat := 127

def read (text : String) : Except Fault Json := do
  let tree ← Written.read text
  match tree.settle nestingLimit with
  | some v => .ok v
  | none => .error []

/-- Line and column, counted from one, of the place where reading a text failed. -/
def Fault.position (text : String) (fault : Fault) : Nat × Nat :=
  let before := text.toList.take (text.toList.length - fault.length)
  (before.count '\n' + 1, (before.reverse.takeWhile (· != '\n')).length + 1)

end RecordCodec.Json
