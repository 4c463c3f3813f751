import RecordCodec.Json.Printer
import RecordCodec.Json.Reader
import RecordCodec.Text.Alphanumeric
import RecordCodec.Text.Integer
import RecordCodec.Text.Quoted

set_option autoImplicit false

/-!
# Tokens of type expressions

Each token is kept with its offset, counted in bytes of UTF-8 from the start of the text. A text may
have no tokens and no error either: before a character that is taken for the start of a name, but
that no name can hold, empty names are read for ever.
-/
namespace RecordCodec.TypeExpr

inductive Token where
  | ident (name : String)
  | str (s : String)
  | num (n : Json.Number)
  | openBracket | closeBracket | openParen | closeParen | comma | pipe | ellipsis
deriving DecidableEq

structure Lexeme where
  token : Token
  offset : Nat
deriving DecidableEq

inductive Flaw where
  | unexpectedChar (c : Char)
  | unterminatedString
  | badNumber (text : String)
  | expectedType
  | expectedName (found : Token)
  | expectedArgument
  | expectedCloseBracket
  | expectedCloseParen
  | trailingInput
  | literalArgument (head : String)
  | ellipsisArgument (head : String)
  | emptyTupleArgument (head : String)
  | wrongArity (head : String) (expected got : Nat)
  | emptyUnion
  | emptyLiteral
  | typeAsLiteral
  | emptyTupleBrackets
  | notGeneric (name : String)
  | tooDeep

structure SyntaxError where
  position : Nat
  flaw : Flaw

abbrev Parsed (α : Type) := Except SyntaxError α

def Token.label : Token → String
  | ident name => "Ident(" ++ Text.quoted name ++ ")"
  | str s => "Str(" ++ Text.quoted s ++ ")"
  | num n => "Num(Number(" ++ Json.numberText n ++ "))"
  | openBracket => "LBracket"
  | closeBracket => "RBracket"
  | openParen => "LParen"
  | closeParen => "RParen"
  | comma => "Comma"
  | pipe => "Pipe"
  | ellipsis => "Ellipsis"

def Flaw.message : Flaw → String
  | unexpectedChar c => "unexpected character \x60" ++ c.toString ++ "\x60"
  | unterminatedString => "unterminated string literal"
  | badNumber text => "invalid number \x60" ++ text ++ "\x60"
  | expectedType => "expected a type"
  | expectedName found => "expected a type name, found " ++ found.label
  | expectedArgument => "expected a type argument"
  | expectedCloseBracket => "expected \x60]\x60"
  | expectedCloseParen => "expected \x60)\x60"
  | trailingInput => "unexpected trailing input"
  | literalArgument head => "\x60" ++ head ++ "\x60 does not take literal values"
  | ellipsisArgument head => "\x60...\x60 is not allowed in \x60" ++ head ++ "\x60"
  | emptyTupleArgument head => "\x60()\x60 is not allowed in \x60" ++ head ++ "\x60"
  | wrongArity head expected got =>
    "\x60" ++ head ++ "\x60 takes " ++ toString expected ++ " type argument(s), got " ++
      toString got
  | emptyUnion => "\x60Union\x60 needs at least one member"
  | emptyLiteral => "\x60Literal\x60 needs at least one value"
  | typeAsLiteral => "\x60Literal\x60 only accepts str, int, float, bool or None values"
  | emptyTupleBrackets => "\x60tuple[]\x60 is empty; write \x60tuple[()]\x60"
  | notGeneric name => "\x60" ++ name ++ "\x60 does not take type arguments"
  | tooDeep => "types are nested too deeply"

def SyntaxError.message (e : SyntaxError) : String :=
  "invalid type expression at offset " ++ toString e.position ++ ": " ++ e.flaw.message

def bytes : List Char → Nat
  | [] => 0
  | c :: rest => c.utf8Size + bytes rest

def isNumberChar (c : Char) : Bool :=
  c.isDigit || c == '.' || c == 'e' || c == 'E' || c == '+' || c == '-' || c == '_'

/-- Beyond ASCII this is decided by the first byte of the UTF-8 form, read as a character of its
own: it is a letter but for the characters from U+05C0 to U+05FF. -/
def startsName (c : Char) : Bool :=
  if c.toNat < 0x80 then c.isAlpha || c == '_' else !(0x5c0 ≤ c.toNat && c.toNat < 0x600)

def isNameChar (c : Char) : Bool := Text.isAlphanumeric c || c == '_' || c == '.'

/-- The longest name at the start of the text. A dot belongs to it unless it starts an ellipsis. -/
def nameChars : List Char → List Char × List Char
  | [] => ([], [])
  | '.' :: '.' :: '.' :: rest => ([], '.' :: '.' :: '.' :: rest)
  | c :: rest =>
    if isNameChar c then
      let (name, rest) := nameChars rest
      (c :: name, rest)
    else ([], c :: rest)

/-- The text of a string up to its closing quote, with its size and the rest after it. A backslash
stands for the character after it. -/
def stringChars (quote : Char) : List Char → Option (List Char × Nat × List Char)
  | [] => none
  | ['\\'] => none
  | '\\' :: c :: rest =>
    (stringChars quote rest).map fun (text, size, rest) => (c :: text, 1 + c.utf8Size + size, rest)
  | c :: rest =>
    if c = quote then some ([], 1, rest)
    else (stringChars quote rest).map fun (text, size, rest) => (c :: text, c.utf8Size + size, rest)

/-- A number is an integer of 64 bits if its text is one, and else the nearest finite number. -/
def numberToken? (text : List Char) : Option Json.Number :=
  match Text.readInt64? text with
  | some n => some (.whole ⟨n.toInt, Json.wholeRange_int64 n⟩)
  | none => ((Binary64.read? text).bind Binary64.finite?).map .float

/-- How an unexpected character is shown: beyond ASCII, by the first byte of its UTF-8 form. -/
def shownChar (c : Char) : Char := if c.toNat < 0x80 then c else '\u00d7'

/-- The token at the start of a text, with its size and the rest after it. -/
def nextToken : List Char → Except Flaw (Token × Nat × List Char)
  | '[' :: rest => .ok (.openBracket, 1, rest)
  | ']' :: rest => .ok (.closeBracket, 1, rest)
  | '(' :: rest => .ok (.openParen, 1, rest)
  | ')' :: rest => .ok (.closeParen, 1, rest)
  | ',' :: rest => .ok (.comma, 1, rest)
  | '|' :: rest => .ok (.pipe, 1, rest)
  | '.' :: '.' :: '.' :: rest => .ok (.ellipsis, 3, rest)
  | c :: rest =>
    if c = '\x27' ∨ c = '"' then
      match stringChars c rest with
      | some (text, size, rest) => .ok (.str (String.ofList text), size + 1, rest)
      | none => .error .unterminatedString
    else if c = '-' ∨ c.isDigit then
      let written := c :: rest.takeWhile isNumberChar
      let text := written.filter (· != '_')
      match numberToken? text with
      | some n => .ok (.num n, written.length, rest.dropWhile isNumberChar)
      | none => .error (.badNumber (String.ofList text))
    else if startsName c then
      let (name, rest) := nameChars (c :: rest)
      .ok (.ident (String.ofList name), bytes name, rest)
    else .error (.unexpectedChar (shownChar c))
  | [] => .error .expectedType

/-- The tokens of a text, or nothing if the fuel was used up. -/
def lexFrom : Nat → Nat → List Char → Option (Parsed (List Lexeme))
  | _, _, [] => some (.ok [])
  | 0, _, _ => none
  | fuel + 1, offset, c :: rest =>
    if Json.isSpace c then lexFrom fuel (offset + 1) rest
    else
      match nextToken (c :: rest) with
      | .error flaw => some (.error ⟨offset, flaw⟩)
      | .ok (token, size, rest) =>
        (lexFrom fuel (offset + size) rest).map fun lexed => lexed.map (⟨token, offset⟩ :: ·)

/-- A token takes up at least one character unless it is the first of those that never end, so the
length of the text is fuel enough. -/
def lex (text : String) : Option (Parsed (List Lexeme)) :=
  lexFrom text.toList.length 0 text.toList

end RecordCodec.TypeExpr
