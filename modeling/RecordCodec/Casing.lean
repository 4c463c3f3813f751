import RecordCodec.Text.Case

set_option autoImplicit false

/-!
# Key casings

A casing says how the name of a field is spelled as a key. Every casing but two breaks the name
into lower-case words first and joins them in its own way.
-/
namespace RecordCodec

inductive Casing where
  | preserve | snake | camel | pascal | kebab | screamingSnake
  /-- Input keys are compared with the field name without regard to case. -/
  | caseInsensitive
deriving DecidableEq, Inhabited

namespace Casing

def name : Casing → String
  | preserve => "preserve"
  | snake => "snake"
  | camel => "camel"
  | pascal => "pascal"
  | kebab => "kebab"
  | screamingSnake => "screaming-snake"
  | caseInsensitive => "case-insensitive"

def ofName? : String → Option Casing
  | "preserve" | "none" | "identity" => some preserve
  | "snake" | "snake_case" => some snake
  | "camel" | "camelCase" => some camel
  | "pascal" | "PascalCase" => some pascal
  | "kebab" | "kebab-case" => some kebab
  | "screaming-snake" | "SCREAMING_SNAKE_CASE" | "upper-snake" => some screamingSnake
  | "case-insensitive" | "ignore-case" => some caseInsensitive
  | _ => none

def unknownMessage (name : String) : String := "unknown key casing \x60" ++ name ++ "\x60"

def isSeparator (c : Char) : Bool := c == '_' || c == '-' || c == ' '

/-- A capital after a small letter or a digit starts a word, and so does the last one of a row of
capitals that a small letter follows. -/
def startsWord (before c : Char) (after : List Char) : Bool :=
  Text.isUpper c &&
    (Text.isLower before || before.isDigit ||
      (Text.isUpper before && after.head?.any Text.isLower))

/-- Words of a name, given the word being read, in reverse, and the character before. -/
def wordsFrom (current : List Char) (before : Char) : List Char → List (List Char)
  | [] => if current.isEmpty then [] else [current.reverse]
  | c :: rest =>
    if isSeparator c then
      if current.isEmpty then wordsFrom [] c rest else current.reverse :: wordsFrom [] c rest
    else if !current.isEmpty && startsWord before c rest then
      current.reverse :: wordsFrom (Text.lowerChar c).reverse c rest
    else wordsFrom ((Text.lowerChar c).reverse ++ current) c rest

/-- The lower-case words of an identifier in any common style. -/
def words (name : List Char) : List (List Char) := wordsFrom [] ' ' name

def capitalize : List Char → List Char
  | [] => []
  | c :: rest => Text.upperChar c ++ rest

def joinWords (sep : Char) (words : List (List Char)) : List Char :=
  List.intercalate [sep] words

def applyChars : Casing → List Char → List Char
  | preserve, field | caseInsensitive, field => field
  | snake, field => joinWords '_' (words field)
  | kebab, field => joinWords '-' (words field)
  | screamingSnake, field => joinWords '_' ((words field).map Text.uppercase)
  | camel, field =>
    match words field with
    | [] => []
    | first :: rest => first ++ (rest.map capitalize).flatten
  | pascal, field => ((words field).map capitalize).flatten

def apply (casing : Casing) (field : String) : String :=
  String.ofList (casing.applyChars field.toList)

end Casing
end RecordCodec
