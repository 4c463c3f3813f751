import RecordCodec.Json.Printer
import RecordCodec.Text.Alphanumeric
import RecordCodec.Text.Quoted

set_option autoImplicit false

/-!
# Failures

A failure is a cause with the path to the value it is about, outermost step first. Each layer that
passes a failure on adds its own step to the front. The innermost field on the way makes a leaf
cause its own: from there on the cause says which field could not be converted.
-/
namespace RecordCodec

inductive Cause where
  | unsupportedType (type : String)
  | unknownType (name : String)
  | missingData (record : String)
  | fieldConversion (record field : String) (value : Option Json) (cause : Cause)
  | invalidValue (expected : String) (found : Json)
  | missingFields (record : String) (fields : List String)
  | unionMatch (union : String) (arms : List String) (tagKey tag : Option String)
  | unknownKey (record key : String)
  | invalidConfiguration (record reason : String)
  | invalidSchema (record reason : String)
  | duplicateRoutine (name : String)
  | malformedRoutine (routine reason : String)
  | unlinkedRoutine (name : String)
  | custom (message : String)
deriving Inhabited

namespace Cause

/-- The longest beginning of a text that takes up at most `limit` bytes. -/
def takeBytes : Nat → List Char → List Char
  | _, [] => []
  | limit, c :: rest =>
    if c.utf8Size ≤ limit then c :: takeBytes (limit - c.utf8Size) rest else []

def previewLimit : Nat := 64

def preview (text : String) : String :=
  if text.utf8ByteSize ≤ previewLimit then text
  else String.ofList (takeBytes previewLimit text.toList) ++ "…"

def describe (v : Json) : String :=
  let shown (kind : String) := kind ++ " \x60" ++ preview v.text ++ "\x60"
  match v with
  | .null => "null"
  | .bool _ => shown "bool"
  | .number _ => shown "number"
  | .string _ => shown "string"
  | .array _ => shown "array"
  | .object _ => shown "object"

def valueNote : Option Json → String
  | some v => " from " ++ describe v
  | none => ""

def tagNote : Option String → Option String → String
  | some key, some tag =>
    "; discriminator \x60" ++ key ++ "\x60 = \x60" ++ tag ++ "\x60 names no arm"
  | some key, none => "; discriminator \x60" ++ key ++ "\x60 was absent"
  | none, _ => ""

def message : Cause → String
  | unsupportedType type => "no handler registered for type \x60" ++ type ++ "\x60"
  | unknownType name => "type \x60" ++ name ++ "\x60 is not declared in the schema"
  | missingData record => "cannot decode \x60" ++ record ++ "\x60 from a missing value"
  | fieldConversion record field value cause =>
    "cannot convert field \x60" ++ field ++ "\x60 of \x60" ++ record ++ "\x60" ++
      valueNote value ++ ": " ++ cause.message
  | invalidValue expected found => "expected " ++ expected ++ ", found " ++ describe found
  | missingFields record fields =>
    "\x60" ++ record ++ "\x60 is missing required field(s): " ++ String.intercalate ", " fields
  | unionMatch union arms tagKey tag =>
    "no arm of \x60" ++ union ++ "\x60 matched (tried " ++ String.intercalate ", " arms ++ ")" ++
      tagNote tagKey tag
  | unknownKey record key => "unknown key \x60" ++ key ++ "\x60 for \x60" ++ record ++ "\x60"
  | invalidConfiguration record reason =>
    "invalid configuration for \x60" ++ record ++ "\x60: " ++ reason
  | invalidSchema record reason => "invalid declaration of \x60" ++ record ++ "\x60: " ++ reason
  | duplicateRoutine name =>
    "routine \x60" ++ name ++ "\x60 is already defined in this synthesis session"
  | malformedRoutine routine reason => "malformed routine \x60" ++ routine ++ "\x60: " ++ reason
  | unlinkedRoutine name => "routine \x60" ++ name ++ "\x60 is not linked"
  | custom message => message

/-- The causes behind this one, nearest first. -/
def sources : Cause → List Cause
  | fieldConversion _ _ _ cause => cause :: cause.sources
  | _ => []

/-- Not yet the matter of a field. -/
def isLeaf : Cause → Bool
  | invalidValue _ _ | custom _ => true
  | _ => false

def found? : Cause → Option Json
  | invalidValue _ found => some found
  | _ => none

end Cause

inductive Segment where
  | key (key : String)
  | index (index : Nat)
deriving DecidableEq

namespace Segment

def isPlainChar (c : Char) : Bool := Text.isAlphanumeric c || c == '_' || c == '-'

/-- A key that is shown as it is: letters, digits, underscores and hyphens, no ASCII digit first. -/
def isPlain (key : List Char) : Bool :=
  !key.isEmpty && key.all isPlainChar && !key.head?.any Char.isDigit

/-- The text of a step; a plain key that is not the first is set off by a dot. -/
def text (first : Bool) : Segment → String
  | key k =>
    if isPlain k.toList then (if first then k else "." ++ k) else "[" ++ Text.quoted k ++ "]"
  | index i => "[" ++ toString i ++ "]"

end Segment

abbrev Path := List Segment

def Path.text : Path → String
  | [] => ""
  | first :: rest => first.text true ++ String.join (rest.map (Segment.text false))

structure Failure where
  cause : Cause
  path : Path

namespace Failure

def of (cause : Cause) : Failure := ⟨cause, []⟩

def invalid (expected : String) (found : Json) : Failure := of (.invalidValue expected found)

def custom (message : String) : Failure := of (.custom message)

def isLeaf (e : Failure) : Bool := e.cause.isLeaf

def atKey (key : String) (e : Failure) : Failure := { e with path := .key key :: e.path }

def atIndex (index : Nat) (e : Failure) : Failure := { e with path := .index index :: e.path }

/-- Passes a failure on from a field. A leaf becomes the failed conversion of this field. -/
def inField (record field : String) (e : Failure) : Failure :=
  let cause :=
    if e.isLeaf then .fieldConversion record field e.cause.found? e.cause else e.cause
  atKey field { e with cause }

def message (e : Failure) : String :=
  if e.path.isEmpty then e.cause.message
  else "at \x60" ++ Path.text e.path ++ "\x60: " ++ e.cause.message

end Failure
end RecordCodec
