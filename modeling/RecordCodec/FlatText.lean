import RecordCodec.Text.Split

set_option autoImplicit false

/-!
# Flat texts

A flat text has one entry in each line, in the form of assignments to the variables of an
environment. Blank lines and comments count as lines but hold no entry.
-/
namespace RecordCodec.FlatText

/-- The number of a line, counted from one, that holds no entry. -/
structure Malformed where
  line : Nat

def Malformed.message (e : Malformed) : String :=
  "line " ++ toString e.line ++ ": expected KEY=VALUE"

def unquoted (value : List Char) : List Char :=
  match value with
  | '"' :: rest => (Text.stripSuffix? ['"'] rest).getD value
  | _ => value

def isSkipped (line : List Char) : Bool := line.isEmpty || line.head? == some '#'

def withoutExport (line : List Char) : List Char :=
  (Text.stripPrefix? "export ".toList line).getD line

def entry? (line : List Char) : Option (String × String) :=
  (Text.splitOnce '=' (withoutExport line)).map fun (key, value) =>
    (String.ofList (Text.trim key), String.ofList (unquoted (Text.trim value)))

def readLines : Nat → List (List Char) → Except Malformed (List (String × String))
  | _, [] => .ok []
  | n, line :: rest =>
    let line := Text.trim line
    if isSkipped line then readLines (n + 1) rest
    else match entry? line with
      | some entry => (readLines (n + 1) rest).map (entry :: ·)
      | none => .error ⟨n⟩

/-- The entries of a text in order, repeated keys included. -/
def read (text : String) : Except Malformed (List (String × String)) :=
  readLines 1 (Text.splitOn '\n' text.toList)

end RecordCodec.FlatText
