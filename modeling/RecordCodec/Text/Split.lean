import RecordCodec.Text.Blank

set_option autoImplicit false

/-!
# Splitting text at a separator
-/
namespace RecordCodec.Text

/-- The parts between separators; there is always at least one. -/
def splitOn (sep : Char) : List Char → List (List Char)
  | [] => [[]]
  | c :: rest =>
    if c = sep then [] :: splitOn sep rest
    else match splitOn sep rest with
      | [] => [[c]]
      | part :: parts => (c :: part) :: parts

def splitOnce (sep : Char) : List Char → Option (List Char × List Char)
  | [] => none
  | c :: rest =>
    if c = sep then some ([], rest)
    else (splitOnce sep rest).map fun (before, after) => (c :: before, after)

/-- The items of a comma-separated list, without the blanks around them. Blank text is the empty
list, not a list of one empty item. -/
def listItems (text : String) : List String :=
  if (trim text.toList).isEmpty then []
  else (splitOn ',' text.toList).map fun item => String.ofList (trim item)

def stripPrefix? : List Char → List Char → Option (List Char)
  | [], s => some s
  | _ :: _, [] => none
  | p :: ps, c :: rest => if p = c then stripPrefix? ps rest else none

def stripSuffix? (suffix s : List Char) : Option (List Char) :=
  (stripPrefix? suffix.reverse s.reverse).map List.reverse

end RecordCodec.Text
