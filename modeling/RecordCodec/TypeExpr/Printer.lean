import RecordCodec.TypeExpr.Basic
import RecordCodec.Json.Printer

set_option autoImplicit false

/-!
# The text of a type
-/
namespace RecordCodec.TypeExpr

def escapeQuote (c : Char) : List Char :=
  if c = '\\' then ['\\', '\\'] else if c = '\x27' then ['\\', '\x27'] else [c]

def literalText : Json → String
  | .null => "None"
  | .bool true => "True"
  | .bool false => "False"
  | .string s => String.ofList ('\x27' :: s.toList.flatMap escapeQuote ++ ['\x27'])
  | v => v.text

def generic (head : String) (args : List String) : String :=
  head ++ "[" ++ String.intercalate ", " args ++ "]"

mutual
def text : TypeExpr → String
  | ⟨shape, args, literals⟩ =>
    match shape with
    | .primitive p => p.name
    | .enumeration name | .record _ name | .custom name | .named name => name
    | .optional => generic "Optional" (texts args)
    | .union => generic "Union" (texts args)
    | .sequence => generic "list" (texts args)
    | .set => generic "set" (texts args)
    | .mapping => generic "dict" (texts args)
    | .defaultMapping => generic "defaultdict" (texts args)
    | .fixedTuple => if args.isEmpty then "tuple[()]" else generic "tuple" (texts args)
    | .variadicTuple => generic "tuple" [(texts args).headD "Any", "..."]
    | .literal => generic "Literal" (literals.map literalText)
def texts : List TypeExpr → List String
  | [] => []
  | ty :: rest => text ty :: texts rest
end

end RecordCodec.TypeExpr
