import RecordCodec.Failure

set_option autoImplicit false

/-!
# Reports of failed commands

A report says what failed and then, one below the other, the causes behind it. Several causes are
numbered; the further lines of a cause are indented as far as its first.
-/
namespace RecordCodec.Command

structure Report where
  message : String
  causes : List String := []

namespace Report

def ofFailure (message : String) (e : Failure) : Report :=
  { message, causes := e.message :: e.cause.sources.map Cause.message }

def blanks (n : Nat) : String := String.ofList (List.replicate n ' ')

def indented (n : Nat) (text : String) : String :=
  String.ofList (text.toList.flatMap fun c => if c = '\n' then c :: List.replicate n ' ' else [c])

def single (cause : String) : String := "\n" ++ blanks 4 ++ indented 4 cause

def numbered (n : Nat) (cause : String) : String :=
  let number := toString n
  "\n" ++ blanks (5 - number.length) ++ number ++ ": " ++ indented 7 cause

def causesText : List String → String
  | [] => ""
  | [cause] => "\n\nCaused by:" ++ single cause
  | causes =>
    "\n\nCaused by:" ++ String.join (causes.zipIdx.map fun (cause, n) => numbered n cause)

def text (r : Report) : String := "Error: " ++ r.message ++ causesText r.causes ++ "\n"

end Report
end RecordCodec.Command
