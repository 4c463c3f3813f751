import RecordCodec.Command.Run

set_option autoImplicit false

/-!
# The program

The commands on the files of the file system.
-/
namespace RecordCodec

/-- A directory can be opened like a file, but not read. -/
def fileError (e : IO.Error) : Command.FileError :=
  match e with
  | .noFileOrDirectory .. => .notFound
  | .inappropriateType (some _) .. => .notDirectory
  | .inappropriateType none .. => .isDirectory
  | .permissionDenied .. => .other "Permission denied (os error 13)"
  | .invalidArgument (some _) _ details =>
    if details == "name too long" then .nameTooLong else .other details
  | e => .other (toString e)

def readFiles (names : List String) : IO (List (String × Except Command.FileError String)) :=
  names.mapM fun (name : String) => do
    let outcome ← (IO.FS.readFile name).toBaseIO
    pure (name, outcome.mapError fileError)

def Command.Request.files : Command.Request → List String
  | .check schema => [schema]
  | .decode c | .normalize c => [c.schema, c.input]
  | .infer sample _ => [sample]
  | .version => []

def runCommand (args : List String) : IO UInt32 := do
  let names := match Command.readRequest args with
    | .ok request => request.files
    | .error _ => []
  let found ← readFiles names
  let files : Command.Files := fun name => (Assoc.get? name found).getD (.error .notFound)
  let result := Command.run files args
  (← IO.getStdout).putStr result.output
  (← IO.getStderr).putStr result.errors
  pure (UInt32.ofNat result.code)

end RecordCodec

def main (args : List String) : IO UInt32 := RecordCodec.runCommand args
