import RecordCodec.Codec
import RecordCodec.Command.Arguments
import RecordCodec.Command.Directory
import RecordCodec.Command.Report
import RecordCodec.Document.Printer
import RecordCodec.Document.Reader
import RecordCodec.FlatText
import RecordCodec.Inference

set_option autoImplicit false

/-!
# Running commands

A command reads its files and gives the texts that it writes. Schema documents and inputs are JSON.
-/
namespace RecordCodec.Command

open Routine

structure Result where
  code : Nat
  output : String := ""
  errors : String := ""

abbrev Reported (α : Type) := Except Report α

def readFile (files : Files) (what name : String) : Reported String :=
  (files name).mapError fun e =>
    { message := "failed to read " ++ what ++ " " ++ name, causes := [e.message] }

def faultText (text : String) (fault : Json.Fault) : String :=
  let (line, column) := fault.position text
  "invalid document at line " ++ toString line ++ " column " ++ toString column

/-- The result of a run; one that does not come to an end is a failure as well. -/
def settle {α : Type} (message : String) (r : Run α) : Reported α :=
  match r.run with
  | some (.ok a) => .ok a
  | some (.error e) => .error (.ofFailure message e)
  | none => .error { message, causes := ["it does not end"] }

def loadCodec (files : Files) (name : String) : Reported Codec := do
  let text ← readFile files "schema" name
  let document ← (Document.read text).mapError fun fault =>
    { message := "invalid schema document " ++ name, causes := [faultText text fault] }
  settle ("cannot build codec from " ++ name) (Codec.ofDocument document)

def loadValue (files : Files) (name : String) : Reported Json := do
  let text ← readFile files "input" name
  (Json.read text).mapError fun fault =>
    { message := "invalid input " ++ name, causes := [faultText text fault] }

def loadEntries (files : Files) (name : String) : Reported (List (String × String)) := do
  let text ← readFile files "input" name
  (FlatText.read text).mapError fun e => { message := e.message }

def decodeInput (files : Files) (c : Conversion) (codec : Codec) : Reported (Instance × Codec) := do
  let (decoded, codec) ←
    if c.flat then do
      let entries ← loadEntries files c.input
      .ok (codec.decodeFlat c.record entries c.overrides.toConfig)
    else do
      let v ← loadValue files c.input
      .ok (codec.decode c.record v c.overrides.toConfig)
  let decoded ← settle ("failed to decode " ++ c.input ++ " as " ++ c.record) decoded
  .ok (decoded, codec)

def printed (pretty : Bool) (v : Json) : String := (if pretty then v.indented else v.text) ++ "\n"

def runDecode (files : Files) (c : Conversion) : Reported String := do
  let codec ← loadCodec files c.schema
  let (decoded, _) ← decodeInput files c codec
  .ok (printed c.pretty decoded.toJson)

def runNormalize (files : Files) (c : Conversion) : Reported String := do
  let codec ← loadCodec files c.schema
  let (decoded, codec) ← decodeInput files c codec
  let (encoded, _) := codec.encode c.record decoded c.overrides.toConfig
  let encoded ← settle ("failed to encode " ++ c.record) encoded
  .ok (printed c.pretty encoded)

def checkLine (record : String) (result : Run Unit) : String :=
  match settle "" result with
  | .ok () => "[ok]   " ++ record ++ "\n"
  | .error r => "[fail] " ++ record ++ ": " ++ r.causes.head?.getD "" ++ "\n"

def isFailed (result : Run Unit) : Bool :=
  match result.run with
  | some (.ok ()) => false
  | _ => true

def runCheck (files : Files) (schema : String) : Reported Result := do
  let codec ← loadCodec files schema
  let (results, codec) := codec.check
  let failed := (results.filter fun (_, result) => isFailed result).length
  let output := String.join (results.map fun (record, result) => checkLine record result) ++
    toString results.length ++ " records, " ++ toString failed ++ " failed, " ++
    toString codec.cachedRoutines ++ " routines compiled\n"
  if failed = 0 then .ok { code := 0, output }
  else
    let report : Report :=
      { message := toString failed ++ " of " ++ toString results.length ++
          " records failed to compile" }
    .ok { code := 1, output, errors := report.text }

def runInfer (files : Files) (sample root : String) : Reported String := do
  let v ← loadValue files sample
  match Inference.draft root v with
  | .ok document => .ok (printed true document.toJson)
  | .error e => .error { message := e.message }

def programName : String := "morph"

def versionText : String := programName ++ " 0.1.0\n"

def runRequest (files : Files) : Request → Reported Result
  | .version => .ok { code := 0, output := versionText }
  | .check schema => runCheck files schema
  | .decode c => (runDecode files c).map fun output => { code := 0, output }
  | .normalize c => (runNormalize files c).map fun output => { code := 0, output }
  | .infer sample root => (runInfer files sample root).map fun output => { code := 0, output }

def usage : String :=
  "Usage: " ++ programName ++ " <check|decode|normalize|infer> [OPTIONS]\n"

/-- The exit codes are 0, 1 for a command that failed and 2 for arguments that make no command. -/
def run (files : Files) (args : List String) : Result :=
  match readRequest args with
  | .error e => { code := 2, errors := "error: " ++ e.message ++ "\n\n" ++ usage }
  | .ok request =>
    match runRequest files request with
    | .ok result => result
    | .error report => { code := 1, errors := report.text }

end RecordCodec.Command
