import RecordCodec.Assoc
import RecordCodec.Text.Split

set_option autoImplicit false

/-!
# Files by path

A path is walked one component at a time, from the directory that a command works in. Empty
components and single dots stay where they are, and double dots go up. What ends the walk before
its last component is the reason why a file cannot be read.
-/
namespace RecordCodec.Command

inductive FileError where
  | notFound
  | notDirectory
  | isDirectory
  | nameTooLong
  | other (reason : String)

def FileError.message : FileError → String
  | notFound => "No such file or directory (os error 2)"
  | notDirectory => "Not a directory (os error 20)"
  | isDirectory => "Is a directory (os error 21)"
  | nameTooLong => "File name too long (os error 36)"
  | other reason => reason

abbrev Files := String → Except FileError String

/-- Files by the components of their paths below one directory. -/
abbrev Directory := List (List String × String)

namespace Directory

inductive Place where
  | file (text : String)
  /-- A directory below the one in which the walk began, or that one itself. -/
  | inside (path : List String)
  /-- A directory above. No other files are known there. -/
  | outside

def maxNameBytes : Nat := 255

def maxPathBytes : Nat := 4095

def isDirectoryPath (path : List String) (d : Directory) : Bool :=
  d.any fun (file, _) => path.isPrefixOf file

def lookup (path : List String) (d : Directory) : Except FileError Place :=
  match Assoc.get? path d with
  | some text => .ok (.file text)
  | none => if d.isDirectoryPath path then .ok (.inside path) else .error .notFound

def enter (name : String) (d : Directory) : Place → Except FileError Place
  | .inside path => d.lookup (path ++ [name])
  | _ => .error .notFound

def parent : Place → Place
  | .inside path => if path.isEmpty then .outside else .inside path.dropLast
  | place => place

/-- A name is too long only where it is looked up, and below a file no name is. -/
def step (d : Directory) (place : Place) (name : String) : Except FileError Place :=
  match place, name with
  | .file _, _ => .error .notDirectory
  | _, "" | _, "." => .ok place
  | _, ".." => .ok (parent place)
  | _, _ =>
    if maxNameBytes < name.utf8ByteSize then .error .nameTooLong else d.enter name place

def components (path : String) : List String :=
  (Text.splitOn '/' path.toList).map String.ofList

/-- A path that begins with a slash begins above every directory. -/
def start (path : String) : Place :=
  match path.toList with
  | '/' :: _ => .outside
  | _ => .inside []

def ofFiles (files : List (String × String)) : Directory :=
  files.map fun (path, text) => (components path, text)

def read (d : Directory) : Files := fun path =>
  if maxPathBytes < path.utf8ByteSize then .error .nameTooLong
  else
    match (components path).foldlM d.step (start path) with
    | .ok (.file text) => .ok text
    | .ok _ => .error .isDirectory
    | .error e => .error e

end Directory
end RecordCodec.Command
