import GasMachine.Bytes.Basic

/-!
# Files

Commands read and write whole files, wherever these are.  A directory in memory holds files by name
and has no directories below it.  Of the directories above it nothing is known but that they are
there: no file is found in them, and what is written to them is not kept.
-/

namespace GasMachine.CommandLine

inductive FileError where
  | notFound
  | notDirectory
  | isDirectory
  | nameTooLong
  /-- The path has a NUL character in it. -/
  | nulInPath
  /-- The contents are not text. -/
  | notText
  | other (text : String)
  deriving DecidableEq, Repr

def FileError.message : FileError → String
  | notFound => "No such file or directory (os error 2)"
  | notDirectory => "Not a directory (os error 20)"
  | isDirectory => "Is a directory (os error 21)"
  | nameTooLong => "File name too long (os error 36)"
  | nulInPath => "file name contained an unexpected NUL byte"
  | notText => "stream did not contain valid UTF-8"
  | other text => text

class MonadFiles (m : Type → Type) where
  readFile : (path : String) → m (Except FileError ByteArray)
  writeFile : (path : String) → ByteArray → m (Except FileError Unit)

abbrev Directory := List (String × ByteArray)

namespace Directory

/-- Where a path has led to. -/
inductive Scope where
  /-- The directory itself. -/
  | within
  /-- A directory above it. -/
  | above
  deriving DecidableEq, Repr

inductive Place where
  /-- A file of this name, which may not be there yet.  If a slash follows the name, it would have
  to be a directory. -/
  | file (scope : Scope) (name : String) (slash : Bool)
  | directory
  | nowhere (error : FileError)

/-- The longest name that a file may have, in bytes. -/
def maxNameSize : Nat := 255

/-- The longest path, in bytes. -/
def maxPathSize : Nat := 4095

def parts (path : String) : List String :=
  path.splitOn "/"

def contents (directory : Directory) (scope : Scope) (name : String) :
    Except FileError ByteArray :=
  if maxNameSize < name.utf8ByteSize then .error .nameTooLong
  else
    match scope with
    | .above => .error .notFound
    | .within =>
      match directory.lookup name with
      | some contents => .ok contents
      | none => .error .notFound

/-- What the rest of a path leads to from where it has led to. -/
def follow (directory : Directory) (scope : Scope) : List String → Place
  | [] => .directory
  | part :: rest =>
    if part = "" ∨ part = "." then follow directory scope rest
    else if part = ".." then follow directory .above rest
    else if rest.all (· == "") then .file scope part (rest ≠ [])
    else
      match directory.contents scope part with
      | .ok _ => .nowhere .notDirectory
      | .error error => .nowhere error

def locate (directory : Directory) (path : String) : Place :=
  if path.toList.contains (Char.ofNat 0) then .nowhere .nulInPath
  else if maxPathSize < path.utf8ByteSize then .nowhere .nameTooLong
  else
    match path.toList with
    | [] => .nowhere .notFound
    | '/' :: _ => follow directory .above (parts path)
    | _ => follow directory .within (parts path)

def read (directory : Directory) (path : String) : Except FileError ByteArray :=
  match locate directory path with
  | .nowhere error => .error error
  | .directory => .error .isDirectory
  | .file scope name slash =>
    match directory.contents scope name with
    | .ok contents => if slash then .error .notDirectory else .ok contents
    | .error error => .error error

/-- The directory with a file put into it, in the place of one with the same name. -/
def put (directory : Directory) (name : String) (contents : ByteArray) : Directory :=
  if (directory.lookup name).isSome then
    directory.map fun file => if file.1 = name then (name, contents) else file
  else directory ++ [(name, contents)]

def write (directory : Directory) (path : String) (contents : ByteArray) :
    Except FileError Unit × Directory :=
  match locate directory path with
  | .nowhere error => (.error error, directory)
  | .directory | .file _ _ true => (.error .isDirectory, directory)
  | .file scope name false =>
    if maxNameSize < name.utf8ByteSize then (.error .nameTooLong, directory)
    else
      match scope with
      | .above => (.ok (), directory)
      | .within => (.ok (), directory.put name contents)

/-- The files that are new or changed since the directory was `before`. -/
def changedSince (directory before : Directory) : Directory :=
  directory.filter fun file => before.lookup file.1 ≠ some file.2

instance : MonadFiles (StateM Directory) where
  readFile path directory := (read directory path, directory)
  writeFile path contents directory := write directory path contents

end Directory

end GasMachine.CommandLine
