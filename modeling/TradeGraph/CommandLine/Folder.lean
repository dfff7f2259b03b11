/-!
# Folders

A folder with everything below it, as a value. Paths are relative to it and have their parts between
slashes; an empty part and `.` stand for the folder reached so far, `..` for the one above it.
-/

namespace TradeGraph.CommandLine

/-- Why a path cannot be used. -/
inductive PathError where
  | missing
  | isFolder
  | notFolder
  | taken
  | tooLong
  | badCharacter
deriving DecidableEq, Repr

def PathError.words : PathError → String
  | .missing => "there is no such file"
  | .isFolder => "a path names a folder"
  | .notFolder => "a path goes through a file"
  | .taken => "a folder has the name of a file"
  | .tooLong => "a path is too long"
  | .badCharacter => "a path has a null character"

/-- The files of a folder, in the order in which they came, and the folders below it. -/
structure Folder where
  files : List (List String × String) := []
  folders : List (List String) := []

namespace Folder

/-- What is found at the end of a path. -/
inductive Place where
  | folder (path : List String)
  | file (path : List String) (text : String)
  | free (path : List String)

/-- What stands at a path without special parts. -/
def at? (f : Folder) (path : List String) : Place :=
  match f.files.find? fun (p, _) => p == path with
  | some (_, text) => .file path text
  | none => if f.folders.contains path then .folder path else .free path

/-- How many bytes a part of a path may have. -/
def maxPart : Nat := 255

/-- How many bytes a path may have. -/
def maxPath : Nat := 4095

/-- Follow the parts of a path. -/
def follow (f : Folder) (here : List String) : List String → Except PathError Place
  | [] => .ok (.folder here)
  | part :: parts =>
    if part.isEmpty || part == "." then follow f here parts
    else if part == ".." then follow f here.dropLast parts
    else if maxPart < part.utf8ByteSize then .error .tooLong
    else
      match f.at? (here ++ [part]), parts with
      | .folder path, _ => follow f path parts
      | place, [] => .ok place
      | .file _ _, _ => .error .notFolder
      | .free _, _ => .error .missing

/-- Follow a path. -/
def locate (f : Folder) (path : String) : Except PathError Place :=
  if path.toList.contains '\x00' then .error .badCharacter
  else if maxPath < path.utf8ByteSize then .error .tooLong
  else f.follow [] (path.splitOn "/")

/-- The text of a file. -/
def read (f : Folder) (path : String) : Except PathError String := do
  match ← f.locate path with
  | .file _ text => .ok text
  | .folder _ => .error .isFolder
  | .free _ => .error .missing

/-- Make the folders along a path that are not there yet. -/
def make (f : Folder) (here : List String) : List String → Except PathError Folder
  | [] => .ok f
  | part :: parts =>
    if part.isEmpty || part == "." then f.make here parts
    else if part == ".." then f.make here.dropLast parts
    else if maxPart < part.utf8ByteSize then .error .tooLong
    else
      match f.at? (here ++ [part]) with
      | .folder path => f.make path parts
      | .free path => { f with folders := path :: f.folders }.make path parts
      | .file _ _ => .error (if parts.isEmpty then .taken else .notFolder)

/-- The folder of a path, without slashes at its end. Empty if the path names none. -/
def parent (path : String) : String :=
  String.ofList ((path.toList.reverse.dropWhile (· != '/')).dropWhile (· == '/')).reverse

/-- Put a text at a path without special parts. -/
def put (f : Folder) (path : List String) (text : String) : Folder :=
  { f with files := f.files.filter (fun (p, _) => p != path) ++ [(path, text)] }

/-- Write a file, with its folder if need be. -/
def write (f : Folder) (path text : String) : Except PathError Folder := do
  let checked ← if path.toList.contains '\x00' then .error .badCharacter else .ok f
  let made ← checked.make [] ((parent path).splitOn "/")
  match ← made.locate path with
  | .file p _ | .free p => .ok (made.put p text)
  | .folder _ => .error .isFolder

end Folder

/-! ## Access -/

/-- How files are read and written. -/
structure Files (m : Type → Type) where
  read : String → m (Except PathError String)
  write : String → String → m (Except PathError Unit)

def Folder.access : Files (StateM Folder) where
  read path := fun f => (f.read path, f)
  write path text := fun f =>
    match f.write path text with
    | .ok g => (.ok (), g)
    | .error e => (.error e, f)

end TradeGraph.CommandLine
