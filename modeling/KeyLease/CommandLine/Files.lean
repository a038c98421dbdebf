import KeyLease.Text.Split

set_option autoImplicit false

/-!
# The files that a program can read

A program sees files as a function from paths to their bytes, or to why they cannot be read. A
`Folder` is such a function given by its contents: files, and folders that are empty. A path leads
through it step by step; what lies outside is not there, as far as a path names it.
-/

namespace KeyLease.CommandLine

/-- Why a file cannot be read as text. -/
inductive ReadFault
  | notFound
  | isFolder
  | notFolder
  | badPath
  | notText
  deriving DecidableEq, Repr

/-- The files that a program can read, by path. -/
abbrev Files := String → Except ReadFault ByteArray

/-- The text of the file that a path names. -/
def Files.text (files : Files) (path : String) : Except ReadFault String :=
  match files path with
  | .error e => .error e
  | .ok bytes =>
      match String.fromUTF8? bytes with
      | some text => .ok text
      | none => .error .notText

/-- A folder with files by name and with names of empty folders. -/
structure Folder where
  files : List (String × ByteArray) := []
  folders : List String := []

/-- Where a path has led so far. -/
inductive Place
  | here
  | inside
  | outside
  | file (bytes : ByteArray)

namespace Folder

/-- One step of a path. -/
def walk (f : Folder) (p : Place) (step : String) : Except ReadFault Place :=
  match p with
  | .file _ => .error .notFolder
  | .here =>
      if step = "" ∨ step = "." then .ok .here
      else if step = ".." then .ok .outside
      else
        match f.files.lookup step with
        | some bytes => .ok (.file bytes)
        | none => if step ∈ f.folders then .ok .inside else .error .notFound
  | .inside =>
      if step = "" ∨ step = "." then .ok .inside
      else if step = ".." then .ok .here
      else .error .notFound
  | .outside =>
      if step = "" ∨ step = "." ∨ step = ".." then .ok .outside else .error .notFound

/-- The folder as the files that a program in it can read. -/
def contents (f : Folder) : Files := fun path =>
  if path.toList.contains '\x00' then .error .badPath
  else if path.isEmpty then .error .notFound
  else
    let start := if path.toList.head? = some '/' then Place.outside else .here
    let steps := (Text.pieces '/' path.toList).map String.ofList
    match steps.foldlM f.walk start with
    | .error e => .error e
    | .ok (.file bytes) => .ok bytes
    | .ok _ => .error .isFolder

end Folder

end KeyLease.CommandLine
