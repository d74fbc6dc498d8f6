import AccessibleMarkup.Files.Path

/-! What a program does with files, apart from where the files are. -/
namespace AccessibleMarkup

inductive FileKind where
  | file
  | directory
  deriving DecidableEq, Repr

inductive FileError where
  | notFound
  | notDirectory
  | isDirectory
  /-- The bytes are not UTF-8. -/
  | notText
  | other (cause : String)
  deriving DecidableEq, Repr

def FileError.message : FileError → String
  | notFound => "No such file or directory (os error 2)"
  | notDirectory => "Not a directory (os error 20)"
  | isDirectory => "Is a directory (os error 21)"
  | notText => "stream did not contain valid UTF-8"
  | other cause => cause

/-- The operations on files. Paths that are not absolute start at the working directory. -/
structure FileAccess (m : Type → Type) where
  kind? : String → m (Option FileKind)
  read : String → m (Except FileError (List Char))
  write : String → List Char → m (Except FileError Unit)
  /-- The names in a directory, in any order. -/
  list : String → m (List (String × FileKind))
  /-- The absolute path of something that is there. -/
  absolute? : String → m (Option String)

namespace FileAccess

variable {m : Type → Type} [Monad m]

def isFile (files : FileAccess m) (path : String) : m Bool :=
  return (← files.kind? path) == some .file

def isDirectory (files : FileAccess m) (path : String) : m Bool :=
  return (← files.kind? path) == some .directory

def isThere (files : FileAccess m) (path : String) : m Bool :=
  return (← files.kind? path).isSome

def firstFile? (files : FileAccess m) : List String → m (Option String)
  | [] => return none
  | path :: paths => do
    if ← files.isFile path then return some path else files.firstFile? paths

end FileAccess

end AccessibleMarkup
