import AccessibleMarkup.Failure
import AccessibleMarkup.Config.Basic
import AccessibleMarkup.Files.Access
import AccessibleMarkup.Files.IgnoreRules

/-! Finding the documents to check: the files under a directory that the configuration asks for and
that no ignore file leaves out. -/
namespace AccessibleMarkup.Discovery

variable {m : Type → Type} [Monad m]

/-- The patterns of the files to check and of those to leave out. -/
structure Selection where
  included : List Glob
  excluded : List Glob

def Selection.accepts (selection : Selection) (path : String) : Bool :=
  selection.included.any (·.accepts path) && !selection.excluded.any (·.accepts path)

/-- Reads patterns, or says which of them is malformed. -/
def readGlobs (patterns : List String) : Except Failure (List Glob) :=
  patterns.mapM fun pattern =>
    match Glob.read? pattern with
    | some glob => .ok glob
    | none => .error { message := s!"`{pattern}`", causes := ["Pattern syntax error"] }

def readSelection (config : AnalyzerConfig) : Except Failure Selection := do
  let included ← (readGlobs config.included).mapError (·.within "Invalid include pattern")
  let excluded ← (readGlobs config.excluded).mapError (·.within "Invalid exclude pattern")
  return { included, excluded }

def readIgnoreFile (files : FileAccess m) (depth : Nat) (path : String) :
    m (List IgnoreFile) := do
  match ← files.read path with
  | .ok text => return [⟨depth, IgnoreRule.readAll text⟩]
  | .error _ => return []

/-- Adds the ignore files of a directory, to which so many names lead. -/
def addIgnoreFiles (files : FileAccess m) (respectVersioned : Bool) (directory : String)
    (depth : Nat) (outer : IgnoreFiles) : m IgnoreFiles := do
  let general ← readIgnoreFile files depth (Path.join directory ".ignore")
  if respectVersioned then
    let versioned ← readIgnoreFile files depth (Path.join directory ".gitignore")
    let unshared ← readIgnoreFile files depth (Path.join directory ".git/info/exclude")
    return {
      general := general ++ outer.general
      versioned := versioned ++ outer.versioned
      unshared := unshared ++ outer.unshared }
  else return { outer with general := general ++ outer.general }

def outerIgnoreFiles (files : FileAccess m) (respectVersioned : Bool) (place : List String) :
    m IgnoreFiles :=
  (List.range place.length).foldlM
    (fun outer depth =>
      addIgnoreFiles files respectVersioned ("/" ++ String.intercalate "/" (place.take depth)) depth
        outer) {}

structure Found where
  /-- The path under which it is read. -/
  path : String
  /-- The names that lead to it from the searched directory. -/
  names : List String
  deriving DecidableEq, Repr

/-- A directory on the way: its path, the names that lead to it from the searched directory and
from the root, and the ignore files that count in it. -/
structure Visit where
  path : String
  names : List String
  place : List String
  ignored : IgnoreFiles

def filesIn (files : FileAccess m) (respectVersioned : Bool) : Nat → Visit → m (List Found)
  | 0, _ => return []
  | depth + 1, visit => do
    let ignored ← addIgnoreFiles files respectVersioned visit.path visit.place.length visit.ignored
    let found ← (← files.list visit.path).mapM fun (name, kind) => do
      let path := Path.join visit.path name
      let names := visit.names ++ [name]
      let place := visit.place ++ [name]
      match kind with
      | .file => return if ignored.leavesOut place false then [] else [⟨path, names⟩]
      | .directory =>
        if ignored.leavesOut place true then return []
        else filesIn files respectVersioned depth { path, names, place, ignored }
    return found.flatten

def maxDepth : Nat := 4096

/-- The files to check under a directory, sorted by their names. -/
def filesUnder (files : FileAccess m) (directory : String) (config : AnalyzerConfig)
    (selection : Selection) : m (List String) := do
  let place := Path.names ((← files.absolute? directory).getD directory)
  let ignored ← outerIgnoreFiles files config.respectGitignore place
  let found ← filesIn files config.respectGitignore maxDepth
    { path := directory, names := [], place, ignored }
  let selected := found.filter fun file => selection.accepts (String.intercalate "/" file.names)
  return (selected.mergeSort fun left right => Path.before left.names right.names).map (·.path)

/-- The documents that a path stands for. A file stands for itself, whatever it is called. -/
def documents (files : FileAccess m) (path : String) (config : AnalyzerConfig) :
    m (Except Failure (List String)) := do
  match ← files.kind? path with
  | some .file => return .ok [path]
  | none => return .error { message := s!"No such file or directory: {path}" }
  | some .directory =>
    match readSelection config with
    | .error failure => return .error failure
    | .ok selection => return .ok (← filesUnder files path config selection)

end AccessibleMarkup.Discovery
