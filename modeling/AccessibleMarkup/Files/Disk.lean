import AccessibleMarkup.Files.Access

/-! Files that are held in memory. -/
namespace AccessibleMarkup

inductive DiskEntry where
  | file (bytes : ByteArray)
  | directory

/-- The files and directories by the names that lead to them from the root, and the working
directory. -/
structure Disk where
  entries : List (List String × DiskEntry) := []
  workingDirectory : List String := []

namespace Disk

/-- What stands at a place; the root is always a directory. -/
def entry? (disk : Disk) (place : List String) : Option DiskEntry :=
  if place.isEmpty then some .directory else disk.entries.lookup place

def isDirectoryAt (disk : Disk) (place : List String) : Bool :=
  match disk.entry? place with
  | some .directory => true
  | _ => false

def step (disk : Disk) (place : List String) (piece : String) : Except FileError (List String) :=
  if !disk.isDirectoryAt place then .error .notDirectory
  else if piece = "" || piece = "." then .ok place
  else if piece = ".." then .ok place.dropLast
  else if (disk.entry? (place ++ [piece])).isSome then .ok (place ++ [piece])
  else .error .notFound

def resolve (disk : Disk) (path : String) : Except FileError (List String) :=
  if path = "" then .error .notFound
  else if Path.isAbsolute path then (Path.pieces path).foldlM disk.step []
  else (Path.pieces path).foldlM disk.step disk.workingDirectory

def lookup (disk : Disk) (path : String) : Except FileError DiskEntry := do
  match disk.entry? (← disk.resolve path) with
  | some entry => .ok entry
  | none => .error .notFound

def kind? (disk : Disk) (path : String) : Option FileKind :=
  match disk.lookup path with
  | .ok (.file _) => some .file
  | .ok .directory => some .directory
  | .error _ => none

def read (disk : Disk) (path : String) : Except FileError (List Char) := do
  match ← disk.lookup path with
  | .directory => .error .isDirectory
  | .file bytes =>
    match String.fromUTF8? bytes with
    | some text => .ok text.toList
    | none => .error .notText

/-- Puts an entry at a place, in the stead of what was there. -/
def put (disk : Disk) (place : List String) (entry : DiskEntry) : Disk :=
  if (disk.entries.lookup place).isSome then
    { disk with entries := disk.entries.map fun known =>
      if known.1 == place then (place, entry) else known }
  else { disk with entries := disk.entries ++ [(place, entry)] }

/-- Puts a file at a place, and the directories that lead to it. -/
def putFile (disk : Disk) (place : List String) (bytes : ByteArray) : Disk :=
  ((List.range place.length).foldl
    (fun disk depth =>
      if depth = 0 || disk.isDirectoryAt (place.take depth) then disk
      else disk.put (place.take depth) .directory) disk).put place (.file bytes)

/-- The place at which a path writes: that of a file which is there, or a new one in a directory
which is there. -/
def writePlace (disk : Disk) (path : String) : Except FileError (List String) :=
  match disk.resolve path with
  | .ok place => if disk.isDirectoryAt place then .error .isDirectory else .ok place
  | .error cause =>
    match (Path.pieces path).reverse with
    | name :: before =>
      if name = "" || name = "." || name = ".." then .error cause
      else do
        let directory ← disk.resolve
          (if before.isEmpty then "." else String.intercalate "/" (before.reverse ++ [""]))
        if disk.isDirectoryAt directory then .ok (directory ++ [name]) else .error cause
    | [] => .error cause

def write (disk : Disk) (path : String) (text : List Char) : Except FileError Disk := do
  return disk.put (← disk.writePlace path) (.file (String.ofList text).toUTF8)

def list (disk : Disk) (path : String) : List (String × FileKind) :=
  match disk.resolve path with
  | .error _ => []
  | .ok directory =>
    disk.entries.filterMap fun (place, entry) =>
      if place.length = directory.length + 1 && directory.isPrefixOf place then
        place.getLast?.map fun name =>
          (name, match entry with
            | .file _ => .file
            | .directory => .directory)
      else none

def absolute? (disk : Disk) (path : String) : Option String :=
  (disk.resolve path).toOption.map fun place => "/" ++ String.intercalate "/" place

def access : FileAccess (StateM Disk) where
  kind? path := return (← get).kind? path
  read path := return (← get).read path
  write path text := do
    match (← get).write path text with
    | .ok disk => set disk; return .ok ()
    | .error cause => return .error cause
  list path := return (← get).list path
  absolute? path := return (← get).absolute? path

end Disk

end AccessibleMarkup
