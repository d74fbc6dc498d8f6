/-! Paths of files: names with slashes between them, as text. -/
namespace AccessibleMarkup.Path

def isAbsolute (path : String) : Bool := path.toList.head? == some '/'

/-- The path of something in a directory. An absolute path stands for itself. -/
def join (directory path : String) : String :=
  if isAbsolute path then path
  else if directory = "" || directory.toList.getLast? == some '/' then directory ++ path
  else directory ++ "/" ++ path

def pieces (path : String) : List String := (path.toList.splitOn '/').map String.ofList

/-- The names in a path; a single point and nothing between two slashes are no names. -/
def names (path : String) : List String := (pieces path).filter fun name => name != "" && name != "."

/-- Drops what says nothing at the end of a path, given from its end. The first part stays. -/
def dropRedundant : List String → List String
  | [] => []
  | [first] => [first]
  | piece :: before =>
    if piece = "" || piece = "." then dropRedundant before else piece :: before

/-- The directory of a path. The root and the empty path have none. -/
def parent? (path : String) : Option String :=
  if path = "" then none
  else match dropRedundant (pieces path).reverse with
    | [] => none
    | [_] => if isAbsolute path then none else some ""
    | _ :: before =>
      match dropRedundant before with
      | [""] => some "/"
      | rest => some (String.intercalate "/" rest.reverse)

/-- A path and the directories that at most so many steps upward lead to. -/
def ancestorsWithin : Nat → String → List String
  | 0, path => [path]
  | steps + 1, path =>
    match parent? path with
    | some directory => path :: ancestorsWithin steps directory
    | none => [path]

def ancestors (path : String) : List String := ancestorsWithin path.length path

/-- Whether the names of one path come before those of another, name by name. -/
def before : List String → List String → Bool
  | [], _ => true
  | _ :: _, [] => false
  | left :: lefts, right :: rights => left < right || (left == right && before lefts rights)

end AccessibleMarkup.Path
