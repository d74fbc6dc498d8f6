import AccessibleMarkup.Files.Glob
import AccessibleMarkup.Text.Bytes

/-! Rules of ignore files: lines that say which paths below their directory to leave out. The last
line that fits a path decides. -/
namespace AccessibleMarkup

structure IgnoreRule where
  /-- The path from the directory of the file. -/
  pattern : Text.Pattern
  /-- Whether the paths are kept instead of left out. -/
  keeps : Bool
  /-- Whether the rule is about directories only. -/
  onlyDirectories : Bool

namespace IgnoreRule

open Text Text.Pattern

/-- Reads the ranges between brackets; the pattern, and how many characters of the text belong to
it. -/
def readRanges? (rest : List Char) : Option (Pattern × Nat) :=
  let negated := rest.head? == some '!' || rest.head? == some '^'
  (CharRanges.inside? (if negated then rest.drop 1 else rest)).map fun inside =>
    let ranges := CharRanges.read inside
    (one fun c => ranges.contains c != negated, inside.length + if negated then 2 else 1)

/-- The pattern of a name, after skipping some characters. A backslash takes away the meaning of the
next character. -/
def namePattern? : Nat → List Char → Option Pattern
  | _, [] => some empty
  | skip + 1, _ :: rest => namePattern? skip rest
  | 0, c :: rest =>
    if c = '*' then (namePattern? 0 rest).map (andThen (many (· != '/')))
    else if c = '?' then (namePattern? 0 rest).map (andThen (one (· != '/')))
    else if c = '[' then
      (readRanges? rest).bind fun (ranges, skip) => (namePattern? skip rest).map (andThen ranges)
    else if c = '\\' then
      match rest with
      | [] => none
      | next :: _ => (namePattern? 1 rest).map (andThen (one (· == next)))
    else (namePattern? 0 rest).map (andThen (one (· == c)))

/-- The pattern of the names of a path. Two stars in place of a name stand for any directories, and
at the end for anything. -/
def pathPattern? : List (List Char) → Option Pattern
  | [] => some empty
  | [['*', '*']] => some (many fun _ => true)
  | [name] => namePattern? 0 name
  | name :: names =>
    if name = ['*', '*'] then (pathPattern? names).map (andThen Glob.someDirectories)
    else do
      let first ← namePattern? 0 name
      let rest ← pathPattern? names
      return sequence [first, one (· == '/'), rest]

/-- The names of a path with what is left unsaid: a name alone may stand in any directory, and two
stars at the end stand for what is in the directory and not for the directory itself. -/
def expand (rooted : Bool) (names : List (List Char)) : List (List Char) :=
  let names := if !rooted && names.length = 1 && names != [['*', '*']] then
    ['*', '*'] :: names else names
  if 1 < names.length && names.getLast? == some ['*', '*'] then names ++ [['*']] else names

def readTrimmed? (line : List Char) : Option IgnoreRule := do
  let (line, keeps) := match line with
    | '!' :: rest => (rest, true)
    | '\\' :: '!' :: rest => ('!' :: rest, false)
    | '\\' :: '#' :: rest => ('#' :: rest, false)
    | _ => (line, false)
  let (line, rooted) := match line with
    | '/' :: rest => (rest, true)
    | _ => (line, false)
  let (line, onlyDirectories) := match line.reverse with
    | '/' :: before => (before.reverse, true)
    | _ => (line, false)
  let pattern ← pathPattern? (expand rooted (line.splitOn '/'))
  return { pattern := andThen pattern textEnd, keeps, onlyDirectories }

/-- Reads the rule of a line. Comments, empty lines and malformed patterns are no rules. -/
def read? (line : List Char) : Option IgnoreRule :=
  if line.head? == some '#' then none
  else
    let kept := if [' ', '\\'].isPrefixOf line.reverse then line else trimEnd line
    if kept.isEmpty then none else readTrimmed? kept

def fits (rule : IgnoreRule) (path : List Char) (isDirectory : Bool) : Bool :=
  (!rule.onlyDirectories || isDirectory) && rule.pattern.matchesStart path

/-- Reads the rules of a file. A byte order mark at its start is passed over. -/
def readAll (text : List Char) : List IgnoreRule :=
  let text := match text with
    | c :: rest => if c.toNat = 0xFEFF then rest else text
    | [] => []
  (lines text).filterMap read?

/-- Whether the rules leave out a path, if they say anything about it. -/
def verdict? (rules : List IgnoreRule) (path : List Char) (isDirectory : Bool) : Option Bool :=
  (rules.reverse.find? fun rule => rule.fits path isDirectory).map fun rule => !rule.keeps

end IgnoreRule

/-- The rules of a file, and how many names lead to its directory. -/
structure IgnoreFile where
  depth : Nat
  rules : List IgnoreRule

/-- What the first of the files that has something to say about a place says. -/
def IgnoreFile.verdict? (files : List IgnoreFile) (place : List String) (isDirectory : Bool) :
    Option Bool :=
  files.findSome? fun file =>
    IgnoreRule.verdict? file.rules (String.intercalate "/" (place.drop file.depth)).toList
      isDirectory

/-- The ignore files that count in a directory, the nearest first. -/
structure IgnoreFiles where
  /-- Files that are for every tool. -/
  general : List IgnoreFile := []
  /-- Files for version control. -/
  versioned : List IgnoreFile := []
  /-- Files of a repository that are not part of it. -/
  unshared : List IgnoreFile := []

namespace IgnoreFiles

/-- Whether a place is left out. Files for every tool count before those for version control. -/
def leavesOut (files : IgnoreFiles) (place : List String) (isDirectory : Bool) : Bool :=
  (IgnoreFile.verdict? files.general place isDirectory <|>
    IgnoreFile.verdict? files.versioned place isDirectory <|>
    IgnoreFile.verdict? files.unshared place isDirectory).getD false

end IgnoreFiles

end AccessibleMarkup
