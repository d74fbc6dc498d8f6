import AccessibleMarkup.Toml.Scalar
import AccessibleMarkup.Toml.Tree

/-! Reading TOML documents. -/
namespace AccessibleMarkup.Toml

def dropSpace (text : List Char) : List Char := text.dropWhile isInlineSpace

def isBareKeyChar (c : Char) : Bool := c.isAlphanum || c == '-' || c == '_'

def readSimpleKey (text : List Char) : Option (String × List Char) :=
  match text with
  | '"' :: rest => (readBasic rest).map fun (key, rest) => (String.ofList key, rest)
  | '\'' :: rest => (readLiteral rest).map fun (key, rest) => (String.ofList key, rest)
  | _ =>
    let key := text.takeWhile isBareKeyChar
    if key.isEmpty then none else some (String.ofList key, text.drop key.length)

/-- How many arrays and inline tables may stand in each other, and how many parts a key may have. -/
def maxDepth : Nat := 79

/-- The parts of a key between dots, of which there may be so many. -/
def readParts : Nat → List Char → Option (List String × List Char)
  | 0, _ => none
  | parts + 1, text => do
    let (first, rest) ← readSimpleKey (dropSpace text)
    match dropSpace rest with
    | '.' :: more =>
      let (others, rest) ← readParts parts more
      return (first :: others, rest)
    | rest => return ([first], rest)

def readKey (text : List Char) : Option (List String × List Char) := readParts maxDepth text

def dropComment? (text : List Char) : Option (List Char) :=
  match text with
  | '#' :: rest =>
    let after := rest.dropWhile isPlainChar
    if after.isEmpty || startsNewline after then some after else none
  | _ => some text

/-- Skips white space, line ends and comments between the items of an array. -/
def dropFiller : Nat → List Char → Option (List Char)
  | 0, _ => none
  | steps + 1, text =>
    match text with
    | '#' :: _ => (dropComment? text).bind (dropFiller steps)
    | ' ' :: rest => dropFiller steps rest
    | '\t' :: rest => dropFiller steps rest
    | '\n' :: rest => dropFiller steps rest
    | '\r' :: '\n' :: rest => dropFiller steps rest
    | _ => some text

def splitKey? (key : List String) : Option (List String × String) :=
  key.getLast?.map fun last => (key.dropLast, last)

mutual

/-- Reads a value with at most `depth` arrays and inline tables in each other; `steps` bounds the
work. -/
def readValue : Nat → Nat → List Char → Option (Value × List Char)
  | 0, _, _ => none
  | steps + 1, depth, text =>
    match text, depth with
    | '"' :: _, _ => (readString text).map fun (s, rest) => (.string s, rest)
    | '\'' :: _, _ => (readString text).map fun (s, rest) => (.string s, rest)
    | '[' :: _, 0 => none
    | '[' :: rest, depth + 1 => readItems steps depth rest
    | '\x7b' :: _, 0 => none
    | '\x7b' :: rest, depth + 1 =>
      match dropSpace rest with
      | '\x7d' :: rest => some (.table [], rest)
      | rest =>
        (readPairs steps depth [] rest).map fun (entries, rest) =>
          (.table (Slot.toEntries entries), rest)
    | _, _ => readWord text

/-- Reads the items of an array up to its closing bracket. -/
def readItems : Nat → Nat → List Char → Option (Value × List Char)
  | 0, _, _ => none
  | steps + 1, depth, text => do
    match ← dropFiller (text.length + 1) text with
    | ']' :: rest => return (.array [], rest)
    | text =>
      let (first, rest) ← readValue steps depth text
      match ← dropFiller (rest.length + 1) rest with
      | ']' :: rest => return (.array [first], rest)
      | ',' :: rest =>
        match ← readItems steps depth rest with
        | (.array others, rest) => return (.array (first :: others), rest)
        | _ => none
      | _ => none

/-- Reads the entries of an inline table up to its closing brace. -/
def readPairs : Nat → Nat → Entries → List Char → Option (Entries × List Char)
  | 0, _, _, _ => none
  | steps + 1, depth, entries, text => do
    let (key, rest) ← readKey text
    let (path, last) ← splitKey? key
    let rest ← expect? '=' rest
    let (value, rest) ← readValue steps depth (dropSpace rest)
    let entries ← Slot.addKey path last value .header entries
    match dropSpace rest with
    | '\x7d' :: rest => return (entries, rest)
    | ',' :: rest => readPairs steps depth entries rest
    | _ => none

end

/-- Skips the rest of a line, which holds nothing but a comment. -/
def dropLineEnd? (text : List Char) : Option (List Char) := do
  let rest ← dropComment? (dropSpace text)
  if rest.isEmpty || startsNewline rest then some (dropNewline rest) else none

/-- A document up to some line: its tables and the header in force. -/
structure Draft where
  root : Entries := []
  header : List String := []

def readHeader (draft : Draft) (text : List Char) : Option (Draft × List Char) := do
  match text with
  | '[' :: '[' :: rest =>
    let (key, rest) ← readKey rest
    let (path, last) ← splitKey? key
    let rest ← expect? ']' rest
    let rest ← expect? ']' rest
    return ({ root := ← Slot.openArrayTable path last draft.root, header := key }, rest)
  | '[' :: rest =>
    let (key, rest) ← readKey rest
    let (path, last) ← splitKey? key
    let rest ← expect? ']' rest
    return ({ root := ← Slot.openTable path last draft.root, header := key }, rest)
  | _ => none

def readPair (draft : Draft) (text : List Char) : Option (Draft × List Char) := do
  let (key, rest) ← readKey text
  let (path, last) ← splitKey? key
  let rest ← expect? '=' rest
  let (value, rest) ← readValue (text.length + 1) maxDepth (dropSpace rest)
  return ({ draft with root := ← Slot.addUnder draft.header path last value draft.root }, rest)

/-- Reads the lines of a document; `steps` bounds their number. -/
def readLines : Nat → Draft → List Char → Option Draft
  | 0, _, _ => none
  | steps + 1, draft, text => do
    match dropSpace text with
    | [] => return draft
    | '#' :: rest => readLines steps draft (← dropLineEnd? ('#' :: rest))
    | '\n' :: rest => readLines steps draft rest
    | '\r' :: '\n' :: rest => readLines steps draft rest
    | '[' :: rest =>
      let (draft, rest) ← readHeader draft ('[' :: rest)
      readLines steps draft (← dropLineEnd? rest)
    | text =>
      let (draft, rest) ← readPair draft text
      readLines steps draft (← dropLineEnd? rest)

/-- Reads a document, with or without a byte order mark in front. -/
def read? (text : List Char) : Option (List (String × Value)) :=
  let body := if text.head? = some (Char.ofNat 0xFEFF) then text.drop 1 else text
  (readLines (body.length + 1) {} body).map fun draft => Slot.toEntries draft.root

end AccessibleMarkup.Toml
