/-! JSON values and their text over several lines. -/
namespace AccessibleMarkup

inductive Json where
  | null
  | boolean (truth : Bool)
  | number (value : Nat)
  | string (text : String)
  | array (items : List Json)
  /-- Members in the order in which they are written. -/
  | object (members : List (String × Json))

namespace Json

def hexDigit (n : Nat) : Char := (Nat.toDigits 16 n).headD '0'

/-- The characters that stand for one in a string: quotes, backslashes and control characters are
written with a backslash. -/
def escapeChar (c : Char) : List Char :=
  if c = '"' then ['\\', '"']
  else if c = '\\' then ['\\', '\\']
  else if c = '\n' then ['\\', 'n']
  else if c = '\r' then ['\\', 'r']
  else if c = '\t' then ['\\', 't']
  else if c = '\x08' then ['\\', 'b']
  else if c = '\x0c' then ['\\', 'f']
  else if c.toNat < 32 then ['\\', 'u', '0', '0', hexDigit (c.toNat / 16), hexDigit (c.toNat % 16)]
  else [c]

def quoted (text : String) : String :=
  String.ofList ('"' :: text.toList.flatMap escapeChar ++ ['"'])

def lineBreak (level : Nat) : String := String.ofList ('\n' :: List.replicate (2 * level) ' ')

/-- Texts between brackets, each on a line of its own one level deeper. -/
def bracketed (opening closing : String) (level : Nat) (texts : List String) : String :=
  if texts.isEmpty then opening ++ closing
  else opening ++ String.intercalate "," (texts.map fun text => lineBreak (level + 1) ++ text) ++
    lineBreak level ++ closing

mutual

def write (level : Nat) : Json → String
  | null => "null"
  | boolean truth => if truth then "true" else "false"
  | number value => toString value
  | string text => quoted text
  | array items => bracketed "[" "]" level (writeItems (level + 1) items)
  | object members => bracketed "\x7b" "\x7d" level (writeMembers (level + 1) members)

def writeItems (level : Nat) : List Json → List String
  | [] => []
  | item :: items => write level item :: writeItems level items

def writeMembers (level : Nat) : List (String × Json) → List String
  | [] => []
  | (key, value) :: members =>
    (quoted key ++ ": " ++ write level value) :: writeMembers level members

end

def pretty (value : Json) : String := write 0 value

end Json

end AccessibleMarkup
