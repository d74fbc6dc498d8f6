import AccessibleMarkup.Text.Blank

/-! Fixes: corrections of an element that are described without a document. -/
namespace AccessibleMarkup

/-- A correction of the element at some place. -/
inductive Fix where
  /-- Adds the attribute unless it is there; without a value the name stands alone. -/
  | addAttribute (name value : String)
  /-- Gives the attribute the value, in double quotes, and adds it if it is not there. -/
  | setAttribute (name value : String)
  | removeAttribute (name : String)
  | wrap (tag : String) (attributes : List (String × String))
  | remove
  | rename (name : String)
  deriving DecidableEq, Repr

namespace Fix

def describe : Fix → String
  | addAttribute name value =>
    if value = "" then s!"add `{name}`" else s!"add `{name}=\"{value}\"`"
  | setAttribute name value => s!"set `{name}=\"{value}\"`"
  | removeAttribute name => s!"remove `{name}`"
  | wrap tag _ => s!"wrap in `<{tag}>`"
  | remove => "remove element"
  | rename name => s!"rename to `<{name}>`"

/-- Whether the name can be written as the name of a tag. -/
def isTagName (name : String) : Bool :=
  match name.toList with
  | [] => false
  | first :: rest => first.isAlpha && (first :: rest).all fun c => c.isAlphanum || c == '-'

def isControlChar (c : Char) : Bool := c.toNat < 32 || (127 ≤ c.toNat && c.toNat ≤ 159)

/-- The characters that cannot stand in the name of an attribute. -/
def endsAttributeName (c : Char) : Bool :=
  Text.isBlank c || isControlChar c || c == '"' || c == '\'' || c == '>' || c == '/' || c == '=' ||
    c == '<'

/-- Whether the name can be written as the name of an attribute. -/
def isAttributeName (name : String) : Bool :=
  name != "" && name.toList.all fun c => !endsAttributeName c

def invalidName? : Fix → Option String
  | addAttribute name _ => if isAttributeName name then none else some name
  | setAttribute name _ => if isAttributeName name then none else some name
  | removeAttribute name => if isAttributeName name then none else some name
  | wrap tag attributes =>
    if isTagName tag then (attributes.map (·.1)).find? fun name => !isAttributeName name
    else some tag
  | remove => none
  | rename name => if isTagName name then none else some name

end Fix

end AccessibleMarkup
