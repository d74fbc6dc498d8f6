import AccessibleMarkup.Text.Ascii

/-! Names of tags: their characters, and the element names that have rules of their own. -/
namespace AccessibleMarkup.Markup

/-- The characters of a tag name after its first letter. -/
def isNameChar (c : Char) : Bool :=
  c.isAlphanum || c == '-' || c == '_' || c == ':' || c == '.'

def voidNames : List String :=
  ["area", "base", "br", "col", "embed", "hr", "img", "input", "link", "meta", "param", "source",
    "track", "wbr"]

def isVoid (name : String) : Bool := voidNames.contains name

/-- Elements that an opening tag of their own name ends. -/
def selfEndingNames : List String := ["li", "p", "option", "dt", "dd", "tr", "td", "th"]

def isSelfEnding (name : String) : Bool := selfEndingNames.contains name

/-- Elements whose content is text up to their own closing tag. -/
inductive RawElement where
  | script
  | style
  deriving DecidableEq, Repr

namespace RawElement

def name : RawElement → String
  | script => "script"
  | style => "style"

/-- The raw element that a tag name opens, in any case. -/
def ofName? (name : String) : Option RawElement :=
  let lower := Text.asciiLower name
  if lower = "script" then some script
  else if lower = "style" then some style
  else none

/-- Whether a closing tag of this name ends the raw text. -/
def endedBy (element : RawElement) (closing : String) : Bool :=
  Text.sameIgnoringCase closing element.name

end RawElement

end AccessibleMarkup.Markup
