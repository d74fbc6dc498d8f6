import AccessibleMarkup.Markup.Attribute
import AccessibleMarkup.Text.Blank
import AccessibleMarkup.Text.Ascii

/-! Roles of elements: the one written in the `role` attribute, or the one its name stands for. -/
namespace AccessibleMarkup.Markup

/-- The role that the `role` attribute names: its first word. -/
def writtenRole? (attributes : List Attribute) : Option String :=
  (attributeValue? attributes "role").bind fun value => (Text.words value).head?

def inputRole? (attributes : List Attribute) : Option String :=
  let kind := Text.asciiLower (Text.trim ((attributeValue? attributes "type").getD ""))
  match kind with
  | "checkbox" => some "checkbox"
  | "radio" => some "radio"
  | "range" => some "slider"
  | "button" | "submit" | "reset" | "image" => some "button"
  | "number" => some "spinbutton"
  | "search" => some "searchbox"
  | "hidden" | "file" | "color" | "date" | "datetime-local" | "month" | "time" | "week"
  | "password" => none
  | _ => some (if hasAttribute attributes "list" then "combobox" else "textbox")

/-- Whether a `select` element shows several rows or takes several choices. -/
def isListSelect (attributes : List Attribute) : Bool :=
  hasAttribute attributes "multiple" ||
    ((attributeValue? attributes "size").bind fun size =>
      Text.readNatural? (Text.valuesOf 32 - 1) (Text.trim size)).any (1 < ·)

/-- The role that an element has without a `role` attribute. -/
def impliedRole? (name : String) (attributes : List Attribute) : Option String :=
  match name with
  | "nav" => some "navigation"
  | "main" => some "main"
  | "header" => some "banner"
  | "footer" => some "contentinfo"
  | "aside" => some "complementary"
  | "form" => some "form"
  | "section" => some "region"
  | "article" => some "article"
  | "ul" | "ol" | "menu" => some "list"
  | "li" => some "listitem"
  | "button" | "summary" => some "button"
  | "a" | "area" => if hasAttribute attributes "href" then some "link" else none
  | "table" => some "table"
  | "tr" => some "row"
  | "td" => some "cell"
  | "th" => some "columnheader"
  | "dialog" => some "dialog"
  | "h1" | "h2" | "h3" | "h4" | "h5" | "h6" => some "heading"
  | "img" => some (if attributeValue? attributes "alt" = some "" then "presentation" else "img")
  | "hr" => some "separator"
  | "select" => some (if isListSelect attributes then "listbox" else "combobox")
  | "option" => some "option"
  | "textarea" => some "textbox"
  | "progress" => some "progressbar"
  | "output" => some "status"
  | "details" | "fieldset" | "optgroup" => some "group"
  | "input" => inputRole? attributes
  | _ => none

/-- The role of an element: a written one wins over the implied one. -/
def role? (name : String) (attributes : List Attribute) : Option String :=
  match writtenRole? attributes with
  | some written => some (Text.asciiLower written)
  | none => impliedRole? name attributes

end AccessibleMarkup.Markup
