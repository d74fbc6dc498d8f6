import AccessibleMarkup.Text.Ascii
import AccessibleMarkup.Text.Bytes

/-! Attributes of opening tags. Values are the text as written: nothing in them is decoded. -/
namespace AccessibleMarkup.Markup

/-- How the value of an attribute is written. -/
inductive Quote where
  | double
  | single
  | unquoted
  /-- The name stands alone. -/
  | bare
  deriving DecidableEq, Repr

/-- An attribute at its place in a document. -/
structure Attribute where
  name : String
  /-- The value as written, empty when the name stands alone. -/
  value : String
  quote : Quote
  /-- The whole attribute with its quotes. -/
  range : ByteRange
  nameRange : ByteRange
  /-- The value without its quotes, if one is written. -/
  valueRange : Option ByteRange
  deriving DecidableEq, Repr

/-- Names are compared without regard to the case of ASCII letters. -/
def Attribute.hasName (attr : Attribute) (name : String) : Bool :=
  Text.sameIgnoringCase attr.name name

/-- The first attribute of the name, which is the one that counts. -/
def findAttribute? (attributes : List Attribute) (name : String) : Option Attribute :=
  attributes.find? (·.hasName name)

def attributeValue? (attributes : List Attribute) (name : String) : Option String :=
  (findAttribute? attributes name).map (·.value)

def hasAttribute (attributes : List Attribute) (name : String) : Bool :=
  (findAttribute? attributes name).isSome

end AccessibleMarkup.Markup
