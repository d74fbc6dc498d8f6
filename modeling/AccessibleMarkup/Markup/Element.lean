import AccessibleMarkup.Markup.Attribute.Reader
import AccessibleMarkup.Markup.Outline
import AccessibleMarkup.Markup.Role

/-! Elements of a text with their attributes and roles. -/
namespace AccessibleMarkup.Markup

structure Element extends Node where
  attributes : List Attribute
  role : Option String
  deriving DecidableEq, Repr

namespace Element

/-- Reads the attributes of an outline element from the text it was found in. -/
def ofNode (text : List Char) (node : Node) : Element :=
  let attributes := match Text.slice? text node.start node.openStop with
    | some tag => readAttributes tag node.start
    | none => []
  { node with attributes, role := role? node.name attributes }

def attribute? (element : Element) (name : String) : Option Attribute :=
  findAttribute? element.attributes name

def value? (element : Element) (name : String) : Option String :=
  attributeValue? element.attributes name

def has (element : Element) (name : String) : Bool := hasAttribute element.attributes name

def hasRole (element : Element) (role : String) : Bool := element.role == some role

def hasRoleIn (element : Element) (roles : List String) : Bool := element.role.any roles.contains

def isKnown (element : Element) : Bool := element.extent.isKnown

def contentRange (element : Element) : ByteRange :=
  ⟨min element.openStop element.closeStart, element.closeStart⟩

/-- The content as written in the text the element was found in. -/
def content? (element : Element) (text : List Char) : Option (List Char) :=
  Text.slice? text element.contentRange.start element.contentRange.stop

end Element

/-- A text that starts at `offset`, with a space in place of each of the tags. -/
def textBetween : Nat → List Tag → List Char → List Char
  | _, [], text => text
  | offset, tag :: rest, text =>
    match Text.splitAt? text (tag.start - offset) with
    | some (before, after) =>
      before ++ ' ' :: textBetween tag.stop rest (Text.dropBytes after (tag.stop - tag.start))
    | none => []

/-- The words of the content outside its tags, with one space between them. -/
def Element.innerText (element : Element) (text : List Char) : String :=
  match element.content? text with
  | some content => Text.collapse (textBetween 0 (lex content) content)
  | none => ""

def elements (text : List Char) : List Element :=
  (outlineNodes text).map (Element.ofNode text)

end AccessibleMarkup.Markup
