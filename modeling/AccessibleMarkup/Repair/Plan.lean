import AccessibleMarkup.Markup.Attribute.Reader
import AccessibleMarkup.Markup.Filter
import AccessibleMarkup.Markup.Outline
import AccessibleMarkup.Repair.Edit
import AccessibleMarkup.Repair.Fix

/-! Planning a fix: the one edit that makes it on a text, or the reason why nothing is to be done.
Elements are found in the filtered text and edits are made on the text as written. -/
namespace AccessibleMarkup

open Markup

inductive SkipReason where
  /-- No element encloses the anchor. -/
  | anchorNotFound
  /-- The document is already as the fix wants it. -/
  | alreadySatisfied
  /-- The end of the element is not known. -/
  | unknownExtent
  deriving DecidableEq, Repr

def SkipReason.message : SkipReason → String
  | anchorNotFound => "anchor element not found"
  | alreadySatisfied => "already satisfied"
  | unknownExtent => "element end unknown"

/-- What a fix comes to on a text. -/
inductive FixOutcome where
  | applied (edit : Edit)
  | skipped (reason : SkipReason)
  deriving DecidableEq, Repr

def FixOutcome.edit? : FixOutcome → Option Edit
  | applied edit => some edit
  | skipped _ => none

/-- The element that a fix is made on, and the element around it. -/
structure FixTarget where
  node : Node
  parent : Option Node
  deriving DecidableEq, Repr

namespace FixTarget

/-- The elements that enclose an offset or start at it, outermost first. -/
def enclosing (text : List Char) (anchor : Nat) : List Node :=
  (outlineNodes text).filter fun node =>
    node.start ≤ anchor && (node.start == anchor || anchor < node.stop)

/-- The innermost element that encloses the anchor, and the next one around it. -/
def locate? (text : List Char) (anchor : Nat) : Option FixTarget :=
  match (enclosing text anchor).reverse with
  | [] => none
  | node :: around => some ⟨node, around.head?⟩

end FixTarget

namespace Fix

def nameStop (node : Node) : Nat := node.start + 1 + Text.byteLength node.name.toList

/-- The attributes of an element as written in the source. -/
def writtenAttributes (source : List Char) (node : Node) : List Attribute :=
  match Text.slice? source node.start node.openStop with
  | some tag => readAttributes tag node.start
  | none => []

/-- A value between double quotes, with each double quote in it written as an entity. -/
def quotedValue (value : String) : List Char :=
  '"' :: value.toList.flatMap (fun c => if c = '"' then "&quot;".toList else [c]) ++ ['"']

def writeWithValue (name value : String) : List Char := name.toList ++ '=' :: quotedValue value

/-- An attribute; without a value the name stands alone. -/
def writeAttribute (name value : String) : List Char :=
  if value = "" then name.toList else writeWithValue name value

/-- Inserts an attribute after the last one, or after the tag name. -/
def insertAttribute (node : Node) (attributes : List Attribute) (name value : String) : Edit :=
  let offset := match attributes.getLast? with
    | some last => last.range.stop
    | none => nameStop node
  Edit.insertion offset (' ' :: writeAttribute name value)

/-- Removes an attribute with the white space before it, up to the tag name. -/
def deleteAttribute (source : List Char) (node : Node) (found : Attribute) : Edit :=
  let before := Text.charsBefore source found.range.start
  let space := (before.reverse.takeWhile Text.isMarkupSpace).length
  ⟨⟨found.range.start - min space (found.range.start - nameStop node), found.range.stop⟩, []⟩

/-- Whether the range of the source holds nothing but blanks. -/
def isBlankBetween (source : List Char) (start stop : Nat) : Bool :=
  (Text.slice? source start stop).any Text.isAllBlank

/-- Whether an element has the tag name and holds the other element alone. -/
def wrapsTightly (source : List Char) (outer inner : Node) (tag : String) : Bool :=
  Text.sameIgnoringCase outer.name tag &&
    isBlankBetween source outer.openStop inner.start &&
    isBlankBetween source inner.stop outer.closeStart

/-- The characters in the range, or the error of an edit there. -/
def sliceForEdit (source : List Char) (start stop : Nat) : Except FixError (List Char) :=
  match Text.slice? source start stop with
  | some found => .ok found
  | none => .error (.editOutOfBounds start stop (Text.byteLength source))

def wrapElement (source : List Char) (node : Node) (tag : String)
    (attributes : List (String × String)) : Except FixError Edit := do
  let content ← sliceForEdit source node.start node.stop
  let opening := '<' :: tag.toList ++
    attributes.flatMap (fun (name, value) => ' ' :: writeAttribute name value) ++ ['>']
  return ⟨⟨node.start, node.stop⟩, opening ++ content ++ ['<', '/'] ++ tag.toList ++ ['>']⟩

/-- Writes another name in the opening and the closing tag. -/
def renameBoth (source : List Char) (node : Node) (name : String) : Except FixError Edit := do
  let closingName := node.closeStart + 2
  let oldLength := match Text.splitAt? source closingName with
    | some (_, rest) => (rest.takeWhile isNameChar).length
    | none => 0
  let middle ← sliceForEdit source (nameStop node) closingName
  return ⟨⟨node.start + 1, closingName + oldLength⟩, name.toList ++ middle ++ name.toList⟩

def planRename (source : List Char) (node : Node) (name : String) :
    Except FixError FixOutcome :=
  if Text.sameIgnoringCase node.name name then .ok (.skipped .alreadySatisfied)
  else if !node.extent.isKnown then .ok (.skipped .unknownExtent)
  else if node.extent = .closed then (renameBoth source node name).map .applied
  else .ok (.applied ⟨⟨node.start + 1, nameStop node⟩, name.toList⟩)

def planSet (source : List Char) (node : Node) (name value : String) : FixOutcome :=
  let attributes := writtenAttributes source node
  match findAttribute? attributes name with
  | some found =>
    if found.value = value && found.quote = .double then .skipped .alreadySatisfied
    else .applied ⟨found.range, writeWithValue found.name value⟩
  | none => .applied (insertAttribute node attributes name value)

def planOn (fix : Fix) (source : List Char) (target : FixTarget) : Except FixError FixOutcome :=
  let node := target.node
  match fix with
  | addAttribute name value =>
    let attributes := writtenAttributes source node
    if hasAttribute attributes name then .ok (.skipped .alreadySatisfied)
    else .ok (.applied (insertAttribute node attributes name value))
  | setAttribute name value => .ok (planSet source node name value)
  | removeAttribute name =>
    match findAttribute? (writtenAttributes source node) name with
    | some found => .ok (.applied (deleteAttribute source node found))
    | none => .ok (.skipped .alreadySatisfied)
  | wrap tag attributes =>
    if !node.extent.isKnown then .ok (.skipped .unknownExtent)
    else if target.parent.any fun outer => wrapsTightly source outer node tag then
      .ok (.skipped .alreadySatisfied)
    else (wrapElement source node tag attributes).map .applied
  | remove =>
    if node.extent.isKnown then .ok (.applied ⟨⟨node.start, node.stop⟩, []⟩)
    else .ok (.skipped .unknownExtent)
  | rename name => planRename source node name

/-- What the fix comes to on the innermost element that encloses the anchor. -/
def plan (fix : Fix) (source : List Char) (anchor : Nat) (filter : MarkupFilter) :
    Except FixError FixOutcome :=
  let length := Text.byteLength source
  if length < anchor then .error (.anchorOutOfBounds anchor length)
  else match fix.invalidName? with
    | some name => .error (.invalidName name)
    | none =>
      match FixTarget.locate? (filter.apply source) anchor with
      | none => .ok (.skipped .anchorNotFound)
      | some target => fix.planOn source target

end Fix

end AccessibleMarkup
