import AccessibleMarkup.Markup.Tag.Lexer

/-! The outline of a text: where each element starts and ends, and which element it stands in.

One pass over the tags keeps the path of open elements. A closing tag ends the nearest open element
of its name and all elements opened after it; a closing tag that matches nothing open ends every
open element, unless it is the late closing tag of an element that was cut off before. -/
namespace AccessibleMarkup.Markup

/-- How the end of an element was found. -/
inductive Extent where
  /-- Ended by its own closing tag. -/
  | closed
  | selfClosed
  | void
  /-- The closing tag may be left out, and the element ends where another tag says so. -/
  | implied
  /-- Cut off by a closing tag that belongs to something else. -/
  | crossed
  /-- Open up to the end of the text. -/
  | unterminated
  deriving DecidableEq, Repr

def Extent.isKnown : Extent → Bool
  | crossed => false
  | unterminated => false
  | _ => true

structure Node where
  /-- The tag name in lower case. -/
  name : String
  /-- Offset of the opening tag. -/
  start : Nat
  /-- Offset after the opening tag. -/
  openStop : Nat
  /-- Offset of the closing tag, or the end without one. -/
  closeStart : Nat
  /-- Offset after the element. -/
  stop : Nat
  extent : Extent
  /-- Index of the element it stands in. -/
  parent : Option Nat
  /-- Number of elements it stands in. -/
  depth : Nat
  /-- Opened while the closing tag of an element that was cut off was still to come, so that its
  parent may be another than the one meant. -/
  detached : Bool
  deriving DecidableEq, Repr

/-- Ends the element at an offset where no closing tag of its own stands. -/
def Node.endAt (node : Node) (offset : Nat) (extent : Extent) : Node :=
  { node with closeStart := offset, stop := offset, extent }

def Node.closeWith (node : Node) (tag : Tag) : Node :=
  { node with closeStart := tag.start, stop := tag.stop, extent := .closed }

/-- An element whose end has not been read yet. -/
structure OpenNode where
  index : Nat
  name : String
  deriving DecidableEq, Repr

/-- The outline of the tags read so far. -/
structure Outline where
  nodes : List Node := []
  /-- The open elements, innermost first. -/
  path : List OpenNode := []
  /-- Names of elements that were cut off and whose closing tags are still to come. -/
  owed : List String := []
  deriving Repr

namespace Outline

def endAll (nodes : List Node) (ended : List OpenNode) (offset : Nat)
    (extent : OpenNode → Extent) : List Node :=
  ended.foldl (fun nodes node => nodes.modify node.index (·.endAt offset (extent node))) nodes

/-- Ends the innermost element if an opening tag of this name ends it. -/
def endSibling (outline : Outline) (name : String) (offset : Nat) : Outline :=
  match outline.path with
  | [] => outline
  | top :: outer =>
    if isSelfEnding name && top.name == name then
      { outline with
        nodes := endAll outline.nodes [top] offset fun _ => .implied
        path := outer }
    else outline

/-- How an element ends that an opening tag starts, until a closing tag is read. -/
def openingExtent (tag : Tag) (selfClosing : Bool) (name : String) : Extent :=
  if !tag.terminated then .unterminated
  else if selfClosing then .selfClosed
  else if isVoid name then .void
  else .unterminated

/-- Whether an opening tag starts an element with content. -/
def hasContent (tag : Tag) (selfClosing : Bool) (name : String) : Bool :=
  tag.terminated && !selfClosing && !isVoid name

def readOpening (outline : Outline) (length : Nat) (tag : Tag) (selfClosing : Bool) : Outline :=
  let name := Text.asciiLower tag.name
  let before := outline.endSibling name tag.start
  let extent := openingExtent tag selfClosing name
  let stop := if extent = .unterminated then length else tag.stop
  let index := before.nodes.length
  { before with
    nodes := before.nodes ++ [{
      name, start := tag.start, openStop := tag.stop, closeStart := stop, stop, extent
      parent := before.path.head?.map (·.index)
      depth := before.path.length
      detached := !before.owed.isEmpty }]
    path := if hasContent tag selfClosing name then ⟨index, name⟩ :: before.path else before.path }

/-- How an open element ends at the closing tag of an element around it. -/
def innerExtent (inner : OpenNode) : Extent :=
  if isSelfEnding inner.name then .implied else .crossed

/-- The names of the elements that a closing tag cuts off. -/
def cutOff (inner : List OpenNode) : List String :=
  (inner.filter fun node => !isSelfEnding node.name).map (·.name)

def readClosing (outline : Outline) (tag : Tag) : Outline :=
  let name := Text.asciiLower tag.name
  let inner := outline.path.takeWhile (·.name != name)
  match outline.path.dropWhile (·.name != name) with
  | closed :: outer =>
    { nodes := (endAll outline.nodes inner tag.start innerExtent).modify closed.index
        (·.closeWith tag)
      path := outer
      owed := cutOff inner ++ outline.owed }
  | [] =>
    if outline.owed.contains name then { outline with owed := outline.owed.erase name }
    else
      { nodes := endAll outline.nodes outline.path tag.start fun _ => .crossed
        path := []
        owed := outline.path.map (·.name) ++ outline.owed }

def read (length : Nat) (outline : Outline) (tag : Tag) : Outline :=
  match tag.kind with
  | .opening selfClosing => outline.readOpening length tag selfClosing
  | .closing => outline.readClosing tag
  | .markup => outline

def ofTags (length : Nat) (tags : List Tag) : Outline := tags.foldl (read length) {}

end Outline

/-- The elements of a text in document order, without their attributes. -/
def outlineNodes (text : List Char) : List Node :=
  (Outline.ofTags (Text.byteLength text) (lex text)).nodes

/-- The outline element whose opening tag stands at an offset. -/
def nodeAt? (text : List Char) (start : Nat) : Option Node :=
  (outlineNodes text).find? (·.start == start)

end AccessibleMarkup.Markup
