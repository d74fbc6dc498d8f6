import AccessibleMarkup.Document.References
import AccessibleMarkup.Markup.Filter
import AccessibleMarkup.Report.Location

/-! Documents: a text with its elements and references, as the rules see it. -/
namespace AccessibleMarkup

open Markup

structure Document where
  /-- The text as written. -/
  source : List Char
  /-- The text that the elements were found in, of the same length. -/
  text : List Char
  elements : List Element
  index : ReferenceIndex

/-- The elements that stand in no other element, and for each element those that stand directly in
it. -/
structure Branches where
  roots : List Nat
  children : List (List Nat)

namespace Branches

/-- Puts one more element under the element it stands in. -/
def add (branches : Branches) (entry : Element × Nat) : Branches :=
  match entry.1.parent with
  | some parent => { branches with children := branches.children.modify parent (· ++ [entry.2]) }
  | none => { branches with roots := branches.roots ++ [entry.2] }

def ofElements (elements : List Element) : Branches :=
  elements.zipIdx.foldl add ⟨[],elements.map fun _ => []⟩

end Branches

namespace Document

/-- Reads a document after blanking what the filter says. -/
def read (source : List Char) (filter : MarkupFilter := Filter.keep) : Document :=
  let text := filter.apply source
  let elements := Markup.elements text
  { source, text, elements, index := ReferenceIndex.build elements }

def length (doc : Document) : Nat := Text.byteLength doc.source

def indicesWhere (doc : Document) (condition : Element → Bool) : List Nat :=
  (doc.elements.zipIdx.filter fun entry => condition entry.1).map (·.2)

def roots (doc : Document) : List Nat := (Branches.ofElements doc.elements).roots

def children (doc : Document) (i : Nat) : List Nat :=
  ((Branches.ofElements doc.elements).children[i]?).getD []

/-- The elements that stand in an element at any depth: those after it, up to the first that is not
deeper. -/
def descendants (doc : Document) (i : Nat) : List Nat :=
  match doc.elements[i]? with
  | none => []
  | some element =>
    ((doc.elements.zipIdx.drop (i + 1)).takeWhile fun entry => element.depth < entry.1.depth).map
      (·.2)

/-- The elements that the links to parents lead to in at most `steps` steps, nearest first. -/
def ancestorsWithin (elements : List Element) : Nat → Nat → List Nat
  | 0, _ => []
  | steps + 1, i =>
    match (elements[i]?).bind (·.parent) with
    | some parent => parent :: ancestorsWithin elements steps parent
    | none => []

/-- The elements that an element stands in, nearest first. -/
def ancestors (doc : Document) (i : Nat) : List Nat :=
  ancestorsWithin doc.elements doc.elements.length i

def holdsAt (doc : Document) (condition : Element → Bool) (i : Nat) : Bool :=
  (doc.elements[i]?).any condition

/-- The nearest element around an element with one of the roles. -/
def nearestWithRole? (doc : Document) (i : Nat) (roles : List String) : Option Nat :=
  (doc.ancestors i).find? (doc.holdsAt (·.hasRoleIn roles))

def withRole (doc : Document) (role : String) : List Nat := doc.indicesWhere (·.hasRole role)

/-- The elements with the tag name, which is in lower case. -/
def named (doc : Document) (name : String) : List Nat := doc.indicesWhere (·.name == name)

/-- The descendants of a container with one of the member roles, those left out that belong to a
nearer container. -/
def groupMembers (doc : Document) (container : Nat) (members containers : List String) :
    List Nat :=
  ((doc.descendants container).filter (doc.holdsAt (·.hasRoleIn members))).filter fun i =>
    doc.nearestWithRole? i containers == some container

def innerText (doc : Document) (i : Nat) : String :=
  match doc.elements[i]? with
  | some element => element.innerText doc.text
  | none => ""

def resolve? (doc : Document) (id : String) : Option (Nat × Element) :=
  (doc.index.resolve? id).bind fun i => (doc.elements[i]?).map fun element => (i, element)

def location (doc : Document) (start stop : Nat) : Location :=
  Location.ofRange doc.source start stop

def openTagLocation (doc : Document) (i : Nat) : Location :=
  match doc.elements[i]? with
  | some element => doc.location element.start element.openStop
  | none => doc.location 0 0

def elementLocation (doc : Document) (i : Nat) : Location :=
  match doc.elements[i]? with
  | some element => doc.location element.start element.stop
  | none => doc.location 0 0

/-- The place of an attribute, or of the opening tag without it. -/
def attributeLocation (doc : Document) (i : Nat) (name : String) : Location :=
  match (doc.elements[i]?).bind (·.attribute? name) with
  | some found => doc.location found.range.start found.range.stop
  | none => doc.openTagLocation i

end Document

end AccessibleMarkup
