import AccessibleMarkup.Markup.Element

/-! The identifiers of a document and the attributes that refer to them, collected in one pass. A value
that a template expression makes is known only when the page is rendered. -/
namespace AccessibleMarkup

namespace Markup

def templateMarkers : List (List Char) :=
  [['$', '\x7b'], ['#', '\x7b'], ['*', '\x7b'], ['\x7b', '\x7b'], ['\x7b', '%'], ['<', '%'],
    ['[', '['], ['@', '\x7b']]

/-- Whether a template expression opens anywhere in the text. -/
def isTemplated (text : List Char) : Bool := templateMarkers.any fun marker => Text.occurs marker text

/-- Whether the value is made, in part or whole, by a template expression. -/
def isDynamic (value : String) : Bool := isTemplated value.toList

end Markup

open Markup

/-- The attributes whose values name other elements by their identifiers. -/
inductive ReferenceKind where
  | controls
  | labelledBy
  | describedBy
  | owns
  | labelFor
  deriving DecidableEq, Repr

namespace ReferenceKind

def all : List ReferenceKind := [controls, labelledBy, describedBy, owns, labelFor]

def attributeName : ReferenceKind → String
  | controls => "aria-controls"
  | labelledBy => "aria-labelledby"
  | describedBy => "aria-describedby"
  | owns => "aria-owns"
  | labelFor => "for"

def isList : ReferenceKind → Bool
  | labelFor => false
  | _ => true

/-- The identifiers that a value of the attribute names. A value made by a template is taken
whole. -/
def targets (kind : ReferenceKind) (value : String) : List String :=
  let named := if isDynamic value || !kind.isList then [Text.trim value] else Text.words value
  named.filter (· != "")

end ReferenceKind

/-- One reference from an element to an identifier. -/
structure Reference where
  kind : ReferenceKind
  /-- Index of the element that refers. -/
  source : Nat
  target : String
  /-- Whether a template makes the identifier, so that nothing can be said about it. -/
  dynamic : Bool
  deriving DecidableEq, Repr

structure ReferenceIndex where
  /-- Each identifier with the first element that carries it. -/
  owners : List (String × Nat) := []
  /-- The later elements that carry an identifier already taken. -/
  duplicates : List (String × Nat) := []
  references : List Reference := []
  deriving Repr

namespace ReferenceIndex

/-- The identifier of an element; a blank one does not count. -/
def identifier? (element : Element) : Option String :=
  (element.value? "id").filter fun id => !Text.blankString id

def referencesOf (source : Nat) (element : Element) : List Reference :=
  ReferenceKind.all.flatMap fun kind =>
    match element.value? kind.attributeName with
    | some value =>
      (kind.targets value).map fun target => ⟨kind, source, target, isDynamic value⟩
    | none => []

def add (index : ReferenceIndex) (source : Nat) (element : Element) : ReferenceIndex :=
  let references := index.references ++ referencesOf source element
  match identifier? element with
  | none => { index with references }
  | some id =>
    if (index.owners.lookup id).isSome then
      { index with duplicates := index.duplicates ++ [(id, source)], references }
    else { index with owners := index.owners ++ [(id, source)], references }

def build (elements : List Element) : ReferenceIndex :=
  elements.zipIdx.foldl (fun index entry => index.add entry.2 entry.1) {}

def resolve? (index : ReferenceIndex) (id : String) : Option Nat := index.owners.lookup id

def idCount (index : ReferenceIndex) : Nat := index.owners.length

def ofKind (index : ReferenceIndex) (kind : ReferenceKind) : List Reference :=
  index.references.filter (·.kind == kind)

def grouped (index : ReferenceIndex) : List Reference := ReferenceKind.all.flatMap index.ofKind

/-- The identifiers that an element names, those made by templates left out. -/
def targetsOf (index : ReferenceIndex) (source : Nat) (kind : ReferenceKind) : List String :=
  ((index.ofKind kind).filter fun found => found.source == source && !found.dynamic).map (·.target)

def referrersOf (index : ReferenceIndex) (id : String) (kind : ReferenceKind) : List Nat :=
  ((index.ofKind kind).filter (·.target == id)).map (·.source)

end ReferenceIndex

end AccessibleMarkup
