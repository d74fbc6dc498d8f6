import AccessibleMarkup.Document.Basic

/-! Elements by their index and texts by their range. A read out of range is a fault: it has no result,
and neither has anything that depends on it. -/
namespace AccessibleMarkup

open Markup

/-- What comes of reads by index or by range. A fault leaves nothing. -/
abbrev Checked (α : Type) : Type := Option α

/-- Splits a text that starts at one offset at another one, which is not before it. -/
def fetchSplit (text : List Char) (start offset : Nat) : Checked (List Char × List Char) :=
  if start ≤ offset then Text.splitAt? text (offset - start) else none

/-- A text that starts at an offset, with a space in place of each of the tags. -/
def fetchBetween : Nat → List Tag → List Char → Checked (List Char)
  | _, [], text => some text
  | start, tag :: rest, text => do
    let (before, found) ← fetchSplit text start tag.start
    let (_, after) ← fetchSplit found tag.start tag.stop
    return before ++ ' ' :: (← fetchBetween tag.stop rest after)

namespace Document

def fetch (doc : Document) (i : Nat) : Checked Element := doc.elements[i]?

def meets (doc : Document) (condition : Element → Bool) (i : Nat) : Checked Bool := do
  return condition (← doc.fetch i)

/-- Follows the links to parents up to an element that the search accepts, in at most so many steps. -/
def climb {α : Type} (doc : Document) (search : Nat → Element → Option α) :
    Nat → Option Nat → Checked (Option α)
  | _, none => some none
  | 0, some _ => none
  | steps + 1, some i => do
    let element ← doc.fetch i
    match search i element with
    | some found => return some found
    | none => doc.climb search steps element.parent

/-- What a search accepts among the elements around an element, nearest first. -/
def fetchAround {α : Type} (doc : Document) (i : Nat) (search : Nat → Element → Option α) :
    Checked (Option α) :=
  doc.climb search doc.elements.length ((doc.elements[i]?).bind (·.parent))

/-- The nearest element around an element that meets a condition. -/
def fetchNearest (doc : Document) (i : Nat) (condition : Element → Bool) : Checked (Option Nat) :=
  doc.fetchAround i fun outer element => if condition element then some outer else none

def fetchKnown (doc : Document) (role : String) : Checked (List Nat) :=
  (doc.withRole role).filterM (doc.meets (·.isKnown))

/-- The descendants of a container with one of the member roles, those left out that belong to a
nearer container. -/
def fetchMembers (doc : Document) (container : Nat) (members containers : List String) :
    Checked (List Nat) :=
  (doc.descendants container).filterM fun i => do
    if ← doc.meets (·.hasRoleIn members) i then
      return (← doc.fetchNearest i (·.hasRoleIn containers)) == some container
    else return false

def fetchInnerText (doc : Document) (i : Nat) : Checked String :=
  match (doc.elements[i]?).bind (·.content? doc.text) with
  | some content => (fetchBetween 0 (lex content) content).map Text.collapse
  | none => some ""

def fetchOwner (doc : Document) (id : String) : Checked (Option (Nat × Element)) := do
  match doc.index.resolve? id with
  | some i => return some (i, ← doc.fetch i)
  | none => return none

end Document

end AccessibleMarkup
