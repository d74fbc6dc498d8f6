import AccessibleMarkup.Rules.Basic
import AccessibleMarkup.Text.Lowercase

/-! Landmarks can be told apart: there is one visible main landmark, and the navigations of a page
have different names. -/
namespace AccessibleMarkup.Rules.LandmarkUniqueness

open Markup

def head (severity : Severity) : RuleHead :=
  { code := "AR013"
    name := "landmark-uniqueness"
    description := "Allows one main landmark and requires distinct names for repeated navigation"
    severity }

/-- What is wrong with main landmarks that are not hidden: all but the first are too many. -/
def reportMains (head : RuleHead) (doc : Document) : List Nat → List Violation
  | [] => []
  | first :: others =>
    let number := others.length + 1
    others.map fun other => head.violation (doc.openTagLocation other)
      s!"Page has {number} main landmarks; only one may be visible"
      [⟨"Keep one <main> and mark the others hidden or use a different element", none⟩]
      [⟨doc.openTagLocation first, "first main landmark"⟩]

def runOnMains (head : RuleHead) (doc : Document) : Checked (List Violation) := do
  return reportMains head doc (← (doc.withRole "main").filterM (doc.meets (!·.isHidden)))

/-- The text of the element that carries the identifier; an identifier of no element stands for
itself. -/
def fetchText (doc : Document) (id : String) : Checked String := do
  match ← doc.fetchOwner id with
  | some (target, _) => doc.fetchInnerText target
  | none => return id

/-- The name of an element: its label, or else the text of the elements that label it. A list of
labels that a template makes is a name that no other element has. -/
def fetchName (doc : Document) (i : Nat) : Checked (Option String) := do
  let element ← doc.fetch i
  match (element.value? "aria-label").filter fun label => !Text.blankString label with
  | some label => return some (Text.trim label)
  | none =>
    match element.value? "aria-labelledby" with
    | none => return none
    | some ids =>
      if isDynamic ids then return some s!"{ids}#{i}"
      let text := String.intercalate " " (← (Text.words ids).mapM (fetchText doc))
      return if Text.blankString text then none else some text

/-- What is wrong with a navigation among all of them. Names are compared in lower case. -/
def judge? (head : RuleHead) (doc : Document) (navigations : List (Nat × Option String))
    (navigation : Nat × Option String) : Option Violation :=
  let (i, name?) := navigation
  match name? with
  | none =>
    let number := navigations.length
    some (head.violation (doc.openTagLocation i)
      s!"Page has {number} navigation landmarks; this one has no aria-label or aria-labelledby"
      [⟨"Name each navigation, e.g. aria-label=\"Main\" and aria-label=\"Footer\"", none⟩])
  | some name =>
    match navigations.find? fun other => other.2.map Text.lower == some (Text.lower name) with
    | some (first, _) =>
      if first = i then none
      else some (head.violation (doc.openTagLocation i)
        s!"Navigation landmarks share the name \"{name}\"" []
        [⟨doc.openTagLocation first, "same name here"⟩])
    | none => none

def fetchNamed (doc : Document) (i : Nat) : Checked (Nat × Option String) := do
  return (i, ← fetchName doc i)

def runOnNavigations (head : RuleHead) (doc : Document) : Checked (List Violation) := do
  let found := doc.withRole "navigation"
  if found.length < 2 then return []
  let navigations ← found.mapM (fetchNamed doc)
  return navigations.filterMap (judge? head doc navigations)

def run (head : RuleHead) (doc : Document) : Checked (List Violation) := do
  return (← runOnMains head doc) ++ (← runOnNavigations head doc)

def rule (severity : Severity := .warning) : Rule := (head severity).withRun run

end AccessibleMarkup.Rules.LandmarkUniqueness
