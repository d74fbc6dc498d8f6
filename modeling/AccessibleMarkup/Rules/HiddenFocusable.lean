import AccessibleMarkup.Rules.Basic

/-! What is hidden from assistive technology cannot take focus. -/
namespace AccessibleMarkup.Rules.HiddenFocusable

open Markup

def head (severity : Severity) : RuleHead :=
  { code := "AR015"
    name := "hidden-focusable"
    description := "Forbids aria-hidden=\"true\" on focusable elements and their containers"
    severity }

/-- Whether the keyboard reaches the element as it is displayed. -/
def isReachable (element : Element) : Bool :=
  element.isFocusable && !element.has "hidden" && !element.hasHidingStyle

/-- Whether the element is the outermost one that hides its content, and does not take it out of the
order of focus too. -/
def fetchIsOutermost (doc : Document) (element : Element) (i : Nat) : Checked Bool := do
  if !element.isAriaHidden || element.has "inert" then return false
  return (← doc.fetchNearest i (·.isAriaHidden)).isNone

/-- Whether an element between the hider and an element in it takes that out of the order of
focus. -/
def fetchIsShielded (doc : Document) (hider i : Nat) : Checked Bool := do
  let found ← doc.fetchAround i fun outer element =>
    if outer == hider then some false
    else if element.has "inert" || element.has "hidden" then some true
    else none
  return found.getD false

def fetchReachable (doc : Document) (hider : Nat) : Checked (List Nat) :=
  (doc.descendants hider).filterM fun i => do
    if ← doc.meets isReachable i then return !(← fetchIsShielded doc hider i) else return false

def removeHiding : Suggestion := ⟨"Remove aria-hidden", some (.removeAttribute "aria-hidden")⟩

/-- What is wrong with an element that can take focus itself. -/
def reportItself (head : RuleHead) (doc : Document) (element : Element) (i : Nat) : Violation :=
  head.violation (doc.attributeLocation i "aria-hidden")
    s!"Focusable <{element.name}> has aria-hidden=\"true\"; keyboard users can reach content screen readers skip"
    [removeHiding, ⟨"Or add tabindex=\"-1\" to remove it from the tab sequence", none⟩]

/-- What is wrong with an element that holds others that can take focus. -/
def reportContent? (head : RuleHead) (doc : Document) (i : Nat) (reachable : List Nat) :
    Option Violation :=
  let number := reachable.length
  reachable.head?.map fun first =>
    head.violation (doc.attributeLocation i "aria-hidden")
      s!"Element with aria-hidden=\"true\" contains {number} focusable element(s)"
      [removeHiding, ⟨"Or make the descendants unfocusable with tabindex=\"-1\" or inert", none⟩]
      [⟨doc.openTagLocation first, "focusable here"⟩]

def runOn (head : RuleHead) (doc : Document) (entry : Element × Nat) : Checked (Option Violation) := do
  let (element, i) := entry
  if !(← fetchIsOutermost doc element i) then return none
  if isReachable element then return some (reportItself head doc element i)
  if !element.isKnown then return none
  return reportContent? head doc i (← fetchReachable doc i)

def run (head : RuleHead) (doc : Document) : Checked (List Violation) :=
  doc.indexed.filterMapM (runOn head doc)

def rule (severity : Severity := .error) : Rule := (head severity).withRun run

end AccessibleMarkup.Rules.HiddenFocusable
