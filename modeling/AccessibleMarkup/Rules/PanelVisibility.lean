import AccessibleMarkup.Rules.Basic

/-! An element is shown exactly when the state of what controls it says so. -/
namespace AccessibleMarkup.Rules.PanelVisibility

open Markup

def head (severity : Severity) : RuleHead :=
  { code := "AR005"
    name := "panel-visibility"
    description := "Checks that controlled panels are shown exactly when their controller is active"
    severity }

/-- The attribute that says whether what an element controls is shown. -/
def stateAttribute? (element : Element) : Option String :=
  if element.hasRole "tab" then some "aria-selected"
  else if element.has "aria-expanded" then some "aria-expanded"
  else none

def state? (element : Element) : Option (String × Bool) := do
  let name ← stateAttribute? element
  let value ← element.value? name
  if isDynamic value then none
  match Text.asciiLower (Text.trim value) with
  | "true" => some (name, true)
  | "false" => some (name, false)
  | _ => none

/-- Whether a template decides if the element is shown. -/
def isUncertain (panel : Element) : Bool :=
  ["hidden", "style", "class", "aria-hidden"].any fun name => isDynamicValue (panel.value? name)

/-- What can be done about a panel that should be shown. -/
def showSuggestions (panel : Element) : List Suggestion :=
  if panel.has "hidden" then
    [⟨"Remove the hidden attribute", some (.removeAttribute "hidden")⟩]
  else if panel.hasHidingStyle || panel.hasHidingClass then
    [⟨"Show the element initially or set the controller's state to \"false\"", none⟩]
  else []

/-- What is wrong with an element that a reference controls, given the attribute and the state of the
element that refers. -/
def verdict? (head : RuleHead) (doc : Document) (reference : Reference) (state : String × Bool)
    (i : Nat) (panel : Element) : Option Violation :=
  let (name, active) := state
  let target := reference.target
  let location := doc.openTagLocation i
  let stateLocation := doc.attributeLocation reference.source name
  if isUncertain panel then none
  else match active, panel.isHidden with
  | true, true =>
    some (head.violation location
      s!"Element \"{target}\" is hidden but its controller has {name}=\"true\""
      (showSuggestions panel) [⟨stateLocation, s!"{name}=\"true\" here"⟩])
  | false, false =>
    some (head.violation location
      s!"Element \"{target}\" is visible but its controller has {name}=\"false\""
      [⟨"Hide the element with the hidden attribute", some (.addAttribute "hidden" "")⟩]
      [⟨stateLocation, s!"{name}=\"false\" here"⟩])
  | _, _ => none

def runOn (head : RuleHead) (doc : Document) (reference : Reference) :
    Checked (Option Violation) := do
  if reference.dynamic then return none
  let controller ← doc.fetch reference.source
  match state? controller with
  | none => return none
  | some state =>
    match ← doc.fetchOwner reference.target with
    | none => return none
    | some (i, panel) => return verdict? head doc reference state i panel

def run (head : RuleHead) (doc : Document) : Checked (List Violation) :=
  (doc.index.ofKind .controls).filterMapM (runOn head doc)

def rule (severity : Severity := .warning) : Rule := (head severity).withRun run

end AccessibleMarkup.Rules.PanelVisibility
