import AccessibleMarkup.Rules.Basic

/-! Written roles come with the attributes that tell their state. -/
namespace AccessibleMarkup.Rules.RequiredState

open Markup

def head (severity : Severity) : RuleHead :=
  { code := "AR009"
    name := "required-state"
    description :=
      "Requires state attributes such as aria-selected on tab and aria-checked on checkbox"
    severity }

/-- An attribute that a role needs, with the value to start from. -/
structure Requirement where
  role : String
  name : String
  value : String
  deriving DecidableEq, Repr

def requirements : List Requirement :=
  [⟨"tab", "aria-selected", "false"⟩, ⟨"checkbox", "aria-checked", "false"⟩,
    ⟨"radio", "aria-checked", "false"⟩, ⟨"switch", "aria-checked", "false"⟩,
    ⟨"menuitemcheckbox", "aria-checked", "false"⟩, ⟨"menuitemradio", "aria-checked", "false"⟩,
    ⟨"combobox", "aria-expanded", "false"⟩, ⟨"heading", "aria-level", "2"⟩,
    ⟨"slider", "aria-valuenow", "0"⟩]

/-- The value to add; a slider starts from its least value. -/
def startValue (element : Element) (requirement : Requirement) : String :=
  if requirement.name = "aria-valuenow" then
    match (element.value? "aria-valuemin").filter fun least => !Text.blankString least with
    | some least => Text.trim least
    | none => requirement.value
  else requirement.value

def judge? (head : RuleHead) (doc : Document) (entry : Element × Nat) : Option Violation := do
  let (element, i) := entry
  let requirement ← requirements.find? fun requirement => element.writesRole requirement.role
  if element.has requirement.name then none
  let role := requirement.role
  let name := requirement.name
  let value := startValue element requirement
  return head.violation (doc.openTagLocation i)
    s!"Element with role \"{role}\" is missing required attribute {name}"
    [⟨s!"Add {name}=\"{value}\"", some (.addAttribute name value)⟩]

def check (head : RuleHead) (doc : Document) : List Violation :=
  doc.indexed.filterMap (judge? head doc)

def rule (severity : Severity := .error) : Rule := (head severity).withCheck check

end AccessibleMarkup.Rules.RequiredState
