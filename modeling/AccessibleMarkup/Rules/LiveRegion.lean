import AccessibleMarkup.Rules.Basic

/-! Live regions are announced, and as urgently as their role says. -/
namespace AccessibleMarkup.Rules.LiveRegion

open Markup

def head (severity : Severity) : RuleHead :=
  { code := "AR014"
    name := "live-region"
    description := "Checks aria-live politeness and that live regions are not hidden"
    severity }

/-- The roles of live regions, each with its politeness. -/
def rolePoliteness : List (String × String) :=
  [("alert", "assertive"), ("status", "polite"), ("log", "polite"), ("timer", "off"),
    ("marquee", "off")]

def impliedPoliteness? (element : Element) : Option String :=
  element.role.bind fun role => rolePoliteness.lookup role

/-- The politeness that is written, unless a template makes it. -/
def writtenPoliteness? (element : Element) : Option String :=
  ((element.value? "aria-live").filter fun value => !isDynamic value).map fun value =>
    Text.asciiLower (Text.trim value)

def contradicts (role implied written : String) : Bool :=
  ["alert", "status", "log"].contains role && ["off", "polite", "assertive"].contains written &&
    written != implied

/-- The contradiction between the role and the written politeness. -/
def judgePoliteness? (head : RuleHead) (doc : Document) (element : Element) (i : Nat) :
    Option Violation := do
  let role ← element.role
  let implied ← rolePoliteness.lookup role
  let written ← writtenPoliteness? element
  if !contradicts role implied written then none
  return head.violation (doc.attributeLocation i "aria-live")
    s!"aria-live=\"{written}\" contradicts the {implied} politeness of role \"{role}\""
    [⟨"Remove aria-live and rely on the role", some (.removeAttribute "aria-live")⟩]

/-- Whether changes in the element are announced; what is written counts before the role. -/
def isAnnounced (element : Element) : Bool :=
  match writtenPoliteness? element with
  | some politeness => politeness == "polite" || politeness == "assertive"
  | none => (impliedPoliteness? element).any fun politeness =>
      politeness == "polite" || politeness == "assertive"

/-- What is wrong with a live region that is hidden from assistive technology itself. -/
def reportItself (head : RuleHead) (doc : Document) (i : Nat) : Violation :=
  head.violation (doc.attributeLocation i "aria-hidden")
    "Live region has aria-hidden=\"true\"; its updates will not be announced"
    [⟨"Remove aria-hidden", some (.removeAttribute "aria-hidden")⟩]

/-- What is wrong with a live region in an element that is hidden from assistive technology. -/
def reportInside (head : RuleHead) (doc : Document) (i outer : Nat) : Violation :=
  head.violation (doc.openTagLocation i)
    "Live region is inside an element with aria-hidden=\"true\"; its updates will not be announced"
    [⟨"Move the live region out of the hidden container", none⟩]
    [⟨doc.attributeLocation outer "aria-hidden", "hidden here"⟩]

/-- What hides a live region from assistive technology. -/
def runOnHidden (head : RuleHead) (doc : Document) (element : Element) (i : Nat) :
    Checked (Option Violation) := do
  if !isAnnounced element then return none
  if element.isAriaHidden then return some (reportItself head doc i)
  return (← doc.fetchNearest i (·.isAriaHidden)).map (reportInside head doc i)

def runOn (head : RuleHead) (doc : Document) (entry : Element × Nat) : Checked (List Violation) := do
  let (element, i) := entry
  let hidden ← runOnHidden head doc element i
  return (judgePoliteness? head doc element i).toList ++ hidden.toList

def run (head : RuleHead) (doc : Document) : Checked (List Violation) := do
  return (← doc.indexed.mapM (runOn head doc)).flatten

def rule (severity : Severity := .warning) : Rule := (head severity).withRun run

end AccessibleMarkup.Rules.LiveRegion
