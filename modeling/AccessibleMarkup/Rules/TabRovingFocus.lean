import AccessibleMarkup.Rules.Basic

/-! Of a group of tabs, exactly the selected one takes part in the order of focus. -/
namespace AccessibleMarkup.Rules.TabRovingFocus

open Markup

def head (severity : Severity) : RuleHead :=
  { code := "AR002"
    name := "tab-roving-focus"
    description := "Checks that exactly the selected tab is in the tab sequence"
    severity }

def docRef : String := "https://www.w3.org/WAI/ARIA/apg/practices/keyboard-interface/"

/-- Tabs that belong together. -/
structure Group where
  /-- The element at which the group as a whole is reported. -/
  anchor : Nat
  tabs : List Nat
  deriving DecidableEq, Repr

/-- The tabs outside every list of tabs, each after the element that it stands in. A tab whose
surroundings are uncertain is left out. -/
def fetchStrays (doc : Document) : Checked (List (Option Nat × Nat)) :=
  (doc.withRole "tab").filterMapM fun tab => do
    let element ← doc.fetch tab
    if element.detached then return none
    match ← doc.fetchNearest tab (·.hasRoleIn ["tablist"]) with
    | some _ => return none
    | none => return some (element.parent, tab)

/-- The tabs of a list of tabs whose end is known; any other element has none. -/
def fetchListed (doc : Document) (i : Nat) : Checked (List Nat) := do
  if ← doc.meets (fun element => element.hasRole "tablist" && element.isKnown) i then
    doc.fetchMembers i ["tab"] ["tablist"]
  else return []

/-- A group is reported at its list of tabs, or else at its first tab. -/
def fetchAnchor (doc : Document) (place : Option Nat) (tabs : List Nat) : Checked Nat := do
  let first ← tabs[0]?
  match place with
  | some i => return if ← doc.meets (·.hasRole "tablist") i then i else first
  | none => return first

/-- The group of an element, or of no element: the tabs of a list of tabs, and the stray tabs that
stand directly there. -/
def fetchGroup (doc : Document) (strays : List (Option Nat × Nat)) (place : Option Nat) :
    Checked (Option Group) := do
  let listed ← match place with
    | some i => fetchListed doc i
    | none => pure []
  let tabs := listed ++ (strays.filter fun stray => stray.1 == place).map (·.2)
  if tabs.isEmpty then return none
  return some ⟨← fetchAnchor doc place tabs, tabs⟩

/-- The groups of a document: that of no element, then those of the elements. -/
def fetchGroups (doc : Document) : Checked (List Group) := do
  let strays ← fetchStrays doc
  (none :: (List.range doc.elements.length).map some).filterMapM (fetchGroup doc strays)

def isLeftOpen (tab : Element) : Bool :=
  isDynamicValue (tab.value? "tabindex") || isDynamicValue (tab.value? "aria-selected")

def setTabIndex (value : String) : Suggestion :=
  ⟨s!"Set tabindex=\"{value}\"", some (.setAttribute "tabindex" value)⟩

def judgeWhole (head : RuleHead) (doc : Document) (group : Group) (selected focusable : List Nat) :
    List Violation :=
  let location := doc.openTagLocation group.anchor
  let number := focusable.length
  if number = 0 && selected.length != 1 then
    [head.violation location
      "No tab in the group is focusable; the selected tab should have tabindex=\"0\""
      [⟨"Give the selected tab tabindex=\"0\" so the tablist is reachable with Tab", none⟩]]
  else if 1 < number then
    [head.violation location
      s!"{number} tabs in the group are focusable; only the selected tab should be in the tab sequence"
      [⟨"Set tabindex=\"-1\" on inactive tabs and move focus with the arrow keys", none⟩]]
  else []

/-- What is wrong with tabs that are out of place in the order of focus: those that are in it without
being selected, and the selected one, unless it comes at its natural place. -/
def verdictOnTabs (head : RuleHead) (doc : Document) (inactive : List Nat) (active : Nat)
    (natural : Bool) : List Violation :=
  let ofInactive := inactive.map fun tab =>
    head.violation (doc.openTagLocation tab) "Inactive tab should have tabindex=\"-1\""
      [setTabIndex "-1"]
  if natural then ofInactive
  else ofInactive ++ [head.violation (doc.openTagLocation active)
    "Selected tab should have tabindex=\"0\"" [setTabIndex "0"]]

/-- Judges the tabs of a group when one of them is selected. -/
def runOnTabs (head : RuleHead) (doc : Document) (group : Group) (active : Nat) :
    Checked (List Violation) := do
  let inactive ← (group.tabs.filter (· != active)).filterM (doc.meets (·.inFocusOrder))
  let natural ← doc.meets (fun element => element.focusIndex? == some 0) active
  return verdictOnTabs head doc inactive active natural

/-- Judges a group, unless a template decides about one of its tabs. -/
def runOn (head : RuleHead) (doc : Document) (group : Group) : Checked (List Violation) := do
  if ← group.tabs.anyM (doc.meets isLeftOpen) then return []
  let selected ← group.tabs.filterM (doc.meets fun tab => isTrue (tab.value? "aria-selected"))
  let focusable ← group.tabs.filterM (doc.meets (·.inFocusOrder))
  let ofTabs ← match selected with
    | [active] => runOnTabs head doc group active
    | _ => pure []
  return (judgeWhole head doc group selected focusable ++ ofTabs).map fun violation =>
    { violation with docRef }

def run (head : RuleHead) (doc : Document) : Checked (List Violation) := do
  return (← (← fetchGroups doc).mapM (runOn head doc)).flatten

def rule (severity : Severity := .warning) : Rule := (head severity).withRun run

end AccessibleMarkup.Rules.TabRovingFocus
