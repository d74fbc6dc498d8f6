import AccessibleMarkup.Rules.Basic

/-! Exactly one tab of a list of tabs is selected. -/
namespace AccessibleMarkup.Rules.TablistSelection

def head (severity : Severity) : RuleHead :=
  { code := "AR001"
    name := "tablist-selection"
    description := "Requires exactly one aria-selected=\"true\" tab per tablist"
    severity }

def docRef : String := "https://www.w3.org/WAI/ARIA/apg/patterns/tabs/"

/-- What is wrong with a list of tabs, given its tabs and those of them that are selected. -/
def verdict? (head : RuleHead) (doc : Document) (tablist : Nat) (tabs selected : List Nat) :
    Option Violation :=
  let location := doc.openTagLocation tablist
  match selected.length with
  | 0 =>
    let number := tabs.length
    some { head.violation location
      s!"Tablist has no selected tab; exactly one of its {number} tabs must have aria-selected=\"true\""
      [⟨"Mark the tab whose panel is initially shown with aria-selected=\"true\"", none⟩] with
      docRef }
  | 1 => none
  | number =>
    some { head.violation location
      s!"Tablist has more than one selected tab ({number} tabs have aria-selected=\"true\")"
      [⟨"Keep aria-selected=\"true\" on one tab and set the others to \"false\"", none⟩]
      (selected.map fun tab => ⟨doc.attributeLocation tab "aria-selected", "selected here"⟩) with
      docRef }

/-- Judges a list of tabs, unless a template makes the selection. -/
def runOn (head : RuleHead) (doc : Document) (tablist : Nat) : Checked (Option Violation) := do
  let tabs ← doc.fetchMembers tablist ["tab"] ["tablist"]
  if tabs.isEmpty then return none
  if ← tabs.anyM (doc.meets fun tab => isDynamicValue (tab.value? "aria-selected")) then return none
  let selected ← tabs.filterM (doc.meets fun tab => isTrue (tab.value? "aria-selected"))
  return verdict? head doc tablist tabs selected

def run (head : RuleHead) (doc : Document) : Checked (List Violation) := do
  (← doc.fetchKnown "tablist").filterMapM (runOn head doc)

def rule (severity : Severity := .error) : Rule := (head severity).withRun run

end AccessibleMarkup.Rules.TablistSelection
