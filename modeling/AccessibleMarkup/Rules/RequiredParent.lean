import AccessibleMarkup.Rules.Basic

/-! Items stand in a container of the role that they are for. -/
namespace AccessibleMarkup.Rules.RequiredParent

open Markup

def head (severity : Severity) : RuleHead :=
  { code := "AR007"
    name := "required-parent"
    description := "Requires tabs, list items and menu items to be inside their container role"
    severity }

def menuContainers : List String := ["menu", "menubar", "group"]

/-- The roles of items, each with the roles of its containers. -/
def containerRoles : List (String × List String) :=
  [("tab", ["tablist"]), ("listitem", ["list", "directory"]), ("option", ["listbox", "group"]),
    ("menuitem", menuContainers), ("menuitemcheckbox", menuContainers),
    ("menuitemradio", menuContainers), ("treeitem", ["tree", "group"])]

def transparentRoles : List String := ["none", "presentation", "generic"]

/-- An option needs a container only if its role is written; the element of that name has rules of
its own. An item whose surroundings are uncertain is not judged. -/
def isJudged (element : Element) (role : String) : Bool :=
  (role != "option" || element.writesRole "option") && !element.detached

/-- The role of an element that says something about what stands in it. -/
def context? (element : Element) : Option String :=
  element.role.filter fun role => !transparentRoles.contains role

/-- What can be done about an item; an item of a list whose end is known can be wrapped. -/
def suggestion (element : Element) (container : String) : Suggestion :=
  if element.name == "li" && element.isKnown then ⟨"Wrap the item in <ul>", some (.wrap "ul" [])⟩
  else ⟨s!"Move the element into a \"{container}\" container", none⟩

def report (head : RuleHead) (doc : Document) (entry : Element × Nat) (role container : String)
    (context : Option String) : Violation :=
  let (element, i) := entry
  let found := match context with
    | some other => s!"role \"{other}\""
    | none => "no container"
  head.violation (doc.openTagLocation i)
    s!"Element with role \"{role}\" must be contained in an element with role \"{container}\" (found {found})"
    [suggestion element container]

/-- The role of an item that is judged, with the roles of its containers. -/
def item? (element : Element) : Option (String × List String) := do
  let role ← element.role
  let containers ← containerRoles.lookup role
  if isJudged element role then some (role, containers) else none

def runOn (ignoreTopLevel : Bool) (head : RuleHead) (doc : Document) (entry : Element × Nat) :
    Checked (Option Violation) := do
  match item? entry.1 with
  | none => return none
  | some (role, containers) =>
    let context ← doc.fetchAround entry.2 fun _ outer => context? outer
    if context.any containers.contains || (context.isNone && ignoreTopLevel) then return none
    return some (report head doc entry role (← containers[0]?) context)

def run (ignoreTopLevel : Bool) (head : RuleHead) (doc : Document) : Checked (List Violation) :=
  doc.indexed.filterMapM (runOn ignoreTopLevel head doc)

/-- Under `ignoreTopLevel` an item with no role around it is left alone; the block of the rule can
set it. -/
def rule (severity : Severity := .warning) (ignoreTopLevel : Bool := false) : Rule :=
  { head severity with
    check := fun block doc =>
      run (block.boolean "ignore_top_level" ignoreTopLevel) (head severity) doc }

end AccessibleMarkup.Rules.RequiredParent
