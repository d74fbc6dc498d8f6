import AccessibleMarkup.Rules.Basic

/-! Containers hold the items that their role is for. -/
namespace AccessibleMarkup.Rules.RequiredChildren

open Markup

def head (severity : Severity) : RuleHead :=
  { code := "AR006"
    name := "required-children"
    description := "Requires containers such as tablist and list to contain their item roles"
    severity }

def menuItems : List String := ["menuitem", "menuitemcheckbox", "menuitemradio"]

/-- The roles of containers, each with the roles of its items. -/
def itemRoles : List (String × List String) :=
  [("tablist", ["tab"]), ("list", ["listitem"]), ("menu", menuItems), ("menubar", menuItems),
    ("listbox", ["option"]), ("radiogroup", ["radio"]), ("tree", ["treeitem"]), ("grid", ["row"]),
    ("table", ["row"])]

/-- Whether the container holds or owns an element with one of the roles. -/
def fetchOwnsItem (doc : Document) (container : Nat) (items : List String) : Checked Bool := do
  if ← (doc.descendants container).anyM (doc.meets (·.hasRoleIn items)) then return true
  (doc.index.targetsOf container .owns).anyM fun id => do
    return (← doc.fetchOwner id).any fun found => found.2.hasRoleIn items

/-- Whether everything in the container can be seen: its own end and the ends of all elements in it
are known, it is not being loaded, and no template makes its content. -/
def fetchIsSettled (doc : Document) (container : Nat) (element : Element) : Checked Bool := do
  if !element.isKnown || isTrue (element.value? "aria-busy") then return false
  if ← (doc.descendants container).anyM (doc.meets (!·.isKnown)) then return false
  return !isTemplated ((element.content? doc.text).getD [])

/-- The roles in quotes, with the word for a choice between them. -/
def quotedRoles (roles : List String) : String :=
  String.intercalate " or " (roles.map fun role => s!"\"{role}\"")

def report (head : RuleHead) (doc : Document) (i : Nat) (role : String) (items : List String)
    (first : String) : Violation :=
  let expected := quotedRoles items
  head.violation (doc.openTagLocation i)
    s!"Element with role \"{role}\" contains no element with role {expected}"
    [⟨s!"Add at least one child with role \"{first}\" or remove the container role", none⟩]

/-- The role of a container with the roles of its items. -/
def container? (element : Element) : Option (String × List String) := do
  let role ← element.role
  return (role, ← itemRoles.lookup role)

def runOn (head : RuleHead) (doc : Document) (entry : Element × Nat) : Checked (Option Violation) := do
  let (element, i) := entry
  match container? element with
  | none => return none
  | some (role, items) =>
    if !(← fetchIsSettled doc i element) then return none
    if ← fetchOwnsItem doc i items then return none
    return some (report head doc i role items (← items[0]?))

def run (head : RuleHead) (doc : Document) : Checked (List Violation) :=
  doc.indexed.filterMapM (runOn head doc)

def rule (severity : Severity := .warning) : Rule := (head severity).withRun run

end AccessibleMarkup.Rules.RequiredChildren
