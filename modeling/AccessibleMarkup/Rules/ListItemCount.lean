import AccessibleMarkup.Rules.Basic

/-! Lists do not have too many items. -/
namespace AccessibleMarkup.Rules.ListItemCount

def head (severity : Severity) : RuleHead :=
  { code := "AR011"
    name := "list-item-count"
    description := "Flags lists with more than max_items items"
    severity }

def defaultCount : Nat := 50

/-- The number of items that a block allows. A negative one stands for the usual number. -/
def configuredCount (block : RuleBlock) (allowed : Nat) : Nat :=
  match block.integer "max_items" allowed with
  | .ofNat count => count
  | .negSucc _ => defaultCount

def verdict? (allowed : Nat) (head : RuleHead) (doc : Document) (list number : Nat) :
    Option Violation :=
  if allowed < number then
    some (head.violation (doc.openTagLocation list)
      s!"List has {number} items (maximum {allowed})"
      [⟨"Split the list into groups with headings, or paginate it", none⟩])
  else none

def run (allowed : Nat) (head : RuleHead) (doc : Document) : Checked (List Violation) := do
  (← doc.fetchKnown "list").filterMapM fun list => do
    return verdict? allowed head doc list (← doc.fetchMembers list ["listitem"] ["list"]).length

def rule (severity : Severity := .info) (allowed : Nat := defaultCount) : Rule :=
  { head severity with
    check := fun block doc => run (configuredCount block allowed) (head severity) doc }

end AccessibleMarkup.Rules.ListItemCount
