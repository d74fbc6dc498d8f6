import AccessibleMarkup.Rules.Basic
import AccessibleMarkup.Text.Quoted

/-! Registries: rules with different names and codes, in the order in which they came. -/
namespace AccessibleMarkup

/-- Two rules with the same name or the same code. -/
structure DuplicateRule where
  /-- Name of the rule that was refused. -/
  name : String
  /-- Name of the rule that was there before. -/
  existing : String
  deriving DecidableEq, Repr

def DuplicateRule.message (duplicate : DuplicateRule) : String :=
  s!"Rule '{duplicate.name}' conflicts with already registered rule '{duplicate.existing}'"

structure Registry where
  rules : List Rule := []

namespace Registry

def isEmpty (registry : Registry) : Bool := registry.rules.isEmpty

def size (registry : Registry) : Nat := registry.rules.length

/-- The first rule with the name or the code of another. -/
def conflict? (registry : Registry) (rule : Rule) : Option Rule :=
  registry.rules.find? fun known => known.name == rule.name || known.code == rule.code

/-- Adds a rule at the end, unless its name or code is taken. -/
def register (registry : Registry) (rule : Rule) : Except DuplicateRule Registry :=
  match registry.conflict? rule with
  | some known => .error ⟨rule.name, known.name⟩
  | none => .ok ⟨registry.rules ++ [rule]⟩

def ofRules (rules : List Rule) : Except DuplicateRule Registry := rules.foldlM register {}

def get? (registry : Registry) (called : String) : Option Rule :=
  registry.rules.find? (·.isCalled called)

def filter (registry : Registry) (keep : Rule → Bool) : Registry := ⟨registry.rules.filter keep⟩

/-- The names of the rules in quotes, between brackets. -/
def text (registry : Registry) : String :=
  let names := registry.rules.map fun rule => Text.quote rule.name
  "[" ++ String.intercalate ", " names ++ "]"

end Registry

end AccessibleMarkup
