import AccessibleMarkup.Config.Basic
import AccessibleMarkup.Document.Access
import AccessibleMarkup.Document.State
import AccessibleMarkup.Report.Violation

/-! Rules: named checks of a document. -/
namespace AccessibleMarkup

/-- What a rule is known by. -/
structure RuleHead where
  code : String
  name : String
  description : String := ""
  severity : Severity := .error
  deriving DecidableEq, Repr

namespace RuleHead

def violation (head : RuleHead) (location : Location) (message : String)
    (suggestions : List Suggestion := []) (labels : List Label := []) : Violation :=
  { code := head.code, rule := head.name, severity := head.severity, location, message,
    suggestions, labels }

def requiresReason (head : RuleHead) : Bool := head.severity == .error

/-- Whether the rule is called by the text: by its name, or by its code in any case. -/
def isCalled (head : RuleHead) (text : String) : Bool :=
  head.name == text || Text.sameIgnoringCase head.code text

end RuleHead

structure Rule extends RuleHead where
  /-- The violations of a document under the options of the rule's block. A rule that fails has no
  answer, not even an empty one. -/
  check : RuleBlock → Document → Checked (List Violation)

def RuleHead.withRun (head : RuleHead) (run : RuleHead → Document → Checked (List Violation)) : Rule :=
  { head with check := fun _ doc => run head doc }

/-- A rule that takes no options and reads no element by its index, so that it always has an answer. -/
def RuleHead.withCheck (head : RuleHead) (check : RuleHead → Document → List Violation) : Rule :=
  { head with check := fun _ doc => some (check head doc) }

def Document.indexed (doc : Document) : List (Markup.Element × Nat) := doc.elements.zipIdx

end AccessibleMarkup
