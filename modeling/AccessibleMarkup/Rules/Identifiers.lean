import AccessibleMarkup.Rules.Basic

/-! Identifiers: no two elements share one, and references name identifiers that the document has. -/
namespace AccessibleMarkup.Rules

namespace DuplicateId

def head (severity : Severity) : RuleHead :=
  { code := "AR004"
    name := "duplicate-id"
    description := "Forbids duplicate id values, which make references ambiguous"
    severity }

/-- The violation of a later element with an identifier that an earlier one has. -/
def report (head : RuleHead) (doc : Document) (id : String) (first i : Nat) : Violation :=
  let firstLocation := doc.attributeLocation first "id"
  head.violation (doc.attributeLocation i "id")
    s!"Duplicate id \"{id}\" (first defined on line {firstLocation.line})"
    [⟨"Give each element a unique id", none⟩] [⟨firstLocation, "first defined here"⟩]

def run (head : RuleHead) (doc : Document) : Checked (List Violation) :=
  (doc.index.duplicates.filter fun entry => !Markup.isDynamic entry.1).filterMapM fun (id, i) => do
    return (← doc.fetchOwner id).map fun (first, _) => report head doc id first i

def rule (severity : Severity := .error) : Rule := (head severity).withRun run

end DuplicateId

namespace AriaReference

def head (severity : Severity) : RuleHead :=
  { code := "AR003"
    name := "aria-reference"
    description := "Requires aria-controls, aria-labelledby and for to name an existing id"
    severity }

/-- Whether a reference names no element. What a template makes is not judged. -/
def isBroken (doc : Document) (reference : Reference) : Bool :=
  !reference.dynamic && (doc.index.resolve? reference.target).isNone

def report (head : RuleHead) (doc : Document) (reference : Reference) : Violation :=
  let name := reference.kind.attributeName
  let target := reference.target
  head.violation (doc.attributeLocation reference.source name)
    s!"{name} references id \"{target}\", which does not exist in this document"
    [⟨s!"Add id=\"{target}\" to the referenced element or correct the reference", none⟩]

def checkKinds (kinds : List ReferenceKind) (head : RuleHead) (doc : Document) : List Violation :=
  ((kinds.flatMap doc.index.ofKind).filter (isBroken doc)).map (report head doc)

def rule (severity : Severity := .error) (kinds : List ReferenceKind := ReferenceKind.all) : Rule :=
  (head severity).withCheck (checkKinds kinds)

end AriaReference

end AccessibleMarkup.Rules
