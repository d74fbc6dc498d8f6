import AccessibleMarkup.Rules.Basic

/-! Headings do not skip a level on the way down. -/
namespace AccessibleMarkup.Rules.HeadingOrder

open Markup

def head (severity : Severity) : RuleHead :=
  { code := "AR016"
    name := "heading-order"
    description := "Forbids skipping heading levels, e.g. h2 followed by h4"
    severity }

def nameLevel? : String → Option Nat
  | "h1" => some 1
  | "h2" => some 2
  | "h3" => some 3
  | "h4" => some 4
  | "h5" => some 5
  | "h6" => some 6
  | _ => none

/-- The level of a heading. A written level counts before that of the name; it is a number from one
to nine that no template makes. -/
def level? (element : Element) : Option Nat :=
  if !element.hasRole "heading" then none
  else match element.value? "aria-level" with
    | some value =>
      if isDynamic value then none
      else (Text.readNatural? 9 (Text.trim value)).filter (1 ≤ ·)
    | none => nameLevel? element.name

def headings (doc : Document) : List (Nat × Nat) :=
  doc.indexed.filterMap fun (element, i) => (level? element).map fun level => (i, level)

/-- The violation of a heading that stands more than one level below the one before it. -/
def judge? (head : RuleHead) (doc : Document) (before heading : Nat × Nat) : Option Violation :=
  let (beforeIndex, beforeLevel) := before
  let (i, level) := heading
  let next := beforeLevel + 1
  if next < level then
    some (head.violation (doc.openTagLocation i)
      s!"Heading level jumps from h{beforeLevel} to h{level}"
      [⟨s!"Use h{next} or add the missing intermediate heading", none⟩]
      [⟨doc.openTagLocation beforeIndex, s!"previous heading (h{beforeLevel})"⟩])
  else none

def check (head : RuleHead) (doc : Document) : List Violation :=
  let found := headings doc
  (found.zip found.tail).filterMap fun (before, heading) => judge? head doc before heading

def rule (severity : Severity := .warning) : Rule := (head severity).withCheck check

end AccessibleMarkup.Rules.HeadingOrder
