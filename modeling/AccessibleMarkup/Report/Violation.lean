import AccessibleMarkup.Repair.Fix
import AccessibleMarkup.Report.Location
import AccessibleMarkup.Report.Severity

/-! Violations of rules, and the text in which they are shown. -/
namespace AccessibleMarkup

/-- A place that helps to understand a violation. -/
structure Label where
  location : Location
  message : String
  deriving DecidableEq, Repr

/-- What could be done about a violation. -/
structure Suggestion where
  message : String
  /-- The correction, if it can be made by itself. -/
  fix : Option Fix := none
  deriving DecidableEq, Repr

/-- A rule that a document breaks at some place. -/
structure Violation where
  code : String
  rule : String
  severity : Severity
  location : Location
  message : String
  suggestions : List Suggestion := []
  labels : List Label := []
  /-- Where more can be read about the rule. -/
  docRef : Option String := none
  deriving DecidableEq, Repr

namespace Violation

def range (violation : Violation) : ByteRange := violation.location.range

def fixes (violation : Violation) : List Fix := violation.suggestions.filterMap (·.fix)

def isFixable (violation : Violation) : Bool := !violation.fixes.isEmpty

def help? (violation : Violation) : Option String :=
  if violation.suggestions.isEmpty then none
  else some (String.intercalate "\n" (violation.suggestions.map (·.message)))

def place (violation : Violation) : String :=
  let location := violation.location
  s!"{location.displayFile}:{location.line}:{location.column}"

def oneLine (violation : Violation) : String :=
  let severity := violation.severity.name
  s!"{violation.place}: {severity} [{violation.code}] {violation.message}" ++
    match violation.docRef with
    | some docRef => s!" (see: {docRef})"
    | none => ""

def helpLine (suggestion : Suggestion) : String :=
  let marker := if suggestion.fix.isSome then " (fixable)" else ""
  s!"  = help: {suggestion.message}{marker}\n"

def headLine (violation : Violation) : String :=
  s!"{violation.code} {violation.rule} at {violation.place}\n"

def paragraph (violation : Violation) : String :=
  let severity := violation.severity.name
  let seeLine := match violation.docRef with
    | some docRef => s!"  = see: {docRef}\n"
    | none => ""
  violation.headLine ++ s!"  {severity}: {violation.message}\n" ++
    String.join (violation.suggestions.map helpLine) ++ seeLine

def inFile (violation : Violation) (file : String) : Violation :=
  { violation with
    location := { violation.location with file := some file }
    labels := violation.labels.map fun label =>
      { label with location := { label.location with file := some file } } }

end Violation

end AccessibleMarkup
