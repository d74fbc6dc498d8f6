import AccessibleMarkup.Report.Violation

/-! Collecting the violations of all rules: in the order of the document, and each place and message
once. -/
namespace AccessibleMarkup.Report

/-- Moves the range of a violation into a document of the given length. -/
def clampTo (length : Nat) (violation : Violation) : Violation :=
  let offset := min violation.location.offset length
  { violation with
    location := { violation.location with
      offset, length := min violation.location.length (length - offset) } }

/-- Whether two violations have the same range and message. -/
def sameFinding (left right : Violation) : Bool :=
  left.location.offset == right.location.offset &&
    left.location.length == right.location.length && left.message == right.message

/-- Adds the suggestions that a violation does not have yet. -/
def mergeSuggestions (kept : Violation) (suggestions : List Suggestion) : Violation :=
  { kept with
    suggestions := suggestions.foldl
      (fun known suggestion =>
        if known.contains suggestion then known else known ++ [suggestion])
      kept.suggestions }

/-- Adds a violation; one that was found before only adds its suggestions. -/
def addFinding (kept : List Violation) (violation : Violation) : List Violation :=
  if kept.any (sameFinding violation) then
    kept.map fun known =>
      if sameFinding violation known then mergeSuggestions known violation.suggestions else known
  else kept ++ [violation]

/-- The violations of a document of the given length, sorted by where they start. -/
def collect (length : Nat) (found : List Violation) : List Violation :=
  ((found.map (clampTo length)).foldl addFinding []).mergeSort fun left right =>
    left.location.offset ≤ right.location.offset

end AccessibleMarkup.Report
