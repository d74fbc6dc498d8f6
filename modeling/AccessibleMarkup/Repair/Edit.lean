import AccessibleMarkup.Text.Bytes

/-! Edits: the replacement of one range of a text, and what can go wrong with a fix. -/
namespace AccessibleMarkup

inductive FixError where
  /-- The violations belong to an earlier text. -/
  | staleReport
  | noSuchViolation (index count : Nat)
  | noSuchFix (violation suggestion : Nat)
  | anchorOutOfBounds (anchor length : Nat)
  | editOutOfBounds (start stop length : Nat)
  /-- A name that cannot be written in markup. -/
  | invalidName (name : String)
  deriving DecidableEq, Repr

def FixError.message : FixError → String
  | staleReport =>
    "diagnostics are stale; re-evaluate the document before applying another fix"
  | noSuchViolation index count => s!"no violation at index {index} ({count} available)"
  | noSuchFix violation suggestion =>
    s!"violation {violation} has no fix at suggestion index {suggestion}"
  | anchorOutOfBounds anchor length =>
    s!"anchor offset {anchor} is beyond the document length {length}"
  | editOutOfBounds start stop length =>
    s!"edit range {start}..{stop} is invalid for a document of length {length}"
  | invalidName name => s!"invalid name '{name}'"

/-- The replacement of a range of bytes. -/
structure Edit where
  range : ByteRange
  replacement : List Char
  deriving DecidableEq, Repr

namespace Edit

def insertion (offset : Nat) (replacement : List Char) : Edit := ⟨⟨offset, offset⟩, replacement⟩

/-- The text with the range replaced. The ends of the range have to lie between characters. -/
def apply (edit : Edit) (text : List Char) : Except FixError (List Char) :=
  let start := edit.range.start
  let stop := edit.range.stop
  match Text.splitAt? text start, Text.splitAt? text stop with
  | some (before, _), some (_, after) =>
    if start ≤ stop then .ok (before ++ edit.replacement ++ after)
    else .error (.editOutOfBounds start stop (Text.byteLength text))
  | _, _ => .error (.editOutOfBounds start stop (Text.byteLength text))

end Edit

end AccessibleMarkup
