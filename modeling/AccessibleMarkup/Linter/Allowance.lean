import AccessibleMarkup.Text.Blank
import AccessibleMarkup.Text.Bytes

/-! Allow directives: comments that permit a rule to be broken on their own line and the next. -/
namespace AccessibleMarkup

/-- A comment that permits some rules to be broken. -/
structure AllowDirective where
  /-- Names or codes of the rules. -/
  rules : List String
  /-- Why the exception is made. -/
  reason : Option String
  deriving DecidableEq, Repr

namespace AllowDirective

/-- The openings of comments that may hold a directive. -/
def commentOpenings : List String := ["<!--", "\x7b#", "<%--", "\x7b\x7b!--", "\x7b\x7b!"]

def marker : String := "aria-lint:"

def after? (expected : String) (text : List Char) : Option (List Char) :=
  if expected.toList.isPrefixOf text then some (text.drop expected.toList.length) else none

/-- The text in double quotes at the start, without blanks at its ends. -/
def quoted? (text : List Char) : Option String := do
  let inside ← after? "\"" (Text.trimStart text)
  let (before, _) ← Text.breakOn? ['"'] inside
  return String.ofList (Text.trimEnd (Text.trimStart before))

def readReason? (text : List Char) : Option String :=
  ((after? "reason=" (Text.trimStart text)).bind quoted?).filter (· != "")

/-- The names between commas, without blanks at their ends and without empty ones. -/
def readNames (text : List Char) : List String :=
  (((text.splitOn ',').map fun name => String.ofList (Text.trimEnd (Text.trimStart name))).filter
    (· != "")).eraseDups

/-- Whether a comment opens at the end of the text, blanks aside. -/
def opensComment (text : List Char) : Bool :=
  commentOpenings.any fun opening => opening.toList.isSuffixOf (Text.trimEnd text)

def read? (line : List Char) : Option AllowDirective := do
  let (before, rest) ← Text.breakOn? marker.toList line
  if !opensComment before then none
  let inside ← after? "allow(" (Text.trimStart rest)
  let (names, tail) ← Text.breakOn? [')'] inside
  let rules := readNames names
  if rules.isEmpty then none
  return { rules, reason := readReason? tail }

/-- Whether the directive names one of the names, or all rules. -/
def covers (directive : AllowDirective) (names : List String) : Bool :=
  directive.rules.contains "all" || names.any directive.rules.contains

end AllowDirective

/-- The directives of a document, each with its line number. -/
structure AllowDirectives where
  byLine : List (Nat × AllowDirective) := []
  deriving DecidableEq, Repr

namespace AllowDirectives

def read (text : List Char) : AllowDirectives :=
  ⟨(Text.lines text).zipIdx.filterMap fun (line, i) =>
    (AllowDirective.read? line).map fun directive => (i + 1, directive)⟩

def isEmpty (directives : AllowDirectives) : Bool := directives.byLine.isEmpty

/-- The directive that permits rules of these names on the line: the line's own directive first,
then that of the line before. -/
def permitting? (directives : AllowDirectives) (line : Nat) (names : List String) :
    Option AllowDirective :=
  ([line, line - 1].filterMap fun n => directives.byLine.lookup n).find? (·.covers names)

end AllowDirectives

end AccessibleMarkup
