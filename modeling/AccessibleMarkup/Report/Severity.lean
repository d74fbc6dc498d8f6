import AccessibleMarkup.Text.Ascii
import AccessibleMarkup.Text.Blank

/-! How serious a violation is. -/
namespace AccessibleMarkup

inductive Severity where
  | info
  | warning
  | error
  deriving DecidableEq, Repr

/-- A name that is no severity, without blanks at its ends and in lower case. -/
structure UnknownSeverity where
  name : String
  deriving DecidableEq, Repr

def UnknownSeverity.message (unknown : UnknownSeverity) : String :=
  s!"unknown severity '{unknown.name}' (expected: error, warning, info)"

namespace Severity

def rank : Severity → Nat
  | info => 0
  | warning => 1
  | error => 2

def reaches (severity threshold : Severity) : Bool := threshold.rank ≤ severity.rank

def name : Severity → String
  | info => "info"
  | warning => "warning"
  | error => "error"

def ofName? : String → Option Severity
  | "info" => some info
  | "warning" => some warning
  | "error" => some error
  | _ => none

/-- Reads a severity in any case; `warn` is a short form. -/
def read (text : String) : Except UnknownSeverity Severity :=
  let name := Text.asciiLower (Text.trim text)
  match if name = "warn" then some warning else ofName? name with
  | some severity => .ok severity
  | none => .error ⟨name⟩

end Severity

end AccessibleMarkup
